/-
Base 64 into a buffer of a given length, on one line or on lines of 64 characters.

The loop of `base64_encode` keeps up to two bytes of a group and the length of the line.  The
characters it writes are those of `Binascii.base64Encode`, and the line breaks come in between
(`base64EncodeLoop_eq`).  Spaces do not count when a text is decoded (`decodeLoop_filter`).
-/
import Mathlib
import LibEltor.Binascii

open Bytes

namespace Binascii

def intMax : ℕ := 2 ^ 31 - 1

/-- `SSIZE_MAX - 16`, where a `ssize_t` has 64 bits. -/
def sizeTCeiling : ℕ := 2 ^ 63 - 1 - 16

/-- What a call leaves: the bytes stored in the buffer, from its beginning on, after it was set to
zero, and what is returned. -/
structure Result where
  stored : Bytes
  ret : ℤ
  deriving DecidableEq

def done (dest : Bytes) : Result := ⟨dest, dest.length⟩

def failed (dest : Bytes) : Result := ⟨dest, -1⟩

def ceilDiv (a b : ℕ) : ℕ := (a + (b - 1)) / b

def base64Len (n : ℕ) : ℕ := ceilDiv n 3 * 4

/-- The size without the NUL; `none` is a failed assertion. -/
def base64EncodeSize (srclen : ℕ) (multiline : Bool) : Option ℕ :=
  if ¬srclen < intMax then none
  else if ¬ceilDiv srclen 3 < intMax / 4 then none
  else
    let enclen := base64Len srclen
    let enclen := if multiline then enclen + ceilDiv enclen 64 else enclen
    if enclen < intMax ∧ (enclen = 0 ∨ enclen > srclen) then some enclen else none

/-! ### Encoding -/

structure Out where
  d : Bytes
  linelen : ℕ

def encodeChar (multiline : Bool) (out : Out) (ch : UInt8) : Out :=
  if multiline then
    if (out.linelen + 1) % 64 = 0 then ⟨out.d ++ [ch] ++ [10], 0⟩
    else ⟨out.d ++ [ch], out.linelen + 1⟩
  else ⟨out.d ++ [ch], out.linelen⟩

/-- The variables of the loop; `n` has the bits of the `nIdx` bytes that wait. -/
structure EncodeState where
  out : Out
  n : ℕ
  nIdx : ℕ

def encodeByte (multiline : Bool) (st : EncodeState) (b : UInt8) : EncodeState :=
  let n := st.n * 256 + b.toNat
  if st.nIdx + 1 = 3 then
    ⟨[encodeN n 0, encodeN n 1, encodeN n 2, encodeN n 3].foldl (encodeChar multiline) st.out, 0, 0⟩
  else ⟨st.out, n, st.nIdx + 1⟩

def encodeRest (multiline : Bool) (st : EncodeState) : Out :=
  match st.nIdx with
  | 1 =>
    let n := st.n * 16
    [encodeN n 2, encodeN n 3, encodePad, encodePad].foldl (encodeChar multiline) st.out
  | 2 =>
    let n := st.n * 4
    [encodeN n 1, encodeN n 2, encodeN n 3, encodePad].foldl (encodeChar multiline) st.out
  | _ => st.out

def base64EncodeLoop (multiline : Bool) (src : Bytes) : Bytes :=
  let out := encodeRest multiline (src.foldl (encodeByte multiline) ⟨⟨[], 0⟩, 0, 0⟩)
  if multiline ∧ out.linelen ≠ 0 then out.d ++ [10] else out.d

/-- `base64_encode`; `none` is a failed assertion. -/
def base64EncodeTo (destlen : ℕ) (src : Bytes) (multiline : Bool) : Option Result := do
  let enclen ← base64EncodeSize src.length multiline
  if destlen < enclen + 1 then some (failed [])
  else if destlen > sizeTCeiling then some (failed [])
  else if enclen > intMax then some (failed [])
  else
    let d := base64EncodeLoop multiline src
    if d.length = enclen then some ⟨d ++ [0], enclen⟩ else none

/-- `base64_encode_nopad`: the padding is taken out in place, so what was behind it stays. -/
def base64EncodeNopadTo (destlen : ℕ) (src : Bytes) : Option Result := do
  let r ← base64EncodeTo destlen src false
  if r.ret ≤ 0 then some r
  else
    let kept := (cstr r.stored).filter fun c => ¬(c = 61 ∨ c = 10)
    some ⟨kept ++ 0 :: r.stored.drop (kept.length + 1), kept.length⟩

/-- The leftover bits, with what is stored when there is no room for them. -/
def decodeRestTo (destlen n nIdx : ℕ) (dest : Bytes) : Result :=
  match nIdx with
  | 1 => failed dest
  | 2 =>
    if destlen < 1 ∨ dest.length > destlen - 1 then failed dest
    else done (dest ++ [UInt8.ofNat (n / 16)])
  | 3 =>
    if destlen < 2 ∨ dest.length > destlen - 2 then failed dest
    else done (dest ++ [UInt8.ofNat (n / 1024), UInt8.ofNat (n / 4)])
  | _ => done dest

def decodeLoopTo (destlen : ℕ) : Bytes → ℕ → ℕ → Bytes → Result
  | [], n, nIdx, dest => decodeRestTo destlen n nIdx dest
  | c :: src, n, nIdx, dest =>
    match base64DecodeTable c with
    | .X => failed dest
    | .SP => decodeLoopTo destlen src n nIdx dest
    | .PAD => decodeRestTo destlen n nIdx dest
    | .bits v =>
      let n := n * 64 + v
      if nIdx + 1 = 4 then
        if destlen < 3 ∨ dest.length > destlen - 3 then failed dest
        else decodeLoopTo destlen src 0 0
          (dest ++ [UInt8.ofNat (n / 65536), UInt8.ofNat (n / 256), UInt8.ofNat n])
      else decodeLoopTo destlen src n (nIdx + 1) dest

def base64DecodeTo (destlen : ℕ) (src : Bytes) : Result :=
  if destlen > intMax then failed [] else decodeLoopTo destlen src 0 0 []

/-! ### The characters that are written -/

theorem encodeByte_group (multiline : Bool) (out : Out) (a b c : UInt8) (src : Bytes) :
    (a :: b :: c :: src).foldl (encodeByte multiline) ⟨out, 0, 0⟩ =
      src.foldl (encodeByte multiline)
        ⟨(let n := (a.toNat * 256 + b.toNat) * 256 + c.toNat
          [encodeN n 0, encodeN n 1, encodeN n 2, encodeN n 3].foldl (encodeChar multiline) out),
          0, 0⟩ := by
  simp [encodeByte]

theorem encodeRest_foldl (multiline : Bool) (src : Bytes) (out : Out) :
    encodeRest multiline (src.foldl (encodeByte multiline) ⟨out, 0, 0⟩) =
      (base64Encode src).foldl (encodeChar multiline) out := by
  induction src using base64Encode.induct generalizing out with
  | case1 a b c src ih =>
    rw [encodeByte_group, ih, base64Encode]
    rfl
  | case2 a b => simp [encodeByte, encodeRest, base64Encode]
  | case3 a => simp [encodeByte, encodeRest, base64Encode]
  | case4 => rfl

theorem encodeChar_oneLine (cs : Bytes) (out : Out) :
    (cs.foldl (encodeChar false) out).d = out.d ++ cs := by
  induction cs generalizing out with
  | nil => exact (List.append_nil _).symm
  | cons c cs ih =>
    rw [List.foldl_cons, ih]
    simp [encodeChar]

/-- After `k` characters on lines, `k / 64` line breaks are between them. -/
theorem encodeChar_lines (cs : Bytes) (hcs : 10 ∉ cs) :
    ((cs.foldl (encodeChar true) ⟨[], 0⟩).d.length = cs.length + cs.length / 64 ∧
      (cs.foldl (encodeChar true) ⟨[], 0⟩).linelen = cs.length % 64) ∧
      (cs.foldl (encodeChar true) ⟨[], 0⟩).d.filter (· ≠ 10) = cs := by
  induction cs using List.reverseRecOn with
  | nil => exact ⟨⟨rfl, rfl⟩, rfl⟩
  | append_singleton cs c ih =>
    obtain ⟨⟨hlen, hline⟩, hfilter⟩ := ih fun h => hcs (List.mem_append_left _ h)
    have hc : c ≠ 10 := by
      rintro rfl
      exact hcs (List.mem_append_right _ List.mem_cons_self)
    rw [List.foldl_append, List.foldl_cons, List.foldl_nil, encodeChar, if_pos rfl, hline]
    by_cases hfull : (cs.length % 64 + 1) % 64 = 0
    · rw [if_pos hfull]
      refine ⟨⟨?_, ?_⟩, by simpa [hc] using hfilter⟩
      · simp only [List.length_append, List.length_singleton, hlen]
        omega
      · show 0 = _
        rw [List.length_append, List.length_singleton]
        omega
    · rw [if_neg hfull]
      refine ⟨⟨?_, ?_⟩, by simpa [hc] using hfilter⟩
      · simp only [List.length_append, List.length_singleton, hlen]
        omega
      · show cs.length % 64 + 1 = _
        rw [List.length_append, List.length_singleton]
        omega

theorem mem_base64Encode {src : Bytes} {c : UInt8} (h : c ∈ base64Encode src) :
    c = encodePad ∨ ∃ v, base64DecodeTable c = .bits v := by
  by_cases hpad : c = encodePad
  · exact Or.inl hpad
  · exact Or.inr (mem_base64EncodeNopad (List.mem_filter.mpr ⟨h, by simpa using hpad⟩))

theorem notMem_base64Encode {c : UInt8} (hc : base64DecodeTable c = .X ∨ base64DecodeTable c = .SP)
    (src : Bytes) : c ∉ base64Encode src := by
  intro h
  rcases mem_base64Encode h with rfl | ⟨v, hv⟩
  · rcases hc with hc | hc <;> exact absurd hc (by decide)
  · rcases hc with hc | hc <;> rw [hc] at hv <;> cases hv

theorem length_base64Encode (src : Bytes) : (base64Encode src).length = base64Len src.length := by
  unfold base64Len ceilDiv
  induction src using base64Encode.induct with
  | case1 a b c src ih =>
    rw [base64Encode]
    simp only [List.length_cons, ih]
    omega
  | case2 a b => simp [base64Encode]
  | case3 a => simp [base64Encode]
  | case4 => rfl

theorem base64EncodeLoop_false (src : Bytes) : base64EncodeLoop false src = base64Encode src := by
  rw [base64EncodeLoop, encodeRest_foldl]
  simp [encodeChar_oneLine]

theorem base64EncodeLoop_eq (multiline : Bool) (src : Bytes) :
    (base64EncodeLoop multiline src).filter (· ≠ 10) = base64Encode src ∧
      (base64EncodeLoop multiline src).length =
        if multiline then base64Len src.length + ceilDiv (base64Len src.length) 64
        else base64Len src.length := by
  have hno : (10 : UInt8) ∉ base64Encode src := notMem_base64Encode (Or.inr rfl) src
  cases multiline with
  | false =>
    rw [base64EncodeLoop_false]
    refine ⟨List.filter_eq_self.mpr fun c hc => ?_, length_base64Encode src⟩
    have hne : c ≠ 10 := fun h => hno (h ▸ hc)
    simpa using hne
  | true =>
    obtain ⟨⟨hlen, hline⟩, hfilter⟩ := encodeChar_lines (base64Encode src) hno
    rw [length_base64Encode] at hlen hline
    rw [base64EncodeLoop, encodeRest_foldl, if_pos rfl]
    unfold ceilDiv
    split_ifs with hrest
    · refine ⟨by rw [List.filter_append, hfilter]; exact List.append_nil _, ?_⟩
      rw [List.length_append, List.length_singleton, hlen]
      have hne := hrest.2
      rw [hline] at hne
      omega
    · refine ⟨hfilter, ?_⟩
      have heq : base64Len src.length % 64 = 0 := by
        rw [← hline]
        exact not_not.mp fun h => hrest ⟨rfl, h⟩
      rw [hlen]
      omega

theorem base64EncodeSize_eq_some {srclen size : ℕ} {multiline : Bool}
    (h : base64EncodeSize srclen multiline = some size) :
    srclen < intMax ∧ size < intMax ∧ (size = 0 ∨ srclen < size) ∧
      size = if multiline then base64Len srclen + ceilDiv (base64Len srclen) 64
        else base64Len srclen := by
  rw [base64EncodeSize] at h
  dsimp only at h
  by_cases hlen : srclen < intMax
  · rw [if_neg (not_not.mpr hlen)] at h
    by_cases hgroups : ceilDiv srclen 3 < intMax / 4
    · rw [if_neg (not_not.mpr hgroups)] at h
      by_cases hsize : (if multiline then base64Len srclen + ceilDiv (base64Len srclen) 64
          else base64Len srclen) < intMax ∧ ((if multiline then base64Len srclen +
          ceilDiv (base64Len srclen) 64 else base64Len srclen) = 0 ∨
          (if multiline then base64Len srclen + ceilDiv (base64Len srclen) 64
          else base64Len srclen) > srclen)
      · rw [if_pos hsize] at h
        obtain rfl := Option.some.inj h
        exact ⟨hlen, hsize.1, hsize.2, rfl⟩
      · rw [if_neg hsize] at h
        cases h
    · rw [if_pos hgroups] at h
      cases h
  · rw [if_pos hlen] at h
    cases h

/-- **The encoder** writes what its size function says, and the NUL, into a buffer that has room. -/
theorem base64EncodeTo_eq {destlen size : ℕ} {src : Bytes} {multiline : Bool}
    (h : base64EncodeSize src.length multiline = some size) (hroom : size + 1 ≤ destlen)
    (hmax : destlen ≤ sizeTCeiling) :
    base64EncodeTo destlen src multiline = some ⟨base64EncodeLoop multiline src ++ [0], size⟩ ∧
      (base64EncodeLoop multiline src).length = size := by
  obtain ⟨-, hlt, -, hsize⟩ := base64EncodeSize_eq_some h
  have hlen : (base64EncodeLoop multiline src).length = size := by
    rw [(base64EncodeLoop_eq multiline src).2, hsize]
  refine ⟨?_, hlen⟩
  show (base64EncodeSize src.length multiline).bind _ = _
  rw [h, Option.bind_some, if_neg (by omega), if_neg (by omega), if_neg (by omega), if_pos hlen]

/-! ### Decoding into a buffer -/

def Result.InBounds (r : Result) (destlen : ℕ) : Prop :=
  r.stored.length ≤ destlen ∧ (r.ret = -1 ∨ r.ret = r.stored.length)

theorem inBounds_done {dest : Bytes} {destlen : ℕ} (h : dest.length ≤ destlen) :
    (done dest).InBounds destlen :=
  ⟨h, Or.inr rfl⟩

theorem inBounds_failed {dest : Bytes} {destlen : ℕ} (h : dest.length ≤ destlen) :
    (failed dest).InBounds destlen :=
  ⟨h, Or.inl rfl⟩

theorem inBounds_decodeRestTo {destlen : ℕ} (n nIdx : ℕ) {dest : Bytes}
    (h : dest.length ≤ destlen) : (decodeRestTo destlen n nIdx dest).InBounds destlen := by
  unfold decodeRestTo
  split
  · exact inBounds_failed h
  · split_ifs with hroom
    · exact inBounds_failed h
    · refine inBounds_done ?_
      rw [List.length_append, List.length_singleton]
      omega
  · split_ifs with hroom
    · exact inBounds_failed h
    · refine inBounds_done ?_
      rw [List.length_append, List.length_cons, List.length_singleton]
      omega
  · exact inBounds_done h

theorem inBounds_decodeLoopTo {destlen : ℕ} (src : Bytes) (n nIdx : ℕ) {dest : Bytes}
    (h : dest.length ≤ destlen) : (decodeLoopTo destlen src n nIdx dest).InBounds destlen := by
  induction src generalizing n nIdx dest with
  | nil => exact inBounds_decodeRestTo n nIdx h
  | cons c src ih =>
    rw [decodeLoopTo]
    cases base64DecodeTable c with
    | X => exact inBounds_failed h
    | SP => exact ih n nIdx h
    | PAD => exact inBounds_decodeRestTo n nIdx h
    | bits v =>
      dsimp only
      split_ifs with hgroup hroom
      · exact inBounds_failed h
      · refine ih 0 0 ?_
        simp only [List.length_append, List.length_cons, List.length_nil]
        omega
      · exact ih _ _ h

/-- **The decoder** stores no more than fits, whatever the text. -/
theorem base64DecodeTo_bounds (destlen : ℕ) (src : Bytes) :
    (base64DecodeTo destlen src).InBounds destlen := by
  unfold base64DecodeTo
  split_ifs
  · exact inBounds_failed (Nat.zero_le destlen)
  · exact inBounds_decodeLoopTo src 0 0 (Nat.zero_le destlen)

theorem decodeRestTo_eq {destlen n nIdx : ℕ} {dest d : Bytes}
    (h : decodeRest destlen n nIdx dest = some d) : decodeRestTo destlen n nIdx dest = done d := by
  rcases nIdx with _ | _ | _ | _ | nIdx
  · exact congrArg done (Option.some.inj h)
  · exact (Option.some_ne_none d h.symm).elim
  · by_cases hroom : destlen < 1 ∨ dest.length > destlen - 1
    · exact (Option.some_ne_none d (h.symm.trans (if_pos hroom))).elim
    · have hd := Option.some.inj (h.symm.trans (if_neg hroom))
      rw [hd]
      exact if_neg hroom
  · by_cases hroom : destlen < 2 ∨ dest.length > destlen - 2
    · exact (Option.some_ne_none d (h.symm.trans (if_pos hroom))).elim
    · have hd := Option.some.inj (h.symm.trans (if_neg hroom))
      rw [hd]
      exact if_neg hroom
  · exact congrArg done (Option.some.inj h)

theorem decodeLoopTo_eq {destlen n nIdx : ℕ} {src dest d : Bytes}
    (h : decodeLoop destlen src n nIdx dest = some d) :
    decodeLoopTo destlen src n nIdx dest = done d := by
  induction src generalizing n nIdx dest with
  | nil => exact decodeRestTo_eq h
  | cons c src ih =>
    rw [decodeLoop] at h
    rw [decodeLoopTo]
    cases hc : base64DecodeTable c with
    | X =>
      rw [hc] at h
      cases h
    | SP =>
      rw [hc] at h
      exact ih h
    | PAD =>
      rw [hc] at h
      exact decodeRestTo_eq h
    | bits v =>
      rw [hc] at h
      dsimp only at h ⊢
      by_cases hgroup : nIdx + 1 = 4
      · rw [if_pos hgroup] at h ⊢
        split_ifs at h with hroom
        rw [if_neg hroom]
        exact ih h
      · rw [if_neg hgroup] at h ⊢
        exact ih h

theorem base64DecodeTo_eq {destlen : ℕ} {src d : Bytes} (hmax : destlen ≤ intMax)
    (h : base64Decode destlen src = some d) : base64DecodeTo destlen src = done d := by
  rw [base64DecodeTo, if_neg (not_lt.mpr hmax)]
  exact decodeLoopTo_eq h

theorem decodeLoop_filter (destlen : ℕ) (src : Bytes) (n nIdx : ℕ) (dest : Bytes) :
    decodeLoop destlen (src.filter (· ≠ 10)) n nIdx dest = decodeLoop destlen src n nIdx dest := by
  induction src generalizing n nIdx dest with
  | nil => rfl
  | cons c src ih =>
    by_cases hc : c = 10
    · subst hc
      rw [List.filter_cons_of_neg (by simp), ih]
      rfl
    · rw [List.filter_cons_of_pos (by simpa using hc), decodeLoop, decodeLoop]
      cases base64DecodeTable c with
      | X => rfl
      | SP => exact ih n nIdx dest
      | PAD => rfl
      | bits v =>
        dsimp only
        rw [ih, ih]

theorem base64DecodeTo_encodeLoop {destlen : ℕ} {src : Bytes} (hroom : src.length ≤ destlen)
    (hmax : destlen ≤ intMax) (multiline : Bool) :
    base64DecodeTo destlen (base64EncodeLoop multiline src) = done src := by
  refine base64DecodeTo_eq hmax ?_
  rw [base64Decode, ← decodeLoop_filter, (base64EncodeLoop_eq multiline src).1]
  exact base64Decode_base64Encode destlen hroom

theorem base64DecodeTo_encodeNopad {destlen : ℕ} {src : Bytes} (hroom : src.length ≤ destlen)
    (hmax : destlen ≤ intMax) : base64DecodeTo destlen (base64EncodeNopad src) = done src :=
  base64DecodeTo_eq hmax (base64Decode_base64EncodeNopad destlen hroom)

theorem cstr_append_zero {s : Bytes} (hs : 0 ∉ s) (t : Bytes) : cstr (s ++ 0 :: t) = s := by
  have hne : ∀ c ∈ s, decide (c ≠ 0) = true := fun c hc =>
    decide_eq_true fun h => hs (h ▸ hc)
  rw [cstr, List.takeWhile_append_of_pos hne]
  simp

theorem cstr_encodeLoop (multiline : Bool) (src t : Bytes) :
    cstr (base64EncodeLoop multiline src ++ 0 :: t) = base64EncodeLoop multiline src := by
  refine cstr_append_zero (fun h => ?_) t
  have hmem : (0 : UInt8) ∈ (base64EncodeLoop multiline src).filter (· ≠ 10) :=
    List.mem_filter.mpr ⟨h, by decide⟩
  rw [(base64EncodeLoop_eq multiline src).1] at hmem
  exact notMem_base64Encode (Or.inl rfl) src hmem

theorem base64EncodeNopadTo_eq {destlen size : ℕ} {src : Bytes}
    (h : base64EncodeSize src.length false = some size) (hroom : size + 1 ≤ destlen)
    (hmax : destlen ≤ sizeTCeiling) :
    ∃ t, base64EncodeNopadTo destlen src =
        some ⟨base64EncodeNopad src ++ 0 :: t, (base64EncodeNopad src).length⟩ ∧
      (base64EncodeNopad src ++ 0 :: t).length = size + 1 := by
  obtain ⟨hencode, hlen⟩ := base64EncodeTo_eq h hroom hmax
  rw [base64EncodeLoop_false] at hencode hlen
  have hbind : base64EncodeNopadTo destlen src =
      if (size : ℤ) ≤ 0 then some ⟨base64Encode src ++ [0], size⟩
      else
        let kept := (cstr (base64Encode src ++ [0])).filter fun c => ¬(c = 61 ∨ c = 10)
        some ⟨kept ++ 0 :: (base64Encode src ++ [0]).drop (kept.length + 1), kept.length⟩ := by
    show (base64EncodeTo destlen src false).bind _ = _
    rw [hencode]
    rfl
  rw [hbind]
  split_ifs with hzero
  · obtain rfl : size = 0 := by omega
    have hnil := List.length_eq_zero_iff.mp hlen
    refine ⟨[], ?_, ?_⟩ <;> simp [base64EncodeNopad, hnil]
  · have hcstr : cstr (base64Encode src ++ [0]) = base64Encode src := by
      have hloop := cstr_encodeLoop false src []
      rwa [base64EncodeLoop_false] at hloop
    have hkept : (base64Encode src).filter (fun c => ¬(c = 61 ∨ c = 10)) =
        base64EncodeNopad src := by
      refine List.filter_congr fun c hc => ?_
      have hne : c ≠ 10 := fun h => notMem_base64Encode (Or.inr rfl) src (h ▸ hc)
      have hiff : ¬(c = 61 ∨ c = 10) ↔ c ≠ encodePad :=
        ⟨fun h hpad => h (Or.inl hpad), fun h hor => hor.elim h hne⟩
      exact decide_eq_decide.mpr hiff
    rw [hcstr, hkept]
    refine ⟨_, rfl, ?_⟩
    have hle : (base64EncodeNopad src).length ≤ (base64Encode src).length :=
      List.length_filter_le _ _
    simp only [List.length_append, List.length_cons, List.length_drop, List.length_nil]
    omega

end Binascii
