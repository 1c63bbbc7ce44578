/-
The string of payloads of EXTENDPAIDCIRCUIT in its buffer
(`feature/control/control_extendpaidcircuit.c`, `ext/strlcat.c`).

The buffer is allocated for as many lines as the body has, each as long as the longest one.  The
loop over the lines reckons with another size, 1024 bytes for each line, computed as an int.  Here
the buffer is what was allocated, and every byte that is stored is noted with its index.
-/
import LibEltor.ExtendPaidCircuit
import LibEltor.Word

open Bytes PaymentUtil Smartlist Word

namespace ExtendPaidCircuit

/-! ### The buffer -/

/-- The bytes that were allocated, and the indices that were written to. -/
structure Buffer where
  bytes : Bytes
  written : List ℕ

namespace Buffer

def mallocZero (size : ℕ) : Buffer := ⟨List.replicate size 0, []⟩

def store (i : ℕ) (b : UInt8) (buf : Buffer) : Buffer := ⟨buf.bytes.set i b, i :: buf.written⟩

def storeAll (i : ℕ) : Bytes → Buffer → Buffer
  | [], buf => buf
  | b :: src, buf => storeAll (i + 1) src (buf.store i b)

def strlen (bytes : Bytes) : ℕ := (cstr bytes).length

/-- `strlcat`: at most `siz - 1` bytes and the NUL, and nothing if the string fills `siz`. -/
def strlcat (src : Bytes) (siz : ℕ) (buf : Buffer) : Buffer :=
  let dlen := min (strlen buf.bytes) siz
  let n := siz - dlen
  if n = 0 then buf else storeAll dlen (src.take (n - 1) ++ [0]) buf

def strncat (offset : ℕ) (src : Bytes) (n : ℕ) (buf : Buffer) : Buffer :=
  storeAll (offset + strlen (buf.bytes.drop offset)) (src.take n ++ [0]) buf

end Buffer

open Buffer

/-! ### The handler's writes -/

def int32 (x : ℤ) : ℤ := x.bmod (2 ^ 32)

def allocatedSize (lines : List Bytes) : ℕ :=
  let maxLineLength := (lines.map List.length).foldl max 0
  u64 ((maxLineLength + 1) * lines.length + 1)

def loopBufferSize (lines : List Bytes) : ℕ := u64 (int32 (lines.length * 1024))

/-- One payload behind those that are there; none where the loop goes on to the next line. -/
def copyPayhash (bufferSize : ℕ) (payhash : Bytes) (buf : Buffer) : Option Buffer :=
  let currentLen := strlen buf.bytes
  let remaining := u64 (bufferSize - currentLen - 1)
  if currentLen > 0 then
    if remaining ≥ 1 then
      some (append currentLen (remaining - 1) (strlcat [10] bufferSize buf))
    else none
  else some (append currentLen remaining buf)
where
  append (currentLen remaining : ℕ) (buf : Buffer) : Buffer :=
    if payhash.length ≤ remaining then strlcat payhash bufferSize buf
    else (strncat currentLen payhash remaining buf).store (u64 (bufferSize - 1)) 0

variable {Node Info : Type*}

def copyLines (env : Env Node Info) (zeroCirc : Bool) (bufferSize : ℕ) :
    List Bytes → Buffer → Buffer
  | [], buf => buf
  | line :: lines, buf =>
    match parseHopLine line with
    | none => copyLines env zeroCirc bufferSize lines buf
    | some hop =>
      match copyPayhash bufferSize hop.payhash buf with
      | none => copyLines env zeroCirc bufferSize lines buf
      | some buf =>
        match lookupNode env zeroCirc hop.fingerprint with
        | .error _ => buf
        | .ok _ => copyLines env zeroCirc bufferSize lines buf

def cmddataLines (cmddata : Bytes) : List Bytes := bodyLines (cstr cmddata)

def fillPayhashes (env : Env Node Info) (zeroCirc : Bool) (lines : List Bytes) : Buffer :=
  copyLines env zeroCirc (loopBufferSize lines) lines (mallocZero (allocatedSize lines))

/-! ### A string in its buffer -/

/-- The buffer has `size` bytes and begins with the string `s`; nothing was written outside. -/
structure Holds (size : ℕ) (s : Bytes) (buf : Buffer) : Prop where
  nonzero : 0 ∉ s
  bytes : ∃ rest, buf.bytes = s ++ 0 :: rest
  length : buf.bytes.length = size
  written : ∀ i ∈ buf.written, i < size

theorem cstr_append {s : Bytes} (h : 0 ∉ s) (t : Bytes) : cstr (s ++ 0 :: t) = s := by
  have hpos : ∀ b ∈ s, decide (b ≠ 0) = true := fun b hb => decide_eq_true fun heq => h (heq ▸ hb)
  rw [cstr, List.takeWhile_append_of_pos hpos, List.takeWhile_cons_of_neg (by simp),
    List.append_nil]

theorem nonzero_cstr (p : Bytes) : 0 ∉ cstr p := fun hmem => by
  simpa using List.mem_takeWhile_imp hmem

theorem storeAll_bytes (src p mid : Bytes) (written : List ℕ) (h : src.length ≤ mid.length) :
    (storeAll p.length src ⟨p ++ mid, written⟩).bytes = p ++ (src ++ mid.drop src.length) := by
  induction src generalizing p mid written with
  | nil => rfl
  | cons b src ih =>
    cases mid with
    | nil => exact absurd h (by simp)
    | cons m mid =>
      have hset : (p ++ m :: mid).set p.length b = (p ++ [b]) ++ mid := by simp
      have hlen : p.length + 1 = (p ++ [b]).length := by simp
      rw [storeAll, store, hset, hlen, ih (p ++ [b]) mid _ (Nat.le_of_succ_le_succ h)]
      simp

theorem mem_written_storeAll {i j : ℕ} {src : Bytes} {buf : Buffer}
    (h : j ∈ (storeAll i src buf).written) : j ∈ buf.written ∨ j < i + src.length := by
  induction src generalizing i buf with
  | nil => exact .inl h
  | cons b src ih =>
    rw [List.length_cons]
    obtain hmem | hlt := ih h
    · obtain rfl | hold := List.mem_cons.mp hmem
      · exact .inr (by omega)
      · exact .inl hold
    · exact .inr (by omega)

section Strings

variable {size : ℕ} {s src : Bytes} {buf : Buffer}

theorem Holds.strlen_eq (h : Holds size s buf) : strlen buf.bytes = s.length := by
  obtain ⟨rest, hrest⟩ := h.bytes
  rw [strlen, hrest, cstr_append h.nonzero]

theorem Holds.storeAll (h : Holds size s buf) (hsrc : 0 ∉ src)
    (hroom : s.length + src.length < size) :
    Holds size (s ++ src) (storeAll s.length (src ++ [0]) buf) := by
  obtain ⟨rest, hrest⟩ := h.bytes
  have hsize : s.length + (rest.length + 1) = size := by
    rw [← h.length, hrest, List.length_append, List.length_cons]
  have hbytes : (Buffer.storeAll s.length (src ++ [0]) buf).bytes =
      (s ++ src) ++ 0 :: rest.drop src.length := by
    have hbuf : buf = ⟨s ++ 0 :: rest, buf.written⟩ := by rw [← hrest]
    have hlen : (src ++ [0]).length ≤ (0 :: rest).length := by
      simp only [List.length_append, List.length_cons, List.length_nil]
      omega
    rw [hbuf, storeAll_bytes _ _ _ _ hlen]
    simp
  refine ⟨?_, ⟨_, hbytes⟩, ?_, fun i hi => ?_⟩
  · rw [List.mem_append]
    exact fun hmem => hmem.elim h.nonzero hsrc
  · rw [hbytes]
    simp only [List.length_append, List.length_cons, List.length_drop]
    omega
  · obtain hold | hlt := mem_written_storeAll hi
    · exact h.written i hold
    · rw [List.length_append, List.length_singleton] at hlt
      omega

theorem Holds.store_end (h : Holds size s buf) : Holds size s (buf.store s.length 0) := by
  obtain ⟨rest, hrest⟩ := h.bytes
  refine ⟨h.nonzero, ⟨rest, ?_⟩, ?_, fun i hi => ?_⟩
  · simp [store, hrest]
  · exact (List.length_set).trans h.length
  · obtain rfl | hold := List.mem_cons.mp hi
    · rw [← h.length, hrest, List.length_append, List.length_cons]
      omega
    · exact h.written i hold

theorem Holds.strlcat_eq (h : Holds size s buf) {siz : ℕ} (hlt : s.length < siz) :
    strlcat src siz buf = Buffer.storeAll s.length (src.take (siz - s.length - 1) ++ [0]) buf := by
  unfold strlcat
  simp only [h.strlen_eq, Nat.min_eq_left hlt.le]
  rw [if_neg (by omega)]

theorem strlcat_zero (src : Bytes) (buf : Buffer) : strlcat src 0 buf = buf := by
  unfold strlcat
  simp

theorem Holds.strncat_eq (h : Holds size s buf) {offset n : ℕ} (hle : offset ≤ s.length) :
    strncat offset src n buf = Buffer.storeAll s.length (src.take n ++ [0]) buf := by
  obtain ⟨rest, hrest⟩ := h.bytes
  have hdrop : strlen (buf.bytes.drop offset) = s.length - offset := by
    rw [strlen, hrest, List.drop_append_of_le_length hle,
      cstr_append fun hmem => h.nonzero (List.mem_of_mem_drop hmem), List.length_drop]
  rw [strncat, hdrop, Nat.add_sub_cancel' hle]

theorem u64_sub_sub {a b : ℕ} (hlt : b < a) (ha : a < 2 ^ 64) : u64 (a - b - 1) = a - b - 1 := by
  have hcast : ((a : ℤ) - b - 1) = ((a - b - 1 : ℕ) : ℤ) := by omega
  rw [hcast]
  exact wrap_natCast (by omega)

variable {bufferSize : ℕ} {payhash : Bytes}

theorem Holds.append (h : Holds size s buf) {offset : ℕ} (hoffset : offset ≤ s.length)
    (hlt : s.length < bufferSize) (hsize : bufferSize < 2 ^ 64) (h0 : 0 ∉ payhash)
    (hroom : s.length + payhash.length < size) :
    Holds size (addPayhash.append payhash s (bufferSize - s.length - 1))
      (copyPayhash.append bufferSize payhash offset (bufferSize - s.length - 1) buf) := by
  unfold addPayhash.append copyPayhash.append
  by_cases hfits : payhash.length ≤ bufferSize - s.length - 1
  · rw [if_pos hfits, if_pos hfits, h.strlcat_eq hlt, List.take_of_length_le hfits]
    exact h.storeAll h0 hroom
  · rw [if_neg hfits, if_neg hfits, h.strncat_eq hoffset]
    have htake : (payhash.take (bufferSize - s.length - 1)).length = bufferSize - s.length - 1 :=
      List.length_take_of_le (by omega)
    have hnone : 0 ∉ payhash.take (bufferSize - s.length - 1) := fun hmem =>
      h0 (List.mem_of_mem_take hmem)
    have hcut := h.storeAll hnone (by omega)
    have hlast : u64 ((bufferSize : ℤ) - 1) =
        (s ++ payhash.take (bufferSize - s.length - 1)).length := by
      have hzero := u64_sub_sub (b := 0) (by omega) hsize
      rw [List.length_append, htake]
      simp only [Nat.cast_zero, sub_zero] at hzero
      rw [hzero]
      omega
    rw [hlast]
    exact hcut.store_end

theorem copyPayhash_holds (h : Holds size s buf) (hlt : s.length < bufferSize)
    (hsize : bufferSize < 2 ^ 64) (h0 : 0 ∉ payhash)
    (hroom : s.length + 1 + payhash.length < size) :
    match addPayhash bufferSize s payhash with
    | none => copyPayhash bufferSize payhash buf = none
    | some s' => ∃ buf', copyPayhash bufferSize payhash buf = some buf' ∧ Holds size s' buf' := by
  unfold addPayhash copyPayhash
  simp only [h.strlen_eq, u64_sub_sub hlt hsize]
  by_cases hpos : 0 < s.length
  · by_cases hone : bufferSize - s.length - 1 ≥ 1
    · rw [if_pos hpos, if_pos hone, if_pos hpos, if_pos hone]
      have htake : [(10 : UInt8)].take (bufferSize - s.length - 1) = [10] :=
        List.take_of_length_le hone
      have hline : Holds size (s ++ [10]) (strlcat [10] bufferSize buf) := by
        rw [h.strlcat_eq hlt, htake]
        exact h.storeAll (by decide) (by simpa using Nat.lt_of_le_of_lt (Nat.le_add_right _ _) hroom)
      have hlen : (s ++ [10]).length = s.length + 1 := List.length_append
      have hrest : bufferSize - s.length - 1 - 1 = bufferSize - (s ++ [10]).length - 1 := by omega
      rw [hrest]
      exact ⟨_, rfl, hline.append (by omega) (by omega) hsize h0 (by omega)⟩
    · rw [if_pos hpos, if_neg hone, if_pos hpos, if_neg hone]
  · rw [if_neg hpos, if_neg hpos]
    exact ⟨_, rfl, h.append (le_refl _) hlt hsize h0 (by omega)⟩

theorem copyPayhash_zero (h : Holds size [] buf) (hlen : payhash.length < 2 ^ 64) :
    copyPayhash 0 payhash buf = some buf := by
  have hremaining : u64 (((0 : ℕ) : ℤ) - ((0 : ℕ) : ℤ) - 1) = 2 ^ 64 - 1 := by decide
  unfold copyPayhash copyPayhash.append
  simp only [h.strlen_eq, List.length_nil, hremaining]
  rw [if_neg (lt_irrefl 0), if_pos (by omega), strlcat_zero]

theorem length_addPayhash {s' : Bytes} (h : addPayhash bufferSize s payhash = some s')
    (hlt : s.length < bufferSize) :
    s'.length < bufferSize ∧ s'.length ≤ s.length + 1 + payhash.length := by
  unfold addPayhash addPayhash.append at h
  simp only at h
  split_ifs at h <;> obtain rfl := Option.some.inj h <;>
    simp only [List.length_append, List.length_take, List.length_singleton] <;> omega

end Strings

/-! ### The lines -/

variable {env : Env Node Info} {zeroCirc : Bool}

theorem mem_of_mem_splitString {sep b : UInt8} {str piece : Bytes}
    (hpiece : piece ∈ splitString sep str) (hb : b ∈ piece) : b ∈ str := by
  induction hn : str.length using Nat.strong_induction_on generalizing str with
  | _ n ih =>
    have hsub : str.dropWhile torIsspace ⊆ str := (List.dropWhile_suffix torIsspace).subset
    rw [splitString_eq, List.mem_append] at hpiece
    rcases hpiece with hfirst | hrest
    · split_ifs at hfirst
      · obtain rfl := List.mem_singleton.mp hfirst
        exact hsub ((firstPiece_isPrefix sep str).subset hb)
      · exact absurd hfirst (by simp)
    · split at hrest
      · exact absurd hrest (by simp)
      · rename_i c next hnext
        have hle := length_fromSep_le sep str
        rw [hnext, List.length_cons] at hle
        have hmem : b ∈ fromSep sep str := by
          rw [hnext]
          exact List.mem_cons_of_mem _ (ih next.length (by omega) hrest rfl)
        exact hsub ((List.dropWhile_suffix _).subset hmem)

theorem length_firstPiece_add_le (sep : UInt8) (str : Bytes) :
    (firstPiece sep str).length + (fromSep sep str).length ≤ str.length := by
  have hparts := congrArg List.length
    (List.takeWhile_append_dropWhile (p := (· ≠ sep)) (l := str.dropWhile torIsspace))
  have hpiece := (List.rdropWhile_prefix torIsspace
    ((str.dropWhile torIsspace).takeWhile (· ≠ sep))).length_le
  have hstr := (List.dropWhile_suffix torIsspace (l := str)).length_le
  rw [List.length_append] at hparts
  unfold firstPiece fromSep
  omega

theorem length_splitString_le (sep : UInt8) (str : Bytes) :
    (splitString sep str).length ≤ str.length := by
  induction hn : str.length using Nat.strong_induction_on generalizing str with
  | _ n ih =>
    have hparts := length_firstPiece_add_le sep str
    have hfirst : (if firstPiece sep str ≠ [] then [firstPiece sep str] else []).length ≤
        (firstPiece sep str).length := by
      split_ifs with hne
      · exact List.length_pos_iff.mpr hne
      · exact Nat.zero_le _
    rw [splitString_eq, List.length_append]
    cases hrest : fromSep sep str with
    | nil =>
      simp only [List.length_nil]
      omega
    | cons c next =>
      rw [hrest, List.length_cons] at hparts
      have hnext := ih next.length (by omega) next rfl
      simp only
      omega

theorem payhash_of_parseHopLine {line : Bytes} {hop : HopLine} (h : parseHopLine line = some hop)
    (h0 : 0 ∉ line) : 0 ∉ hop.payhash ∧ hop.payhash.length ≤ line.length := by
  have hmem : hop.payhash ∈ splitString 32 line := by
    rw [(parseHopLine_eq_some h).1]
    simp
  exact ⟨fun hzero => h0 (mem_of_mem_splitString hmem hzero), (mem_splitString hmem).2.2.2⟩

section Lines

variable {size bufferSize m : ℕ} {lines : List Bytes}

variable (env zeroCirc) in
/-- The buffer always holds a string, the one that `processLines` has, if it gets to the end. -/
theorem copyLines_holds {s : Bytes} {buf : Buffer} (h : Holds size s buf)
    (hlt : s.length < bufferSize) (hsize : bufferSize < 2 ^ 64)
    (hlines : ∀ line ∈ lines, 0 ∉ line ∧ line.length ≤ m)
    (hroom : s.length + lines.length * (m + 1) < size) :
    ∃ s', Holds size s' (copyLines env zeroCirc bufferSize lines buf) ∧
      ∀ acc p, acc.payhashes = s → processLines env zeroCirc bufferSize lines acc = .ok p →
        p.payhashes = s' := by
  induction lines generalizing s buf with
  | nil =>
    refine ⟨s, h, fun acc p hacc hp => ?_⟩
    obtain rfl := Except.ok.inj hp
    exact hacc
  | cons line lines ih =>
    rw [List.length_cons, Nat.succ_mul] at hroom
    have hrest : ∀ line ∈ lines, 0 ∉ line ∧ line.length ≤ m :=
      fun line' hline' => hlines line' (List.mem_cons_of_mem _ hline')
    cases hparse : parseHopLine line with
    | none =>
      simp only [copyLines, processLines, hparse]
      exact ih h hlt hrest (by omega)
    | some hop =>
      obtain ⟨h0, hlen⟩ := hlines line List.mem_cons_self
      obtain ⟨hp0, hplen⟩ := payhash_of_parseHopLine hparse h0
      have hcopy := copyPayhash_holds h hlt hsize hp0 (by omega)
      cases hadd : addPayhash bufferSize s hop.payhash with
      | none =>
        rw [hadd] at hcopy
        obtain ⟨s', hs', hsame⟩ := ih h hlt hrest (by omega)
        refine ⟨s', ?_, fun acc p hacc hp => ?_⟩
        · simp only [copyLines, hparse, hcopy]
          exact hs'
        · simp only [processLines, hparse, hacc, hadd] at hp
          exact hsame _ p rfl hp
      | some s₁ =>
        rw [hadd] at hcopy
        obtain ⟨buf₁, hbuf₁, hs₁⟩ := hcopy
        obtain ⟨hlt₁, hle₁⟩ := length_addPayhash hadd hlt
        cases hlookup : lookupNode env zeroCirc hop.fingerprint with
        | error reply =>
          refine ⟨s₁, ?_, fun acc p hacc hp => ?_⟩
          · simp only [copyLines, hparse, hbuf₁, hlookup]
            exact hs₁
          · simp only [processLines, hparse, hacc, hadd, hlookup] at hp
            exact absurd hp (by simp)
        | ok node =>
          obtain ⟨s', hs', hsame⟩ := ih hs₁ hlt₁ hrest (by omega)
          refine ⟨s', ?_, fun acc p hacc hp => ?_⟩
          · simp only [copyLines, hparse, hbuf₁, hlookup]
            exact hs'
          · simp only [processLines, hparse, hacc, hadd, hlookup] at hp
            exact hsame _ p rfl hp

theorem copyLines_zero {buf : Buffer} (h : Holds size [] buf) (hm : m < 2 ^ 64)
    (hlines : ∀ line ∈ lines, 0 ∉ line ∧ line.length ≤ m) :
    copyLines env zeroCirc 0 lines buf = buf := by
  induction lines with
  | nil => rfl
  | cons line lines ih =>
    have hrest := ih fun line' hline' => hlines line' (List.mem_cons_of_mem _ hline')
    cases hparse : parseHopLine line with
    | none =>
      simp only [copyLines, hparse]
      exact hrest
    | some hop =>
      obtain ⟨h0, hlen⟩ := hlines line List.mem_cons_self
      have hplen := (payhash_of_parseHopLine hparse h0).2
      simp only [copyLines, hparse, copyPayhash_zero h (show hop.payhash.length < 2 ^ 64 by omega)]
      cases lookupNode env zeroCirc hop.fingerprint with
      | error reply => rfl
      | ok node => exact hrest

theorem holds_mallocZero (hpos : 0 < size) : Holds size [] (mallocZero size) := by
  obtain ⟨n, rfl⟩ : ∃ n, size = n + 1 := ⟨size - 1, by omega⟩
  exact ⟨by simp, ⟨List.replicate n 0, by simp [mallocZero, List.replicate_succ]⟩,
    List.length_replicate, fun i hi => absurd hi (by simp [mallocZero])⟩

end Lines

/-! ### A whole body -/

theorem le_foldl_max (l : List ℕ) (a : ℕ) : a ≤ l.foldl max a ∧ ∀ x ∈ l, x ≤ l.foldl max a := by
  induction l generalizing a with
  | nil => exact ⟨le_refl _, fun x hx => absurd hx (by simp)⟩
  | cons b l ih =>
    obtain ⟨hstart, hall⟩ := ih (max a b)
    refine ⟨(le_max_left a b).trans hstart, fun x hx => ?_⟩
    obtain rfl | hx := List.mem_cons.mp hx
    · exact (le_max_right a x).trans hstart
    · exact hall x hx

theorem foldl_max_le {l : List ℕ} {a bound : ℕ} (ha : a ≤ bound) (hl : ∀ x ∈ l, x ≤ bound) :
    l.foldl max a ≤ bound := by
  induction l generalizing a with
  | nil => exact ha
  | cons b l ih =>
    exact ih (max_le ha (hl b List.mem_cons_self)) fun x hx => hl x (List.mem_cons_of_mem _ hx)

abbrev uint32Max : ℕ := 2 ^ 32 - 1

theorem cmddataLines_bounds {cmddata : Bytes} (h : cmddata.length < uint32Max) :
    (cmddataLines cmddata).length < uint32Max ∧
      ∀ line ∈ cmddataLines cmddata, 0 ∉ line ∧ line.length < uint32Max := by
  have hcstr : (cstr cmddata).length ≤ cmddata.length := (List.takeWhile_prefix _).length_le
  refine ⟨?_, fun line hline => ⟨fun h0 => ?_, ?_⟩⟩
  · exact ((length_splitString_le 10 _).trans hcstr).trans_lt h
  · exact nonzero_cstr cmddata (mem_of_mem_splitString hline h0)
  · exact (((mem_splitString hline).2.2.2).trans hcstr).trans_lt h

theorem allocatedSize_eq {lines : List Bytes} (hn : lines.length < uint32Max)
    (hlen : ∀ line ∈ lines, line.length < uint32Max) :
    ∃ m < uint32Max, (∀ line ∈ lines, line.length ≤ m) ∧
      allocatedSize lines = (m + 1) * lines.length + 1 := by
  have hle := (le_foldl_max (lines.map List.length) 0).2
  have hm : (lines.map List.length).foldl max 0 ≤ uint32Max - 1 := by
    refine foldl_max_le (Nat.zero_le _) fun x hx => ?_
    obtain ⟨line, hline, rfl⟩ := List.mem_map.mp hx
    exact Nat.le_sub_one_of_lt (hlen line hline)
  have hproduct : ((lines.map List.length).foldl max 0 + 1) * lines.length ≤
      uint32Max * uint32Max := Nat.mul_le_mul (by omega) hn.le
  refine ⟨(lines.map List.length).foldl max 0, by omega,
    fun line hline => hle _ (List.mem_map_of_mem hline), ?_⟩
  have hmax : uint32Max * uint32Max < 2 ^ 64 - 1 := by decide
  have hstored : u64 ((((lines.map List.length).foldl max 0 + 1) * lines.length + 1 : ℕ) : ℤ) =
      ((lines.map List.length).foldl max 0 + 1) * lines.length + 1 :=
    wrap_natCast (by omega)
  rw [← hstored]
  unfold allocatedSize
  push_cast
  rfl

theorem fillPayhashes_holds (env : Env Node Info) (zeroCirc : Bool) {cmddata : Bytes}
    (h : cmddata.length < uint32Max) :
    ∃ s, Holds (allocatedSize (cmddataLines cmddata)) s
        (fillPayhashes env zeroCirc (cmddataLines cmddata)) ∧
      (0 < loopBufferSize (cmddataLines cmddata) → ∀ p,
        processLines env zeroCirc (loopBufferSize (cmddataLines cmddata)) (cmddataLines cmddata)
          ⟨[], [], []⟩ = .ok p → p.payhashes = s) := by
  obtain ⟨hn, hlines⟩ := cmddataLines_bounds h
  obtain ⟨m, hm, hmle, hsize⟩ := allocatedSize_eq hn fun line hline => (hlines line hline).2
  have hinit : Holds (allocatedSize (cmddataLines cmddata)) []
      (mallocZero (allocatedSize (cmddataLines cmddata))) :=
    holds_mallocZero (by rw [hsize]; exact Nat.succ_pos _)
  have hbounds : ∀ line ∈ cmddataLines cmddata, 0 ∉ line ∧ line.length ≤ m :=
    fun line hline => ⟨(hlines line hline).1, hmle line hline⟩
  unfold fillPayhashes
  by_cases hzero : loopBufferSize (cmddataLines cmddata) = 0
  · refine ⟨[], ?_, fun hpos => absurd hzero hpos.ne'⟩
    have hmax : uint32Max < 2 ^ 64 := by decide
    rw [hzero, copyLines_zero hinit (hm.trans hmax) hbounds]
    exact hinit
  · have hpos : 0 < loopBufferSize (cmddataLines cmddata) := Nat.pos_of_ne_zero hzero
    have hroom : ([] : Bytes).length + (cmddataLines cmddata).length * (m + 1) <
        allocatedSize (cmddataLines cmddata) := by
      rw [hsize, List.length_nil, Nat.zero_add, Nat.mul_comm]
      exact Nat.lt_succ_self _
    obtain ⟨s, hs, hsame⟩ := copyLines_holds env zeroCirc hinit hpos
      (wrap_lt 64 _) hbounds hroom
    exact ⟨s, hs, fun _ p hp => hsame _ p rfl hp⟩

theorem loopBufferSize_eq {lines : List Bytes} (h : lines.length < 2 ^ 21) :
    loopBufferSize lines = bufferSize lines := by
  have hsmall : int32 ((lines.length : ℤ) * 1024) = ((lines.length * 1024 : ℕ) : ℤ) := by
    unfold int32
    rw [Int.bmod_eq_of_le (by omega) (by omega)]
    push_cast
    rfl
  unfold loopBufferSize bufferSize
  rw [hsmall]
  exact wrap_natCast (by omega)

/-- **The buffer holds the payloads**: its string is that of the parsed hops, if no line fails. -/
theorem fillPayhashes_string (env : Env Node Info) (zeroCirc : Bool) {cmddata : Bytes}
    {p : Parsed Node} (h : (cmddataLines cmddata).length < 2 ^ 21)
    (hlen : cmddata.length < uint32Max) (hne : cmddataLines cmddata ≠ [])
    (hp : processLines env zeroCirc (bufferSize (cmddataLines cmddata)) (cmddataLines cmddata)
      ⟨[], [], []⟩ = .ok p) :
    cstr (fillPayhashes env zeroCirc (cmddataLines cmddata)).bytes = p.payhashes := by
  obtain ⟨s, hs, hsame⟩ := fillPayhashes_holds env zeroCirc hlen
  have htwo := two_le_bufferSize hne
  rw [loopBufferSize_eq h] at hsame
  obtain rfl := hsame (by omega) p hp
  obtain ⟨rest, hrest⟩ := hs.bytes
  rw [hrest, cstr_append hs.nonzero]

/-- Every byte is written inside of what was allocated: payloads, newlines and NULs. -/
theorem fillPayhashes_written (env : Env Node Info) (zeroCirc : Bool) {cmddata : Bytes}
    (h : cmddata.length < uint32Max) :
    ∀ i ∈ (fillPayhashes env zeroCirc (cmddataLines cmddata)).written,
      i < allocatedSize (cmddataLines cmddata) := by
  obtain ⟨s, hs, -⟩ := fillPayhashes_holds env zeroCirc h
  exact hs.written

def noRouters : Env ℕ ℕ where
  nodeGetByNickname _ := none
  nodeHasPreferredDescriptor _ _ := false
  extendInfoFromNode _ _ := none
  firstHop := .connectFailed
  skin := ⟨false, false, false, false, .never, false⟩

/-- A router and the shortest payload, 128 bytes and the NUL behind them. -/
theorem fillPayhashes_written_one :
    allocatedSize (cmddataLines (ascii "A " ++ List.replicate 128 120)) = 132 ∧
      (fillPayhashes noRouters true
        (cmddataLines (ascii "A " ++ List.replicate 128 120))).written.length = 129 ∧
      ∀ i ∈ (fillPayhashes noRouters true
        (cmddataLines (ascii "A " ++ List.replicate 128 120))).written,
        i < allocatedSize (cmddataLines (ascii "A " ++ List.replicate 128 120)) :=
  ⟨by decide +kernel, by decide +kernel, fillPayhashes_written noRouters true (by decide +kernel)⟩

def anyRouter : Env ℕ ℕ :=
  { noRouters with
    nodeGetByNickname := fun _ => some 0, nodeHasPreferredDescriptor := fun _ _ => true }

def hopBody : Bytes := ascii "A " ++ List.replicate 128 120

theorem fillPayhashes_string_one :
    cstr (fillPayhashes anyRouter true (cmddataLines hopBody)).bytes = List.replicate 128 120 := by
  have hpay : (processLines anyRouter true (bufferSize (cmddataLines hopBody)) (cmddataLines hopBody)
      ⟨[], [], []⟩).toOption.map Parsed.payhashes = some (List.replicate 128 120) := by
    decide +kernel
  cases hrun : processLines anyRouter true (bufferSize (cmddataLines hopBody)) (cmddataLines hopBody)
      ⟨[], [], []⟩ with
  | error reply => simp [hrun, Except.toOption] at hpay
  | ok p =>
    rw [hrun] at hpay
    exact (fillPayhashes_string anyRouter true (by decide +kernel) (by decide +kernel)
      (by decide +kernel) hrun).trans (Option.some.inj hpay)

end ExtendPaidCircuit
