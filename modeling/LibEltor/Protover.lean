/-
Lists of protocol versions (`core/or/protover.c`): the text form and its parser.

An entry is a name, an equals sign and ranges with commas between them; its versions are the bits
of a 64-bit mask.  The encoder takes the mask apart into its runs, the parser puts a mask for each
range into the result.
-/
import Mathlib
import LibEltor.Consdiff
import LibEltor.Smartlist

open Bytes Consdiff Smartlist

namespace Protover

def ulongMax : ℕ := 2 ^ 64 - 1

def torParseUlong (s : Bytes) (min max : ℕ) : Option (ℕ × Bytes) :=
  let s := s.dropWhile torIsspace
  let digits := if s.head? = some 45 ∨ s.head? = some 43 then s.tail else s
  let value := valueOf (digits.takeWhile torIsdigit)
  if digits.takeWhile torIsdigit = [] ∨ value > ulongMax then none
  else
    let r := if s.head? = some 45 then (2 ^ 64 - value) % 2 ^ 64 else value
    if r < min ∨ r > max then none else some (r, digits.dropWhile torIsdigit)

/-! ### Parsing -/

def maxProtocolVersion : ℕ := 63

def maxProtocolNameLength : ℕ := 100

structure ProtoEntry where
  name : Bytes
  bitmask : BitVec 64
  deriving DecidableEq

/-- A pointer into a string is what stands from it on, so a pointer is behind another one if less
stands from it on. -/
def parseVersionRange (s endOfRange : Bytes) : Option (ℕ × ℕ) :=
  if torIsdigit (s.headD 0) then
    match torParseUlong s 0 maxProtocolVersion with
    | none => none
    | some (low, next) =>
      if next.length < endOfRange.length then none
      else if next.length = endOfRange.length then some (low, low)
      else if next.headD 0 ≠ 45 then none
      else if torIsdigit (next.tail.headD 0) then
        match torParseUlong next.tail 0 maxProtocolVersion with
        | none => none
        | some (high, next) =>
          if next.length ≠ endOfRange.length then none
          else if low > high then none
          else some (low, high)
      else none
  else none

def torIsalnum (c : UInt8) : Bool :=
  torIsdigit c || decide (65 ≤ c ∧ c ≤ 90) || decide (97 ≤ c ∧ c ≤ 122)

def isValidKeyword (s : Bytes) : Bool := s.all fun c => torIsalnum c || c == 45

def bitmaskForRange (low high : ℕ) : BitVec 64 :=
  (((~~~ 0 : BitVec 64) <<< (63 - high)) >>> (63 - high + low)) <<< low

/-- `memchr`: what stands from the first `c` of the first `n` bytes on. -/
def memchr (s : Bytes) (c : UInt8) (n : ℕ) : Option Bytes :=
  let i := (s.takeWhile (· ≠ c)).length
  if i < n ∧ i < s.length then some (s.drop i) else none

theorem parseVersionRange_head {s e : Bytes} {r : ℕ × ℕ} (h : parseVersionRange s e = some r) :
    torIsdigit (s.headD 0) = true := by
  unfold parseVersionRange at h
  split_ifs at h with hdigit
  exact hdigit

theorem length_memchr {s rest : Bytes} {c : UInt8} {n : ℕ} (h : memchr s c n = some rest) :
    rest.length ≤ s.length ∧ s.length < rest.length + n ∧
      (s.headD 0 ≠ c → rest.length < s.length) := by
  unfold memchr at h
  simp only at h
  split_ifs at h with hi
  obtain rfl := Option.some.inj h
  rw [List.length_drop]
  refine ⟨Nat.sub_le _ _, by omega, fun hhead => ?_⟩
  have hpos : 0 < (s.takeWhile (· ≠ c)).length := by
    cases s with
    | nil => exact absurd hi.2 (Nat.not_lt_zero _)
    | cons b s =>
      rw [List.takeWhile_cons_of_pos (by simpa using hhead)]
      exact Nat.succ_pos _
  omega

def rangeEnd (s endOfEntry : Bytes) : Bytes :=
  (memchr s 44 (s.length - endOfEntry.length)).getD endOfEntry

def skipComma (comma endOfEntry : Bytes) : Bytes :=
  if endOfEntry.length + 1 < comma.length then comma.tail else comma

theorem length_skipComma_le (comma endOfEntry : Bytes) :
    (skipComma comma endOfEntry).length ≤ comma.length := by
  unfold skipComma
  split_ifs
  · rw [List.length_tail]
    exact Nat.sub_le _ _
  · exact le_refl _

theorem length_rangeEnd_lt {s e : Bytes} {r : ℕ × ℕ} (hlt : e.length < s.length)
    (h : parseVersionRange s (rangeEnd s e) = some r) : (rangeEnd s e).length < s.length := by
  have hhead : s.headD 0 ≠ 44 := by
    intro hcomma
    have hdigit := parseVersionRange_head h
    rw [hcomma] at hdigit
    exact absurd hdigit (by decide)
  unfold rangeEnd
  cases hfind : memchr s 44 (s.length - e.length) with
  | none => exact hlt
  | some rest => exact (length_memchr hfind).2.2 hhead

def parseRanges (s endOfEntry : Bytes) (mask : BitVec 64) : Option (BitVec 64) :=
  if _ : s.length ≤ endOfEntry.length then some mask
  else
    match _ : parseVersionRange s (rangeEnd s endOfEntry) with
    | none => none
    | some (low, high) =>
      parseRanges (skipComma (rangeEnd s endOfEntry) endOfEntry) endOfEntry
        (mask ||| bitmaskForRange low high)
termination_by s.length
decreasing_by
  have hlt := length_rangeEnd_lt (Nat.lt_of_not_le ‹_›) ‹_›
  have hle := length_skipComma_le (rangeEnd s endOfEntry) endOfEntry
  omega

def parseSingleEntry (s endOfEntry : Bytes) : Option ProtoEntry :=
  match memchr s 61 (s.length - endOfEntry.length) with
  | none => none
  | some equals =>
    let name := s.take (s.length - equals.length)
    if name = [] then none
    else if name.length > maxProtocolNameLength then none
    else if isValidKeyword name = false then none
    else (parseRanges equals.tail endOfEntry 0).map fun mask => ⟨name, mask⟩

theorem parseSingleEntry_length {s e : Bytes} {ent : ProtoEntry}
    (h : parseSingleEntry s e = some ent) : e.length < s.length := by
  unfold parseSingleEntry at h
  split at h
  · cases h
  · next equals hequals =>
    have hlen := length_memchr hequals
    omega

def parseProtocolList (s : Bytes) : Option (List ProtoEntry) :=
  if _ : s = [] then some []
  else
    match _ : parseSingleEntry s (s.dropWhile (· ≠ 32)) with
    | none => none
    | some entry =>
      (parseProtocolList ((s.dropWhile (· ≠ 32)).dropWhile (· = 32))).map (entry :: ·)
termination_by s.length
decreasing_by
  have hlt := parseSingleEntry_length ‹_›
  have hle := (List.dropWhile_suffix (fun c : UInt8 => decide (c = 32))
    (l := s.dropWhile (· ≠ 32))).length_le
  omega

/-! ### Encoding -/

/-- Undefined if `x` is 0. -/
def trailingZeros (x : BitVec 64) : Option ℕ := (List.range 64).find? fun i => x.getLsbD i

theorem trailingZeros_spec {x : BitVec 64} {n : ℕ} (h : trailingZeros x = some n) :
    n < 64 ∧ x.getLsbD n = true ∧ ∀ i < n, x.getLsbD i = false := by
  obtain ⟨hbit, hmem, hfirst⟩ := List.find?_range_eq_some.mp h
  refine ⟨List.mem_range.mp hmem, hbit, fun i hi => ?_⟩
  simpa using hfirst i hi

theorem trailingZeros_isSome {x : BitVec 64} : (trailingZeros x).isSome = true ↔ x ≠ 0 := by
  rw [trailingZeros, List.find?_isSome]
  constructor
  · rintro ⟨i, -, hbit⟩ rfl
    simp at hbit
  · intro hne
    by_contra hnone
    refine hne (BitVec.eq_of_getLsbD_eq fun i hi => ?_)
    have hbit : ¬ x.getLsbD i = true := fun hbit => hnone ⟨i, List.mem_range.mpr hi, hbit⟩
    simpa using hbit

/-- How many ones stand at the low end of `mask`; as in the source, the mask is tested for zero and
not its complement. -/
def countOnes (mask : BitVec 64) : Option ℕ :=
  if mask = 0 then some 64 else trailingZeros (~~~ mask)

theorem lowest_run {mask : BitVec 64} {zeros ones : ℕ} (hzeros : trailingZeros mask = some zeros)
    (hones : countOnes (mask >>> zeros) = some ones) :
    (0 < ones ∧ ones < 64 ∧ zeros + ones ≤ 64) ∧ (∀ i < zeros, mask.getLsbD i = false) ∧
      (∀ i, zeros ≤ i → i < zeros + ones → mask.getLsbD i = true) ∧
      mask.getLsbD (zeros + ones) = false := by
  obtain ⟨hlt, hbit, hlow⟩ := trailingZeros_spec hzeros
  have hne : mask >>> zeros ≠ 0 := by
    intro hzero
    have hfirst : (mask >>> zeros).getLsbD 0 = true := by simpa using hbit
    rw [hzero] at hfirst
    simp at hfirst
  rw [countOnes, if_neg hne] at hones
  obtain ⟨hlt', hbit', hlow'⟩ := trailingZeros_spec hones
  have hset : ∀ i < ones, mask.getLsbD (zeros + i) = true := by
    intro i hi
    have hnot := hlow' i hi
    rw [BitVec.getLsbD_not] at hnot
    simpa [show i < 64 by omega] using hnot
  have hend : mask.getLsbD (zeros + ones) = false := by
    rw [BitVec.getLsbD_not] at hbit'
    simpa [hlt'] using hbit'
  have hpos : 0 < ones := by
    rcases Nat.eq_zero_or_pos ones with rfl | hpos
    · rw [Nat.add_zero, hbit] at hend
      cases hend
    · exact hpos
  refine ⟨⟨hpos, hlt', ?_⟩, hlow, fun i hi hi' => ?_, hend⟩
  · have htop : mask.getLsbD (zeros + (ones - 1)) = true := hset (ones - 1) (by omega)
    have := BitVec.lt_of_getLsbD htop
    omega
  · have := hset (i - zeros) (by omega)
    rwa [Nat.add_sub_cancel' hi] at this

theorem toNat_shift_lt {mask : BitVec 64} {zeros ones : ℕ} (hne : mask ≠ 0) (hones : 0 < ones) :
    (mask >>> zeros >>> ones).toNat < mask.toNat := by
  have hpos : 0 < mask.toNat := by
    refine Nat.pos_of_ne_zero fun hzero => hne ?_
    exact BitVec.eq_of_toNat_eq hzero
  rw [BitVec.toNat_ushiftRight, BitVec.toNat_ushiftRight, Nat.shiftRight_eq_div_pow,
    Nat.shiftRight_eq_div_pow]
  have hle : mask.toNat / 2 ^ zeros ≤ mask.toNat := Nat.div_le_self _ _
  rcases Nat.eq_zero_or_pos (mask.toNat / 2 ^ zeros) with hzero | hpos'
  · rw [hzero, Nat.zero_div]
    exact hpos
  · exact (Nat.div_lt_self hpos' (Nat.one_lt_two_pow hones.ne')).trans_le hle

/-- `U` or `U-U` -/
def rangeText (shift ones : ℕ) : Bytes :=
  if ones = 1 then decimal shift else decimal shift ++ 45 :: decimal (shift + ones - 1)

/-- The loop that writes the runs of a mask; none where `trailing_zeros` is undefined. -/
def encodeRanges (mask : BitVec 64) (shift : ℕ) (first : Bool) : Option Bytes :=
  if _ : mask = 0 then some []
  else
    match _ : trailingZeros mask with
    | none => none
    | some zeros =>
      match _ : countOnes (mask >>> zeros) with
      | none => none
      | some ones =>
        let chunk := (if first then [] else [44]) ++ rangeText (shift + zeros) ones
        if ones = 64 then some chunk
        else
          (encodeRanges (mask >>> zeros >>> ones) (shift + zeros + ones) false).map (chunk ++ ·)
termination_by mask.toNat
decreasing_by
  have hrun := lowest_run ‹_› ‹_›
  exact toNat_shift_lt ‹_› hrun.1.1

def protoEntryEncode (entry : ProtoEntry) : Option Bytes :=
  (encodeRanges entry.bitmask 0 true).map (entry.name ++ 61 :: ·)

def encodeEntries (separator : Bytes) : List ProtoEntry → Option Bytes
  | [] => some []
  | ent :: sl =>
    match protoEntryEncode ent, encodeEntries [32] sl with
    | some chunk, some chunks => some (separator ++ chunk ++ chunks)
    | _, _ => none

def encodeProtocolList (sl : List ProtoEntry) : Option Bytes := encodeEntries [] sl

theorem getLsbD_bitmaskForRange {low high : ℕ} (hle : low ≤ high) (hhigh : high ≤ 63) (i : ℕ) :
    (bitmaskForRange low high).getLsbD i = decide (low ≤ i ∧ i ≤ high) := by
  unfold bitmaskForRange
  simp only [BitVec.getLsbD_shiftLeft, BitVec.getLsbD_ushiftRight, BitVec.getLsbD_not]
  by_cases hi : low ≤ i ∧ i ≤ high
  · simp [hi]
    omega
  · rw [decide_eq_false hi]
    by_cases hlow : i < low
    · simp [hlow]
    · simp
      omega

theorem shiftLeft_eq_run {mask : BitVec 64} {zeros ones shift : ℕ}
    (hzeros : trailingZeros mask = some zeros) (hones : countOnes (mask >>> zeros) = some ones)
    (hfits : shift + zeros + ones ≤ 64) :
    mask <<< shift = bitmaskForRange (shift + zeros) (shift + zeros + ones - 1) |||
      (mask >>> zeros >>> ones) <<< (shift + zeros + ones) := by
  obtain ⟨⟨hpos, -, -⟩, hlow, hset, -⟩ := lowest_run hzeros hones
  refine BitVec.eq_of_getLsbD_eq fun i hi => ?_
  rw [BitVec.getLsbD_or, getLsbD_bitmaskForRange (by omega) (by omega), BitVec.getLsbD_shiftLeft,
    BitVec.getLsbD_shiftLeft, BitVec.getLsbD_ushiftRight, BitVec.getLsbD_ushiftRight]
  by_cases hbelow : i < shift + zeros
  · -- under the run
    have hbit : (decide (i < shift) || !mask.getLsbD (i - shift)) = true := by
      by_cases hs : i < shift
      · simp [hs]
      · simp [hlow (i - shift) (by omega)]
    have hnot : ¬ (shift + zeros ≤ i ∧ i ≤ shift + zeros + ones - 1) := by omega
    have habove : i < shift + zeros + ones := by omega
    rcases Bool.or_eq_true_iff.mp hbit with hs | hs
    · simp [hnot, habove, of_decide_eq_true hs]
    · have hfalse : mask.getLsbD (i - shift) = false := by simpa using hs
      simp [hnot, habove, hfalse]
  · by_cases hrun : i < shift + zeros + ones
    · have hin : shift + zeros ≤ i ∧ i ≤ shift + zeros + ones - 1 := by omega
      have hs : ¬ i < shift := by omega
      simp [hi, hin, hs, hset (i - shift) (by omega) (by omega)]
    · have hnot : ¬ (shift + zeros ≤ i ∧ i ≤ shift + zeros + ones - 1) := by omega
      have hs : ¬ i < shift := by omega
      have hsum : zeros + (ones + (i - (shift + zeros + ones))) = i - shift := by omega
      simp [hi, hnot, hs, hrun, hsum]

theorem encodeRanges_run {mask : BitVec 64} {zeros ones : ℕ} (shift : ℕ) (first : Bool)
    (hne : mask ≠ 0) (hzeros : trailingZeros mask = some zeros)
    (hones : countOnes (mask >>> zeros) = some ones) :
    encodeRanges mask shift first =
      (encodeRanges (mask >>> zeros >>> ones) (shift + zeros + ones) false).map
        ((if first then [] else [44]) ++ rangeText (shift + zeros) ones ++ ·) := by
  obtain ⟨⟨-, hlt, -⟩, -⟩ := lowest_run hzeros hones
  rw [encodeRanges, dif_neg hne]
  split
  · next hnone => rw [hzeros] at hnone; cases hnone
  · next z hz =>
    obtain rfl := Option.some.inj (hzeros.symm.trans hz)
    split
    · next hnone => rw [hones] at hnone; cases hnone
    · next o ho =>
      obtain rfl := Option.some.inj (hones.symm.trans ho)
      rw [if_neg (by omega)]

theorem trailingZeros_allOnes : trailingZeros (BitVec.allOnes 64) = some 0 := by
  rw [trailingZeros, List.find?_range_eq_some]
  simp

theorem countOnes_eq_none {mask : BitVec 64} {zeros : ℕ} (hzeros : trailingZeros mask = some zeros) :
    countOnes (mask >>> zeros) = none ↔ mask = BitVec.allOnes 64 := by
  obtain ⟨hlt, hbit, -⟩ := trailingZeros_spec hzeros
  have hfirst : (mask >>> zeros).getLsbD 0 = true := by simpa using hbit
  have hne : mask >>> zeros ≠ 0 := by
    intro hzero
    rw [hzero] at hfirst
    simp at hfirst
  rw [countOnes, if_neg hne, ← Option.not_isSome_iff_eq_none, trailingZeros_isSome, not_not]
  constructor
  · intro hnot
    have hall : mask >>> zeros = BitVec.allOnes 64 := by
      have hcompl := congrArg (fun b : BitVec 64 => ~~~ b) hnot
      rw [BitVec.not_not] at hcompl
      exact hcompl.trans BitVec.not_zero
    have htop : (mask >>> zeros).getLsbD 63 = true := by rw [hall]; simp
    rw [BitVec.getLsbD_ushiftRight] at htop
    have hzero : zeros = 0 := by
      have := BitVec.lt_of_getLsbD htop
      omega
    rwa [hzero, BitVec.ushiftRight_zero] at hall
  · rintro rfl
    rw [trailingZeros_allOnes] at hzeros
    obtain rfl := Option.some.inj hzeros
    rw [BitVec.ushiftRight_zero]
    exact BitVec.not_allOnes

theorem encodeRanges_isSome_iff (mask : BitVec 64) (shift : ℕ) (first : Bool) :
    (encodeRanges mask shift first).isSome = true ↔ mask ≠ BitVec.allOnes 64 := by
  induction mask, shift, first using encodeRanges.induct with
  | case1 shift first =>
    rw [encodeRanges, dif_pos rfl]
    simp
  | case2 mask shift first hne hnone =>
    rw [← Option.not_isSome_iff_eq_none, trailingZeros_isSome] at hnone
    exact absurd hne hnone
  | case3 mask shift first hne zeros hzeros hnone =>
    have hall := (countOnes_eq_none hzeros).mp hnone
    rw [encodeRanges, dif_neg hne]
    split
    · simp [hall]
    · next z hz =>
      obtain rfl := Option.some.inj (hzeros.symm.trans hz)
      split
      · simp [hall]
      · next o ho => rw [hnone] at ho; cases ho
  | case4 mask shift first hne zeros hzeros hones =>
    obtain ⟨⟨-, hlt, -⟩, -⟩ := lowest_run hzeros hones
    exact absurd hlt (lt_irrefl 64)
  | case5 mask shift first hne zeros hzeros ones hones hlt ih =>
    obtain ⟨⟨hpos, -, -⟩, -⟩ := lowest_run hzeros hones
    rw [encodeRanges_run shift first hne hzeros hones, Option.isSome_map, ih]
    refine iff_of_true ?_ ?_
    · -- a zero was shifted in at the top
      intro hall
      have htop : (mask >>> zeros >>> ones).getLsbD 63 = true := by rw [hall]; simp
      rw [BitVec.getLsbD_ushiftRight, BitVec.getLsbD_ushiftRight] at htop
      have := BitVec.lt_of_getLsbD htop
      omega
    · intro hall
      rw [(countOnes_eq_none hzeros).mpr hall] at hones
      cases hones

/-! ### Reading what was written -/

theorem torIsspace_of_isdigit {c : UInt8} (h : torIsdigit c = true) : torIsspace c = false := by
  simp only [torIsdigit, decide_eq_true_eq, UInt8.le_iff_toNat_le] at h
  have h48 : (48 : UInt8).toNat = 48 := rfl
  have h57 : (57 : UInt8).toNat = 57 := rfl
  rw [h48, h57] at h
  have h13 : ¬ c ≤ 13 := by
    rw [UInt8.le_iff_toNat_le]
    have : (13 : UInt8).toNat = 13 := rfl
    omega
  have h32 : c ≠ 32 := by
    rintro rfl
    exact absurd h (by decide)
  simp [torIsspace, h13, h32]

def StartsNumber (text : Bytes) : Prop := ∃ c t, text = c :: t ∧ torIsdigit c = true

theorem startsNumber_decimal (n : ℕ) : StartsNumber (decimal n) := by
  obtain ⟨hne, hdigits, -⟩ := decimal_spec n
  obtain ⟨c, t, hct⟩ := List.exists_cons_of_ne_nil hne
  exact ⟨c, t, hct, hdigits c (hct ▸ List.mem_cons_self)⟩

theorem StartsNumber.append {text : Bytes} (h : StartsNumber text) (rest : Bytes) :
    StartsNumber (text ++ rest) := by
  obtain ⟨c, t, rfl, hc⟩ := h
  exact ⟨c, t ++ rest, rfl, hc⟩

theorem StartsNumber.headD {text : Bytes} (h : StartsNumber text) :
    torIsdigit (text.headD 0) = true := by
  obtain ⟨c, t, rfl, hc⟩ := h
  exact hc

theorem takeWhile_digits {digits e : Bytes} (hdigits : ∀ c ∈ digits, torIsdigit c = true)
    (he : torIsdigit (e.headD 0) = false) :
    (digits ++ e).takeWhile torIsdigit = digits ∧ (digits ++ e).dropWhile torIsdigit = e := by
  rw [List.takeWhile_append_of_pos hdigits, List.dropWhile_append_of_pos hdigits]
  cases e with
  | nil => simp
  | cons c e =>
    have hc : ¬ torIsdigit c = true := by simpa using he
    rw [List.takeWhile_cons_of_neg hc, List.dropWhile_cons_of_neg hc, List.append_nil]
    exact ⟨rfl, rfl⟩

theorem space_notMem_decimal (n : ℕ) : (32 : UInt8) ∉ decimal n := by
  intro h
  exact absurd ((decimal_spec n).2.1 32 h) (by decide)

theorem trimmed_decimal (n : ℕ) : Trimmed (decimal n) :=
  trimmed_of_forall (decimal_spec n).1 fun c hc => torIsspace_of_isdigit ((decimal_spec n).2.1 c hc)

theorem torParseUlong_decimal {n min max : ℕ} (hmin : min ≤ n) (hn : n ≤ max) (hmax : max ≤ ulongMax)
    {e : Bytes} (he : torIsdigit (e.headD 0) = false) :
    torParseUlong (decimal n ++ e) min max = some (n, e) := by
  obtain ⟨hne, hdigits, hvalue⟩ := decimal_spec n
  obtain ⟨htake, hdrop⟩ := takeWhile_digits hdigits he
  obtain ⟨c, t, hct, hc⟩ := startsNumber_decimal n
  have hspace : (decimal n ++ e).dropWhile torIsspace = decimal n ++ e := by
    rw [hct, List.cons_append, List.dropWhile_cons_of_neg (by simp [torIsspace_of_isdigit hc])]
  have hhead : (decimal n ++ e).head? = some c := by rw [hct]; rfl
  have h45 : ¬ some c = some 45 := fun h => absurd (Option.some.inj h ▸ hc) (by decide)
  have h43 : ¬ some c = some 43 := fun h => absurd (Option.some.inj h ▸ hc) (by decide)
  unfold torParseUlong
  simp only [hspace, hhead, h45, h43, or_self, if_false, htake, hdrop, hvalue]
  rw [if_neg (by simp only [hne, false_or]; omega), if_neg (by omega)]

theorem parseVersionRange_rangeText {shift ones : ℕ} (hpos : 0 < ones) (hfits : shift + ones ≤ 64)
    {e : Bytes} (he : torIsdigit (e.headD 0) = false) :
    parseVersionRange (rangeText shift ones ++ e) e = some (shift, shift + ones - 1) := by
  have hmax : maxProtocolVersion ≤ ulongMax := by decide
  unfold rangeText parseVersionRange
  split_ifs with hone hhead hhead
  · rw [torParseUlong_decimal (Nat.zero_le _) (by unfold maxProtocolVersion; omega) hmax he]
    simp [hone]
  · exact absurd ((startsNumber_decimal shift).append e).headD hhead
  · have hdash : torIsdigit ((45 :: (decimal (shift + ones - 1) ++ e)).headD 0) = false := rfl
    have hlen : ¬ (45 :: (decimal (shift + ones - 1) ++ e)).length < e.length := by
      rw [List.length_cons, List.length_append]
      omega
    have hlen' : (45 :: (decimal (shift + ones - 1) ++ e)).length ≠ e.length := by
      rw [List.length_cons, List.length_append]
      omega
    have hnum := ((startsNumber_decimal (shift + ones - 1)).append e).headD
    rw [List.append_assoc, List.cons_append,
      torParseUlong_decimal (Nat.zero_le _) (by unfold maxProtocolVersion; omega) hmax hdash]
    simp only [hlen, hlen', if_false, List.headD_cons, List.tail_cons, hnum, if_true, ne_eq,
      not_true_eq_false]
    rw [torParseUlong_decimal (Nat.zero_le _) (by unfold maxProtocolVersion; omega) hmax he]
    simp only [not_true_eq_false, if_false]
    rw [if_neg (by omega)]
  · rw [List.append_assoc] at hhead
    exact absurd ((startsNumber_decimal shift).append _).headD hhead

theorem mem_rangeText {shift ones : ℕ} {c : UInt8} (h : c ∈ rangeText shift ones) :
    torIsdigit c = true ∨ c = 45 := by
  have hdecimal := fun n => (decimal_spec n).2.1 c
  unfold rangeText at h
  split_ifs at h
  · exact .inl (hdecimal _ h)
  · rcases List.mem_append.mp h with h | h
    · exact .inl (hdecimal _ h)
    · rcases List.mem_cons.mp h with h | h
      · exact .inr h
      · exact .inl (hdecimal _ h)

theorem startsNumber_rangeText (shift ones : ℕ) : StartsNumber (rangeText shift ones) := by
  unfold rangeText
  split_ifs
  · exact startsNumber_decimal shift
  · exact (startsNumber_decimal shift).append _

theorem comma_notMem_rangeText (shift ones : ℕ) : (44 : UInt8) ∉ rangeText shift ones := by
  intro h
  rcases mem_rangeText h with h | h
  · exact absurd h (by decide)
  · exact absurd h (by decide)

theorem takeWhile_ne_length {c : UInt8} {w : Bytes} (hw : c ∉ w) (t : Bytes) :
    ((w ++ t).takeWhile (· ≠ c)).length = w.length + (t.takeWhile (· ≠ c)).length := by
  have hall : ∀ b ∈ w, decide (b ≠ c) = true := fun b hb => decide_eq_true fun h => hw (h ▸ hb)
  rw [List.takeWhile_append_of_pos hall, List.length_append]

theorem memchr_found {c : UInt8} {w t : Bytes} {n : ℕ} (hw : c ∉ w) (hn : w.length < n) :
    memchr (w ++ c :: t) c n = some (c :: t) := by
  have hlen := takeWhile_ne_length hw (c :: t)
  rw [List.takeWhile_cons_of_neg (by simp), List.length_nil, Nat.add_zero] at hlen
  unfold memchr
  simp only [hlen]
  rw [if_pos ⟨hn, by simp⟩, List.drop_left]

theorem memchr_none {c : UInt8} {w : Bytes} (hw : c ∉ w) (e : Bytes) :
    memchr (w ++ e) c w.length = none := by
  have hlen := takeWhile_ne_length hw e
  unfold memchr
  simp only [hlen]
  rw [if_neg (by omega)]

theorem parseRanges_last {shift ones : ℕ} (hpos : 0 < ones) (hfits : shift + ones ≤ 64) {e : Bytes}
    (he : torIsdigit (e.headD 0) = false) (m : BitVec 64) :
    parseRanges (rangeText shift ones ++ e) e m =
      some (m ||| bitmaskForRange shift (shift + ones - 1)) := by
  obtain ⟨c, t, hct, -⟩ := startsNumber_rangeText shift ones
  have hlong : ¬ (rangeText shift ones ++ e).length ≤ e.length := by
    rw [hct, List.length_append, List.length_cons]
    omega
  have hend : rangeEnd (rangeText shift ones ++ e) e = e := by
    rw [rangeEnd, List.length_append, Nat.add_sub_cancel,
      memchr_none (comma_notMem_rangeText shift ones), Option.getD_none]
  have hread := parseVersionRange_rangeText hpos hfits he
  rw [parseRanges, dif_neg hlong, hend]
  split
  · next hnone => rw [hread] at hnone; cases hnone
  · next low high hsome =>
    obtain ⟨rfl, rfl⟩ := Prod.mk.inj (Option.some.inj (hread.symm.trans hsome))
    have hskip : skipComma e e = e := if_neg (by omega)
    rw [hskip, parseRanges, dif_pos (le_refl _)]

theorem parseRanges_cons {shift ones : ℕ} (hpos : 0 < ones) (hfits : shift + ones ≤ 64)
    {t : Bytes} (ht : t ≠ []) (e : Bytes) (m : BitVec 64) :
    parseRanges (rangeText shift ones ++ 44 :: t ++ e) e m =
      parseRanges (t ++ e) e (m ||| bitmaskForRange shift (shift + ones - 1)) := by
  have hassoc : rangeText shift ones ++ 44 :: t ++ e = rangeText shift ones ++ 44 :: (t ++ e) := by
    rw [List.append_assoc, List.cons_append]
  have hlen : 0 < t.length := List.length_pos_iff.mpr ht
  have hlong : ¬ (rangeText shift ones ++ 44 :: (t ++ e)).length ≤ e.length := by
    simp only [List.length_append, List.length_cons]
    omega
  have hend : rangeEnd (rangeText shift ones ++ 44 :: (t ++ e)) e = 44 :: (t ++ e) := by
    rw [rangeEnd, memchr_found (comma_notMem_rangeText shift ones), Option.getD_some]
    simp only [List.length_append, List.length_cons]
    omega
  have hread := parseVersionRange_rangeText hpos hfits
    (show torIsdigit ((44 :: (t ++ e)).headD 0) = false from rfl)
  rw [hassoc, parseRanges, dif_neg hlong, hend]
  split
  · next hnone => rw [hread] at hnone; cases hnone
  · next low high hsome =>
    obtain ⟨rfl, rfl⟩ := Prod.mk.inj (Option.some.inj (hread.symm.trans hsome))
    have hskip : skipComma (44 :: (t ++ e)) e = t ++ e := by
      refine if_pos ?_
      rw [List.length_cons, List.length_append]
      omega
    rw [hskip]

theorem parseRanges_encodeRanges (mask : BitVec 64) (shift : ℕ) (first : Bool) {out : Bytes}
    (hout : encodeRanges mask shift first = some out) (hne : mask ≠ 0)
    (hfits : ∀ i, mask.getLsbD i = true → shift + i < 64) :
    ∃ text, out = (if first then [] else [44]) ++ text ∧ text ≠ [] ∧
      (∀ c ∈ text, torIsdigit c = true ∨ c = 45 ∨ c = 44) ∧
      ∀ e : Bytes, torIsdigit (e.headD 0) = false → ∀ m : BitVec 64,
        parseRanges (text ++ e) e m = some (m ||| mask <<< shift) := by
  induction mask, shift, first using encodeRanges.induct generalizing out with
  | case1 => exact absurd rfl hne
  | case2 mask shift first _ hnone =>
    rw [← Option.not_isSome_iff_eq_none, trailingZeros_isSome] at hnone
    exact absurd hne hnone
  | case3 mask shift first _ zeros hzeros hnone =>
    have hall := (countOnes_eq_none hzeros).mp hnone
    have hdefined := (encodeRanges_isSome_iff mask shift first).mp (by rw [hout]; rfl)
    exact absurd hall hdefined
  | case4 mask shift first _ zeros hzeros hones =>
    obtain ⟨⟨-, hlt, -⟩, -⟩ := lowest_run hzeros hones
    exact absurd hlt (lt_irrefl 64)
  | case5 mask shift first _ zeros hzeros ones hones _ ih =>
    obtain ⟨⟨hpos, -, -⟩, -, hset, -⟩ := lowest_run hzeros hones
    have hroom : shift + zeros + ones ≤ 64 := by
      have := hfits (zeros + ones - 1) (hset _ (by omega) (by omega))
      omega
    have hmask := shiftLeft_eq_run hzeros hones hroom
    rw [encodeRanges_run shift first hne hzeros hones] at hout
    obtain ⟨rest, hrest, rfl⟩ := Option.map_eq_some_iff.mp hout
    have hstart := startsNumber_rangeText (shift + zeros) ones
    have hnil : rangeText (shift + zeros) ones ≠ [] := by
      obtain ⟨c, t, hct, -⟩ := hstart
      rw [hct]
      exact List.cons_ne_nil c t
    by_cases hlast : mask >>> zeros >>> ones = 0
    · -- this run is the last one
      rw [hlast, encodeRanges, dif_pos rfl] at hrest
      obtain rfl := Option.some.inj hrest
      refine ⟨rangeText (shift + zeros) ones, by rw [List.append_nil], hnil, ?_, fun e he m => ?_⟩
      · intro c hc
        exact (mem_rangeText hc).imp_right .inl
      · rw [parseRanges_last hpos hroom he, hmask, hlast]
        simp
    · have hfits' : ∀ i, (mask >>> zeros >>> ones).getLsbD i = true →
          shift + zeros + ones + i < 64 := by
        intro i hi
        rw [BitVec.getLsbD_ushiftRight, BitVec.getLsbD_ushiftRight] at hi
        have := hfits _ hi
        omega
      obtain ⟨text, rfl, htext, hchars, hparse⟩ := ih hrest hlast hfits'
      refine ⟨rangeText (shift + zeros) ones ++ 44 :: text, ?_, ?_, ?_, fun e he m => ?_⟩
      · rw [List.append_assoc]
        rfl
      · simp
      · intro c hc
        rcases List.mem_append.mp hc with hc | hc
        · exact (mem_rangeText hc).imp_right .inl
        · rcases List.mem_cons.mp hc with hc | hc
          · exact .inr (.inr hc)
          · exact hchars c hc
      · rw [parseRanges_cons hpos hroom htext, hparse e he, hmask, BitVec.or_assoc]

/-! ### Entries -/

structure ValidName (name : Bytes) : Prop where
  ne_nil : name ≠ []
  short : name.length ≤ maxProtocolNameLength
  keyword : isValidKeyword name = true

theorem ValidName.mem {name : Bytes} (h : ValidName name) {c : UInt8} (hc : c ∈ name) :
    torIsalnum c = true ∨ c = 45 := by
  have hall := List.all_eq_true.mp h.keyword c hc
  simpa using hall

theorem ValidName.notMem {name : Bytes} (h : ValidName name) {c : UInt8}
    (hc : torIsalnum c = false) (hdash : c ≠ 45) : c ∉ name := by
  intro hmem
  rcases h.mem hmem with halnum | heq
  · rw [hc] at halnum
    cases halnum
  · exact hdash heq

theorem validName_of_parseSingleEntry {s e : Bytes} {ent : ProtoEntry}
    (h : parseSingleEntry s e = some ent) : ValidName ent.name := by
  unfold parseSingleEntry at h
  split at h
  · cases h
  · simp only at h
    split_ifs at h with hnil hlong hkey
    obtain ⟨mask, -, rfl⟩ := Option.map_eq_some_iff.mp h
    exact ⟨hnil, Nat.le_of_not_lt hlong, by simpa using hkey⟩

theorem validName_of_parse (s : Bytes) {sl : List ProtoEntry} (h : parseProtocolList s = some sl) :
    ∀ ent ∈ sl, ValidName ent.name := by
  induction s using parseProtocolList.induct generalizing sl with
  | case1 =>
    rw [parseProtocolList, dif_pos rfl] at h
    obtain rfl := Option.some.inj h
    exact fun ent hent => absurd hent List.not_mem_nil
  | case2 s hne hnone =>
    rw [parseProtocolList, dif_neg hne] at h
    split at h
    · cases h
    · next entry hsome => rw [hnone] at hsome; cases hsome
  | case3 s hne entry hsome ih =>
    rw [parseProtocolList, dif_neg hne] at h
    split at h
    · cases h
    · next entry' hsome' =>
      obtain ⟨rest, hrest, rfl⟩ := Option.map_eq_some_iff.mp h
      intro ent hent
      rcases List.mem_cons.mp hent with rfl | hent
      · exact validName_of_parseSingleEntry hsome'
      · exact ih hrest ent hent

theorem protoEntryEncode_spec {entry : ProtoEntry} (hname : ValidName entry.name) {chunk : Bytes}
    (h : protoEntryEncode entry = some chunk) :
    (∃ c t, chunk = c :: t ∧ c ≠ 32) ∧ 32 ∉ chunk ∧
      ∀ e : Bytes, torIsdigit (e.headD 0) = false → parseSingleEntry (chunk ++ e) e = some entry := by
  obtain ⟨text, htext, rfl⟩ := Option.map_eq_some_iff.mp h
  have hspace : (32 : UInt8) ∉ entry.name := hname.notMem (by decide) (by decide)
  have hequals : (61 : UInt8) ∉ entry.name := hname.notMem (by decide) (by decide)
  have hranges : 32 ∉ text ∧ ∀ e : Bytes, torIsdigit (e.headD 0) = false →
      parseRanges (text ++ e) e 0 = some entry.bitmask := by
    by_cases hzero : entry.bitmask = 0
    · rw [hzero, encodeRanges, dif_pos rfl] at htext
      obtain rfl := Option.some.inj htext
      refine ⟨List.not_mem_nil, fun e _ => ?_⟩
      rw [List.nil_append, parseRanges, dif_pos (le_refl _), hzero]
    · obtain ⟨text', heq, -, hchars, hparse⟩ := parseRanges_encodeRanges entry.bitmask 0 true htext
        hzero fun i hi => by have := BitVec.lt_of_getLsbD hi; omega
      obtain rfl : text = text' := heq
      refine ⟨fun hmem => ?_, fun e he => ?_⟩
      · rcases hchars 32 hmem with h | h | h
        · exact absurd h (by decide)
        · exact absurd h (by decide)
        · exact absurd h (by decide)
      · rw [hparse e he 0, BitVec.shiftLeft_zero]
        simp
  refine ⟨?_, ?_, fun e he => ?_⟩
  · obtain ⟨c, t, hct⟩ := List.exists_cons_of_ne_nil hname.ne_nil
    refine ⟨c, t ++ 61 :: text, by rw [hct]; rfl, ?_⟩
    rintro rfl
    exact hspace (hct ▸ List.mem_cons_self)
  · intro hmem
    rcases List.mem_append.mp hmem with hmem | hmem
    · exact hspace hmem
    · rcases List.mem_cons.mp hmem with hmem | hmem
      · exact absurd hmem (by decide)
      · exact hranges.1 hmem
  · have hassoc : entry.name ++ 61 :: text ++ e = entry.name ++ 61 :: (text ++ e) := by
      rw [List.append_assoc, List.cons_append]
    have hfind : memchr (entry.name ++ 61 :: (text ++ e)) 61
        ((entry.name ++ 61 :: (text ++ e)).length - e.length) = some (61 :: (text ++ e)) := by
      refine memchr_found hequals ?_
      simp only [List.length_append, List.length_cons]
      omega
    have htake : (entry.name ++ 61 :: (text ++ e)).take
        ((entry.name ++ 61 :: (text ++ e)).length - (61 :: (text ++ e)).length) = entry.name := by
      rw [List.length_append, Nat.add_sub_cancel, List.take_left]
    rw [hassoc, parseSingleEntry, hfind]
    simp only [htake, List.tail_cons]
    rw [if_neg hname.ne_nil, if_neg (Nat.not_lt.mpr hname.short), if_neg (by simp [hname.keyword]),
      hranges.2 e he]
    rfl

theorem protoEntryEncode_isSome_iff (entry : ProtoEntry) :
    (protoEntryEncode entry).isSome = true ↔ entry.bitmask ≠ BitVec.allOnes 64 := by
  rw [protoEntryEncode, Option.isSome_map, encodeRanges_isSome_iff]

/-! ### Lists -/

theorem encodeEntries_isSome_iff (separator : Bytes) (sl : List ProtoEntry) :
    (encodeEntries separator sl).isSome = true ↔
      ∀ ent ∈ sl, ent.bitmask ≠ BitVec.allOnes 64 := by
  induction sl generalizing separator with
  | nil => exact iff_of_true rfl fun ent hent => absurd hent List.not_mem_nil
  | cons ent sl ih =>
    rw [List.forall_mem_cons, ← ih [32], ← protoEntryEncode_isSome_iff, encodeEntries]
    cases protoEntryEncode ent <;> cases encodeEntries [32] sl <;> simp

theorem encodeEntries_cons {separator : Bytes} {ent : ProtoEntry} {sl : List ProtoEntry}
    {out : Bytes} (h : encodeEntries separator (ent :: sl) = some out) :
    ∃ chunk chunks, protoEntryEncode ent = some chunk ∧ encodeEntries [32] sl = some chunks ∧
      out = separator ++ chunk ++ chunks := by
  rw [encodeEntries] at h
  split at h
  · next chunk chunks hchunk hchunks =>
    exact ⟨chunk, chunks, hchunk, hchunks, (Option.some.inj h).symm⟩
  · cases h

theorem encodeEntries_separator {sl : List ProtoEntry} {out : Bytes}
    (h : encodeEntries [32] sl = some out) :
    sl = [] ∧ out = [] ∨ sl ≠ [] ∧ ∃ text, out = 32 :: text ∧ encodeEntries [] sl = some text := by
  cases sl with
  | nil => exact .inl ⟨rfl, (Option.some.inj h).symm⟩
  | cons ent sl =>
    obtain ⟨chunk, chunks, hchunk, hchunks, rfl⟩ := encodeEntries_cons h
    refine .inr ⟨List.cons_ne_nil _ _, chunk ++ chunks, by simp, ?_⟩
    rw [encodeEntries, hchunk, hchunks]
    rfl

theorem parse_encodeEntries {sl : List ProtoEntry} (hnames : ∀ ent ∈ sl, ValidName ent.name)
    {text : Bytes} (h : encodeEntries [] sl = some text) :
    parseProtocolList text = some sl ∧ (sl ≠ [] → ∃ c t, text = c :: t ∧ c ≠ 32) := by
  induction sl generalizing text with
  | nil =>
    obtain rfl := Option.some.inj h
    rw [parseProtocolList, dif_pos rfl]
    exact ⟨rfl, fun hne => absurd rfl hne⟩
  | cons ent sl ih =>
    obtain ⟨hname, hnames⟩ := List.forall_mem_cons.mp hnames
    obtain ⟨chunk, chunks, hchunk, hchunks, rfl⟩ := encodeEntries_cons h
    obtain ⟨⟨c, t, rfl, hc⟩, hspace, hparse⟩ := protoEntryEncode_spec hname hchunk
    refine ⟨?_, fun _ => ⟨c, t ++ chunks, rfl, hc⟩⟩
    have hword : ∀ b ∈ c :: t, decide (b ≠ 32) = true :=
      fun b hb => decide_eq_true fun heq => hspace (heq ▸ hb)
    -- the space, if there is one, ends the entry
    have hrest : chunks.dropWhile (· ≠ 32) = chunks ∧ torIsdigit (chunks.headD 0) = false ∧
        parseProtocolList (chunks.dropWhile (· = 32)) = some sl := by
      rcases encodeEntries_separator hchunks with ⟨rfl, rfl⟩ | ⟨hne, text, rfl, htext⟩
      · refine ⟨rfl, rfl, ?_⟩
        rw [List.dropWhile_nil, parseProtocolList, dif_pos rfl]
      · obtain ⟨hread, hhead⟩ := ih hnames htext
        obtain ⟨d, u, rfl, hd⟩ := hhead hne
        refine ⟨by simp, rfl, ?_⟩
        rw [List.dropWhile_cons_of_pos (by simp), List.dropWhile_cons_of_neg (by simpa using hd)]
        exact hread
    have hend : ([] ++ c :: t ++ chunks).dropWhile (· ≠ 32) = chunks := by
      rw [List.nil_append, List.dropWhile_append_of_pos hword, hrest.1]
    rw [parseProtocolList, dif_neg (by simp), hend]
    have hentry := hparse chunks hrest.2.1
    split
    · next hnone => rw [List.nil_append, hentry] at hnone; cases hnone
    · next entry hsome =>
      rw [List.nil_append, hentry] at hsome
      obtain rfl := Option.some.inj hsome
      rw [hrest.2.2]
      rfl

theorem roundTrip_iff {sl : List ProtoEntry} (hnames : ∀ ent ∈ sl, ValidName ent.name) :
    (∃ text, encodeProtocolList sl = some text ∧ parseProtocolList text = some sl) ↔
      ∀ ent ∈ sl, ent.bitmask ≠ BitVec.allOnes 64 := by
  rw [← encodeEntries_isSome_iff [] sl, Option.isSome_iff_exists]
  constructor
  · rintro ⟨text, htext, -⟩
    exact ⟨text, htext⟩
  · rintro ⟨text, htext⟩
    exact ⟨text, htext, (parse_encodeEntries hnames htext).1⟩

/-- Entries with valid names, and entries that were parsed from some text, are written and read
back, unless one of them has all of the versions 0 to 63. -/
theorem parse_encode_iff (sl : List ProtoEntry)
    (hsl : (∀ ent ∈ sl, ValidName ent.name) ∨ ∃ s, parseProtocolList s = some sl) :
    (∃ text, encodeProtocolList sl = some text ∧ parseProtocolList text = some sl) ↔
      ∀ ent ∈ sl, ent.bitmask ≠ BitVec.allOnes 64 := by
  obtain hnames | ⟨s, hparse⟩ := hsl
  · exact roundTrip_iff hnames
  · exact roundTrip_iff (validName_of_parse s hparse)

theorem link_entry_read_back :
    ∃ text, encodeProtocolList [⟨ascii "Link", 62⟩] = some text ∧
      parseProtocolList text = some [⟨ascii "Link", 62⟩] := by
  refine (parse_encode_iff _ (Or.inl ?_)).mpr ?_
  · intro ent hent
    obtain rfl := List.mem_singleton.mp hent
    exact ⟨by decide, by decide, by decide⟩
  · decide

/-- An entry with all versions: the complement of its mask has no lowest bit. -/
theorem all_versions_not_encoded :
    ¬ ∀ sl : List ProtoEntry, (∀ ent ∈ sl, ValidName ent.name) → (sl.map ProtoEntry.name).Nodup →
      ∃ text, encodeProtocolList sl = some text ∧ parseProtocolList text = some sl := by
  intro hall
  obtain ⟨text, htext, -⟩ := hall [⟨ascii "Link", BitVec.allOnes 64⟩] (fun ent hent => by
    obtain rfl := List.mem_singleton.mp hent
    exact ⟨by decide, by decide, by decide⟩) (by decide)
  have hdefined := (encodeEntries_isSome_iff [] _).mp (Option.isSome_iff_exists.mpr ⟨text, htext⟩)
  exact hdefined _ (List.mem_singleton.mpr rfl) rfl

end Protover
