/-
Preimages of payment hashes (`payment_util_verify_preimage`).

Both arguments are read into arrays of 32 bytes, a byte for each two characters, with `sscanf` and
`"%2hhx"`.  The conversion skips blanks and takes a sign, and one that fails leaves its byte as it
was.  Two strings of 64 hexadecimal digits are read as the bytes they denote (`hexToBytes_eq`), and
only for these is the answer what it should be for every hash function (`verifyPreimage_iff`).
-/
import LibEltor.PaymentUtil
import LibEltor.Smartlist

open Bytes Smartlist

namespace PaymentUtil

def hexValue (c : UInt8) : Option ℕ :=
  if 48 ≤ c ∧ c ≤ 57 then some (c.toNat - 48)
  else if 65 ≤ c ∧ c ≤ 70 then some (c.toNat - 55)
  else if 97 ≤ c ∧ c ≤ 102 then some (c.toNat - 87)
  else none

def isHexDigit (c : UInt8) : Bool := (hexValue c).isSome

/-- The number that the digits at the front of `s` are, of which there are `width` at most. -/
def scanDigits (width : ℕ) (s : Bytes) : Option ℕ :=
  match (s.take width).takeWhile isHexDigit with
  | [] => none
  | digits => some (digits.foldl (fun n c => 16 * n + (hexValue c).getD 0) 0)

/-- One conversion; none where it fails.  A sign takes one of the two characters, and `0x` takes
both and is no number. -/
def scanHex (s : Bytes) : Option UInt8 :=
  match s.dropWhile torIsspace with
  | 45 :: t => (scanDigits 1 t).map fun n => UInt8.ofNat (256 - n)
  | 43 :: t => (scanDigits 1 t).map UInt8.ofNat
  | 48 :: x :: t =>
    if x = 120 ∨ x = 88 then none else (scanDigits 2 (48 :: x :: t)).map UInt8.ofNat
  | t => (scanDigits 2 t).map UInt8.ofNat

def inMemory (s after : Bytes) : Bytes := s ++ 0 :: after

/-- `bytes` is what the array holds before. -/
def hexToBytes {n : ℕ} (hex : Bytes) (bytes : Block n) : Block n :=
  ⟨bytes.toList.mapIdx fun i b => (scanHex (hex.drop (2 * i))).getD b, by
    rw [List.length_mapIdx, bytes.toList_length]⟩

/-- `preimage` and `payhash` are the arrays, which are not initialized. -/
def verifyPreimage (sha256 : Bytes → Block 32) (preimage payhash : Block 32)
    (preimageHex payhashHex : Bytes) : Bool :=
  decide (sha256 (hexToBytes preimageHex preimage).toList = hexToBytes payhashHex payhash)

def isHex64 (s : Bytes) : Bool := decide (s.length = 64) && s.all isHexDigit

def denoted : Bytes → Bytes
  | a :: b :: s => UInt8.ofNat (16 * (hexValue a).getD 0 + (hexValue b).getD 0) :: denoted s
  | _ => []

/-! ### Digits are read as what they denote -/

theorem isHexDigit_iff {c : UInt8} :
    isHexDigit c = true ↔ (48 ≤ c ∧ c ≤ 57) ∨ (65 ≤ c ∧ c ≤ 70) ∨ (97 ≤ c ∧ c ≤ 102) := by
  unfold isHexDigit hexValue
  split_ifs <;> simp_all

theorem not_torIsspace {c : UInt8} (h : isHexDigit c = true) : torIsspace c = false := by
  have hc := isHexDigit_iff.mp h
  have hrange : ¬ ((9 ≤ c ∧ c ≤ 13) ∨ c = 32) := by
    simp only [UInt8.le_iff_toNat_le, ← UInt8.toNat_inj] at hc ⊢
    simp at hc ⊢
    omega
  simpa [torIsspace] using hrange

theorem scanDigits_two {a b : UInt8} (ha : isHexDigit a = true) (hb : isHexDigit b = true)
    (s : Bytes) :
    scanDigits 2 (a :: b :: s) = some (16 * (hexValue a).getD 0 + (hexValue b).getD 0) := by
  simp [scanDigits, ha, hb]

theorem scanHex_digits {a b : UInt8} (ha : isHexDigit a = true) (hb : isHexDigit b = true)
    (s : Bytes) :
    scanHex (a :: b :: s) =
      some (UInt8.ofNat (16 * (hexValue a).getD 0 + (hexValue b).getD 0)) := by
  have hspace : (a :: b :: s).dropWhile torIsspace = a :: b :: s := by
    rw [List.dropWhile_cons_of_neg (by simp [not_torIsspace ha])]
  have hminus : a ≠ 45 := by rintro rfl; cases ha
  have hplus : a ≠ 43 := by rintro rfl; cases ha
  have hx : ¬ (b = 120 ∨ b = 88) := by rintro (rfl | rfl) <;> cases hb
  unfold scanHex
  rw [hspace]
  split
  · rename_i heq
    exact absurd (List.cons.inj heq).1 hminus
  · rename_i heq
    exact absurd (List.cons.inj heq).1 hplus
  · rename_i x t heq
    obtain ⟨rfl, rfl⟩ := List.cons.inj (List.cons.inj heq).2
    rw [if_neg hx, ← heq, scanDigits_two ha hb, Option.map_some]
  · rw [scanDigits_two ha hb, Option.map_some]

theorem mapIdx_scanHex {bytes s : Bytes} (hlen : s.length = 2 * bytes.length)
    (hdigits : ∀ c ∈ s, isHexDigit c = true) (rest : Bytes) :
    (bytes.mapIdx fun i b => (scanHex ((s ++ rest).drop (2 * i))).getD b) = denoted s := by
  induction bytes generalizing s with
  | nil =>
    obtain rfl := List.length_eq_zero_iff.mp hlen
    rfl
  | cons byte bytes ih =>
    match s, hlen with
    | [], hlen => simp at hlen
    | [a], hlen => simp at hlen; omega
    | a :: b :: s, hlen =>
      have ha := hdigits a (by simp)
      have hb := hdigits b (by simp)
      have hs : ∀ c ∈ s, isHexDigit c = true := fun c hc => hdigits c (by simp [hc])
      have hlen' : s.length = 2 * bytes.length := by simp at hlen; omega
      have hdrop : ∀ i, ((a :: b :: s) ++ rest).drop (2 * (i + 1)) = (s ++ rest).drop (2 * i) :=
        fun i => by rw [Nat.mul_succ]; rfl
      rw [List.mapIdx_cons, denoted]
      congr 1
      · rw [Nat.mul_zero, List.drop_zero, List.cons_append, List.cons_append,
          scanHex_digits ha hb, Option.getD_some]
      · simp only [hdrop]
        exact ih hlen' hs

theorem hexToBytes_eq {s : Bytes} (h : isHex64 s = true) (bytes : Block 32) (after : Bytes) :
    (hexToBytes (inMemory s after) bytes).toList = denoted s := by
  rw [isHex64, Bool.and_eq_true, decide_eq_true_iff, List.all_eq_true] at h
  have hlen : s.length = 2 * bytes.toList.length := by rw [bytes.toList_length]; exact h.1
  exact mapIdx_scanHex hlen h.2 (0 :: after)

/-- The answer is right for every hash function, and depends on nothing but the arguments, exactly
for arguments of 64 hexadecimal digits. -/
theorem verifyPreimage_iff (preimageHex payhashHex : Bytes) :
    (∀ (sha256 : Bytes → Block 32) (preimage payhash : Block 32) (after after' : Bytes),
      verifyPreimage sha256 preimage payhash (inMemory preimageHex after)
          (inMemory payhashHex after') = true ↔
        isHex64 preimageHex = true ∧ isHex64 payhashHex = true ∧
          (sha256 (denoted preimageHex)).toList = denoted payhashHex) ↔
      isHex64 preimageHex = true ∧ isHex64 payhashHex = true := by
  constructor
  · intro h
    -- a hash function whose value is what was read as the hash
    have hread := (h (fun _ => hexToBytes (inMemory payhashHex []) (zeroFill 32 []))
      (zeroFill 32 []) (zeroFill 32 []) [] []).mp (decide_eq_true rfl)
    exact ⟨hread.1, hread.2.1⟩
  · rintro ⟨hpreimage, hpayhash⟩ sha256 preimage payhash after after'
    rw [verifyPreimage, decide_eq_true_iff, hexToBytes_eq hpreimage]
    constructor
    · intro heq
      exact ⟨hpreimage, hpayhash, by rw [heq, hexToBytes_eq hpayhash]⟩
    · rintro ⟨-, -, heq⟩
      exact Subtype.ext (heq.trans (hexToBytes_eq hpayhash payhash after').symm)

/-- Thirty-two times a blank and a digit are read as the bytes 15, and the blanks are no digits. -/
theorem blanks_accepted :
    verifyPreimage (fun bytes => zeroFill 32 bytes) (zeroFill 32 []) (zeroFill 32 [])
        (inMemory (List.replicate 32 (ascii " f")).flatten [])
        (inMemory (List.replicate 32 (ascii "0f")).flatten []) = true ∧
      isHex64 (List.replicate 32 (ascii " f")).flatten = false := by
  decide +kernel

end PaymentUtil
