/-
Base 64 and base 16 (`lib/encoding/binascii.c`, `lib/crypt_ops/crypto_format.c`).

`base64Encode` flushes four characters for every three bytes; `base64Decode` skips spaces,
ends at the first `=` and takes leftover bits for one or two bytes.  What is encoded is
decoded again, with its padding (`base64Decode_base64Encode`) and without
(`base64Decode_base64EncodeNopad`).
-/
import Mathlib
import LibEltor.Bytes

namespace Binascii

open Bytes

/-! ### Base 64 -/

def base64EncodeTable : Bytes :=
  ascii "ABCDEFGHIJKLMNOPQRSTUVWXYZabcdefghijklmnopqrstuvwxyz0123456789+/"

/-- The character of the 6 bits of `n` that `idx` selects. -/
def encodeN (n idx : ℕ) : UInt8 := base64EncodeTable.getD (n / 64 ^ (3 - idx) % 64) 0

/-- `=` -/
def encodePad : UInt8 := 61

def base64Encode : Bytes → Bytes
  | a :: b :: c :: src =>
    let n := (a.toNat * 256 + b.toNat) * 256 + c.toNat
    encodeN n 0 :: encodeN n 1 :: encodeN n 2 :: encodeN n 3 :: base64Encode src
  | [a, b] =>
    let n := (a.toNat * 256 + b.toNat) * 4
    [encodeN n 1, encodeN n 2, encodeN n 3, encodePad]
  | [a] =>
    let n := a.toNat * 16
    [encodeN n 2, encodeN n 3, encodePad, encodePad]
  | [] => []

def base64EncodeNopad (src : Bytes) : Bytes := (base64Encode src).filter (· ≠ encodePad)

/-- What a byte stands for. -/
inductive DecodeEntry
  | X
  | SP
  | PAD
  | bits (v : ℕ)
  deriving DecidableEq

def base64DecodeTable (c : UInt8) : DecodeEntry :=
  if 65 ≤ c ∧ c ≤ 90 then .bits (c.toNat - 65)
  else if 97 ≤ c ∧ c ≤ 122 then .bits (c.toNat - 71)
  else if 48 ≤ c ∧ c ≤ 57 then .bits (c.toNat + 4)
  else if c = 43 then .bits 62
  else if c = 47 then .bits 63
  else if c = 61 then .PAD
  else if c = 9 ∨ c = 10 ∨ c = 11 ∨ c = 13 ∨ c = 32 then .SP
  else .X

/-- The leftover bits; `none` where decoding fails. -/
def decodeRest (destlen n nIdx : ℕ) (dest : Bytes) : Option Bytes :=
  match nIdx with
  | 1 => none
  | 2 =>
    if destlen < 1 ∨ dest.length > destlen - 1 then none
    else some (dest ++ [UInt8.ofNat (n / 16)])
  | 3 =>
    if destlen < 2 ∨ dest.length > destlen - 2 then none
    else some (dest ++ [UInt8.ofNat (n / 1024), UInt8.ofNat (n / 4)])
  | _ => some dest

def decodeLoop (destlen : ℕ) : Bytes → ℕ → ℕ → Bytes → Option Bytes
  | [], n, nIdx, dest => decodeRest destlen n nIdx dest
  | c :: src, n, nIdx, dest =>
    match base64DecodeTable c with
    | .X => none
    | .SP => decodeLoop destlen src n nIdx dest
    | .PAD => decodeRest destlen n nIdx dest
    | .bits v =>
      let n := n * 64 + v
      if nIdx + 1 = 4 then
        if destlen < 3 ∨ dest.length > destlen - 3 then none
        else decodeLoop destlen src 0 0
          (dest ++ [UInt8.ofNat (n / 65536), UInt8.ofNat (n / 256), UInt8.ofNat n])
      else decodeLoop destlen src n (nIdx + 1) dest

/-- The bytes written to `dest`; `none` for -1. -/
def base64Decode (destlen : ℕ) (src : Bytes) : Option Bytes := decodeLoop destlen src 0 0 []

theorem base64DecodeTable_encode {v : ℕ} (hv : v < 64) :
    base64DecodeTable (base64EncodeTable.getD v 0) = .bits v := by
  have h : ∀ v : Fin 64, base64DecodeTable (base64EncodeTable.getD v 0) = .bits v := by
    decide +kernel
  exact h ⟨v, hv⟩

theorem base64DecodeTable_encodeN (n idx : ℕ) :
    base64DecodeTable (encodeN n idx) = .bits (n / 64 ^ (3 - idx) % 64) :=
  base64DecodeTable_encode (Nat.mod_lt _ (by decide))

theorem encodeN_ne_pad (n idx : ℕ) : encodeN n idx ≠ encodePad := by
  intro h
  have hbits := base64DecodeTable_encodeN n idx
  rw [h] at hbits
  cases hbits

theorem decodeLoop_encodeN {destlen nIdx : ℕ} (n idx m : ℕ) (src dest : Bytes) (h : nIdx < 3) :
    decodeLoop destlen (encodeN n idx :: src) m nIdx dest =
      decodeLoop destlen src (m * 64 + n / 64 ^ (3 - idx) % 64) (nIdx + 1) dest := by
  rw [decodeLoop, base64DecodeTable_encodeN]
  exact if_neg (by omega)

theorem decodeLoop_flush {destlen : ℕ} (n idx m : ℕ) (src dest : Bytes)
    (h : dest.length + 3 ≤ destlen) :
    decodeLoop destlen (encodeN n idx :: src) m 3 dest =
      decodeLoop destlen src 0 0
        (dest ++ [UInt8.ofNat ((m * 64 + n / 64 ^ (3 - idx) % 64) / 65536),
          UInt8.ofNat ((m * 64 + n / 64 ^ (3 - idx) % 64) / 256),
          UInt8.ofNat (m * 64 + n / 64 ^ (3 - idx) % 64)]) := by
  rw [decodeLoop, base64DecodeTable_encodeN]
  simp only [if_true]
  exact if_neg (by omega)

theorem ofNat_eq {n : ℕ} {a : UInt8} (h : n % 256 = a.toNat) : UInt8.ofNat n = a := by
  apply UInt8.toNat_inj.mp
  simpa using h

theorem decodeLoop_group {destlen : ℕ} (a b c : UInt8) (src dest : Bytes)
    (h : dest.length + 3 ≤ destlen) :
    decodeLoop destlen
        (encodeN ((a.toNat * 256 + b.toNat) * 256 + c.toNat) 0 ::
          encodeN ((a.toNat * 256 + b.toNat) * 256 + c.toNat) 1 ::
          encodeN ((a.toNat * 256 + b.toNat) * 256 + c.toNat) 2 ::
          encodeN ((a.toNat * 256 + b.toNat) * 256 + c.toNat) 3 :: src) 0 0 dest =
      decodeLoop destlen src 0 0 (dest ++ [a, b, c]) := by
  have ha : a.toNat < 256 := a.toNat_lt
  have hb : b.toNat < 256 := b.toNat_lt
  have hc : c.toNat < 256 := c.toNat_lt
  rw [decodeLoop_encodeN _ _ _ _ _ (by decide), decodeLoop_encodeN _ _ _ _ _ (by decide),
    decodeLoop_encodeN _ _ _ _ _ (by decide), decodeLoop_flush _ _ _ _ _ h]
  have hn : (((0 * 64 + ((a.toNat * 256 + b.toNat) * 256 + c.toNat) / 64 ^ (3 - 0) % 64) * 64 +
      ((a.toNat * 256 + b.toNat) * 256 + c.toNat) / 64 ^ (3 - 1) % 64) * 64 +
      ((a.toNat * 256 + b.toNat) * 256 + c.toNat) / 64 ^ (3 - 2) % 64) * 64 +
      ((a.toNat * 256 + b.toNat) * 256 + c.toNat) / 64 ^ (3 - 3) % 64 =
      (a.toNat * 256 + b.toNat) * 256 + c.toNat := by
    norm_num only
    omega
  rw [hn, ofNat_eq (a := a) (by omega), ofNat_eq (a := b) (by omega), ofNat_eq (a := c) (by omega)]

theorem decodeLoop_tail_two {destlen : ℕ} (a b : UInt8) (src dest : Bytes)
    (h : dest.length + 2 ≤ destlen) (hsrc : src = [] ∨ ∃ t, src = encodePad :: t) :
    decodeLoop destlen
        (encodeN ((a.toNat * 256 + b.toNat) * 4) 1 :: encodeN ((a.toNat * 256 + b.toNat) * 4) 2 ::
          encodeN ((a.toNat * 256 + b.toNat) * 4) 3 :: src) 0 0 dest = some (dest ++ [a, b]) := by
  have ha : a.toNat < 256 := a.toNat_lt
  have hb : b.toNat < 256 := b.toNat_lt
  rw [decodeLoop_encodeN _ _ _ _ _ (by decide), decodeLoop_encodeN _ _ _ _ _ (by decide),
    decodeLoop_encodeN _ _ _ _ _ (by decide)]
  have hn : ((0 * 64 + (a.toNat * 256 + b.toNat) * 4 / 64 ^ (3 - 1) % 64) * 64 +
      (a.toNat * 256 + b.toNat) * 4 / 64 ^ (3 - 2) % 64) * 64 +
      (a.toNat * 256 + b.toNat) * 4 / 64 ^ (3 - 3) % 64 = (a.toNat * 256 + b.toNat) * 4 := by
    norm_num only
    omega
  have hrest : decodeRest destlen ((a.toNat * 256 + b.toNat) * 4) 3 dest = some (dest ++ [a, b]) := by
    simp only [decodeRest]
    rw [if_neg (by omega), ofNat_eq (a := a) (by omega), ofNat_eq (a := b) (by omega)]
  rw [hn]
  obtain rfl | ⟨t, rfl⟩ := hsrc
  · exact hrest
  · exact hrest

theorem decodeLoop_tail_one {destlen : ℕ} (a : UInt8) (src dest : Bytes)
    (h : dest.length + 1 ≤ destlen) (hsrc : src = [] ∨ ∃ t, src = encodePad :: t) :
    decodeLoop destlen (encodeN (a.toNat * 16) 2 :: encodeN (a.toNat * 16) 3 :: src) 0 0 dest =
      some (dest ++ [a]) := by
  have ha : a.toNat < 256 := a.toNat_lt
  rw [decodeLoop_encodeN _ _ _ _ _ (by decide), decodeLoop_encodeN _ _ _ _ _ (by decide)]
  have hn : (0 * 64 + a.toNat * 16 / 64 ^ (3 - 2) % 64) * 64 + a.toNat * 16 / 64 ^ (3 - 3) % 64 =
      a.toNat * 16 := by
    norm_num only
    omega
  have hrest : decodeRest destlen (a.toNat * 16) 2 dest = some (dest ++ [a]) := by
    simp only [decodeRest]
    rw [if_neg (by omega), ofNat_eq (a := a) (by omega)]
  rw [hn]
  obtain rfl | ⟨t, rfl⟩ := hsrc
  · exact hrest
  · exact hrest

theorem decodeLoop_base64Encode {destlen : ℕ} (src dest : Bytes)
    (h : dest.length + src.length ≤ destlen) :
    decodeLoop destlen (base64Encode src) 0 0 dest = some (dest ++ src) := by
  induction src using base64Encode.induct generalizing dest with
  | case1 a b c src ih =>
    simp only [List.length_cons] at h
    rw [base64Encode, decodeLoop_group a b c _ dest (by omega), ih _ (by simp; omega)]
    simp
  | case2 a b =>
    exact decodeLoop_tail_two a b _ dest h (.inr ⟨_, rfl⟩)
  | case3 a =>
    exact decodeLoop_tail_one a _ dest h (.inr ⟨_, rfl⟩)
  | case4 => simp [base64Encode, decodeLoop, decodeRest]

theorem base64Decode_base64Encode (destlen : ℕ) {src : Bytes} (h : src.length ≤ destlen) :
    base64Decode destlen (base64Encode src) = some src :=
  decodeLoop_base64Encode src [] (by simpa using h)

/-! ### Without padding -/

theorem base64EncodeNopad_group (a b c : UInt8) (src : Bytes) :
    base64EncodeNopad (a :: b :: c :: src) =
      encodeN ((a.toNat * 256 + b.toNat) * 256 + c.toNat) 0 ::
        encodeN ((a.toNat * 256 + b.toNat) * 256 + c.toNat) 1 ::
        encodeN ((a.toNat * 256 + b.toNat) * 256 + c.toNat) 2 ::
        encodeN ((a.toNat * 256 + b.toNat) * 256 + c.toNat) 3 :: base64EncodeNopad src := by
  simp [base64EncodeNopad, base64Encode, encodeN_ne_pad]

theorem base64EncodeNopad_two (a b : UInt8) :
    base64EncodeNopad [a, b] =
      [encodeN ((a.toNat * 256 + b.toNat) * 4) 1, encodeN ((a.toNat * 256 + b.toNat) * 4) 2,
        encodeN ((a.toNat * 256 + b.toNat) * 4) 3] := by
  simp [base64EncodeNopad, base64Encode, encodeN_ne_pad]

theorem base64EncodeNopad_one (a : UInt8) :
    base64EncodeNopad [a] = [encodeN (a.toNat * 16) 2, encodeN (a.toNat * 16) 3] := by
  simp [base64EncodeNopad, base64Encode, encodeN_ne_pad]

theorem decodeLoop_base64EncodeNopad {destlen : ℕ} (src dest : Bytes)
    (h : dest.length + src.length ≤ destlen) :
    decodeLoop destlen (base64EncodeNopad src) 0 0 dest = some (dest ++ src) := by
  induction src using base64Encode.induct generalizing dest with
  | case1 a b c src ih =>
    simp only [List.length_cons] at h
    rw [base64EncodeNopad_group, decodeLoop_group a b c _ dest (by omega), ih _ (by simp; omega)]
    simp
  | case2 a b =>
    rw [base64EncodeNopad_two]
    exact decodeLoop_tail_two a b _ dest h (.inl rfl)
  | case3 a =>
    rw [base64EncodeNopad_one]
    exact decodeLoop_tail_one a _ dest h (.inl rfl)
  | case4 => simp [base64EncodeNopad, base64Encode, decodeLoop, decodeRest]

theorem base64Decode_base64EncodeNopad (destlen : ℕ) {src : Bytes} (h : src.length ≤ destlen) :
    base64Decode destlen (base64EncodeNopad src) = some src :=
  decodeLoop_base64EncodeNopad src [] (by simpa using h)

theorem length_base64EncodeNopad (src : Bytes) :
    (base64EncodeNopad src).length = (src.length * 4 + 2) / 3 := by
  induction src using base64Encode.induct with
  | case1 a b c src ih =>
    rw [base64EncodeNopad_group]
    simp only [List.length_cons, ih]
    omega
  | case2 a b => simp [base64EncodeNopad_two]
  | case3 a => simp [base64EncodeNopad_one]
  | case4 => rfl

theorem mem_base64EncodeNopad {src : Bytes} {c : UInt8} (h : c ∈ base64EncodeNopad src) :
    ∃ v, base64DecodeTable c = .bits v := by
  have hgroup : ∀ n idx, ∃ v, base64DecodeTable (encodeN n idx) = .bits v := fun n idx =>
    ⟨_, base64DecodeTable_encodeN n idx⟩
  induction src using base64Encode.induct with
  | case1 a b c' src ih =>
    rw [base64EncodeNopad_group] at h
    simp only [List.mem_cons] at h
    obtain rfl | rfl | rfl | rfl | h := h
    iterate 4 exact hgroup _ _
    exact ih h
  | case2 a b =>
    rw [base64EncodeNopad_two] at h
    simp only [List.mem_cons, List.not_mem_nil, or_false] at h
    obtain rfl | rfl | rfl := h
    iterate 3 exact hgroup _ _
  | case3 a =>
    rw [base64EncodeNopad_one] at h
    simp only [List.mem_cons, List.not_mem_nil, or_false] at h
    obtain rfl | rfl := h
    iterate 2 exact hgroup _ _
  | case4 => cases h

def hexDigit (n : ℕ) : UInt8 := UInt8.ofNat (if n < 10 then 48 + n else 55 + n)

def base16Encode (src : Bytes) : Bytes :=
  src.flatMap fun b => [hexDigit (b.toNat / 16), hexDigit (b.toNat % 16)]

theorem hexDigit_inj {n m : ℕ} (hn : n < 16) (hm : m < 16) (h : hexDigit n = hexDigit m) : n = m := by
  have hinj : ∀ n m : Fin 16, hexDigit n = hexDigit m → n = m := by decide
  exact congrArg Fin.val (hinj ⟨n, hn⟩ ⟨m, hm⟩ h)

theorem length_base16Encode (src : Bytes) : (base16Encode src).length = 2 * src.length := by
  induction src with
  | nil => rfl
  | cons b src ih =>
    have hcons : base16Encode (b :: src) =
        hexDigit (b.toNat / 16) :: hexDigit (b.toNat % 16) :: base16Encode src := rfl
    rw [hcons]
    simp only [List.length_cons, ih]
    omega

theorem base16Encode_injective : Function.Injective base16Encode := by
  intro src src' h
  induction src generalizing src' with
  | nil =>
    cases src' with
    | nil => rfl
    | cons b' src' => cases h
  | cons b src ih =>
    cases src' with
    | nil => cases h
    | cons b' src' =>
      have hcons : ∀ b src, base16Encode (b :: src) =
          hexDigit (b.toNat / 16) :: hexDigit (b.toNat % 16) :: base16Encode src := fun _ _ => rfl
      simp only [hcons, List.cons.injEq] at h
      obtain ⟨hhigh, hlow, hrest⟩ := h
      have hb : b.toNat < 256 := b.toNat_lt
      have hb' : b'.toNat < 256 := b'.toNat_lt
      have hdiv := hexDigit_inj (by omega) (by omega) hhigh
      have hmod := hexDigit_inj (by omega) (by omega) hlow
      have hbb : b = b' := UInt8.toNat_inj.mp (by omega)
      rw [hbb, ih hrest]

end Binascii
