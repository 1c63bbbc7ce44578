/-
Base 32 (`lib/encoding/binascii.c`).

A text is read and written by the position of its bits: character `i` has the five bits from
place `5 i` on, byte `i` the eight from place `8 i` on.  Where in a group of five bytes a byte is
decides how its bits are put together from two or three characters (`assemble_code`).
-/
import Mathlib
import LibEltor.Base64Lines

open Bytes

namespace Binascii

/-! ### The code -/

def base32Chars : Bytes := ascii "abcdefghijklmnopqrstuvwxyz234567"

/-- The size with the NUL; `none` is a failed assertion. -/
def base32EncodedSize (srclen : ℕ) : Option ℕ :=
  if ¬srclen < sizeTCeiling / 8 then none
  else
    let enclen := ceilDiv (srclen * 8) 5 + 1
    if enclen < intMax ∧ enclen > srclen then some enclen else none

/-- The five bits at place `bit`, out of the 16 bits that begin with their byte. -/
def code (src : Bytes) (bit : ℕ) : ℕ :=
  let idx := bit / 8
  let v := (src.getD idx 0).toNat * 256
  let v := if idx + 1 < src.length then v + (src.getD (idx + 1) 0).toNat else v
  v / 2 ^ (11 - bit % 8) % 32

/-- The rounds of the loop `for (i=0,bit=0; bit < nbits; ++i, bit+=5)`. -/
def base32EncodeLoop (src : Bytes) : Bytes :=
  (List.range (ceilDiv (src.length * 8) 5)).map fun i => base32Chars.getD (code src (5 * i)) 0

/-- `base32_encode`; `none` is a failed assertion. -/
def base32EncodeTo (destlen : ℕ) (src : Bytes) : Option Bytes := do
  let enclen ← base32EncodedSize src.length
  if ¬enclen ≤ destlen then none
  else if ¬destlen < sizeTCeiling then none
  else some (base32EncodeLoop src ++ [0])

def base32DecodeChar (c : UInt8) : Option ℕ :=
  if 0x60 < c ∧ c < 0x7B then some (c.toNat - 0x61)
  else if 0x31 < c ∧ c < 0x38 then some (c.toNat - 0x18)
  else if 0x40 < c ∧ c < 0x5B then some (c.toNat - 0x41)
  else none

/-- The byte at place `bit`. -/
def assemble (tmp : List ℕ) (bit : ℕ) : UInt8 :=
  let t := fun k => tmp.getD (bit / 5 + k) 0
  match bit % 40 with
  | 0 => UInt8.ofNat (t 0 * 2 ^ 3 + t 1 / 2 ^ 2)
  | 8 => UInt8.ofNat (t 0 * 2 ^ 6 + t 1 * 2 ^ 1 + t 2 / 2 ^ 4)
  | 16 => UInt8.ofNat (t 0 * 2 ^ 4 + t 1 / 2 ^ 1)
  | 24 => UInt8.ofNat (t 0 * 2 ^ 7 + t 1 * 2 ^ 2 + t 2 / 2 ^ 3)
  | 32 => UInt8.ofNat (t 0 * 2 ^ 5 + t 1)
  | _ => 0

/-- `base32_decode`, for texts of at most `INT_MAX` bytes of data; `none` is a failed assertion. -/
def base32DecodeTo (destlen : ℕ) (src : Bytes) : Option Result :=
  let nbits := src.length * 5 / 8 * 8
  if ¬src.length < sizeTCeiling / 5 then none
  else if ¬nbits / 8 ≤ destlen then none
  else if ¬destlen < sizeTCeiling then none
  else
    match src.mapM base32DecodeChar with
    | none => some (failed [])
    | some tmp => some (done ((List.range (nbits / 8)).map fun i => assemble tmp (8 * i)))

/-! ### Encoding -/

theorem base32EncodedSize_eq_some {srclen size : ℕ} (h : base32EncodedSize srclen = some size) :
    srclen < sizeTCeiling / 8 ∧ size = ceilDiv (srclen * 8) 5 + 1 ∧ size < intMax ∧
      srclen < size := by
  rw [base32EncodedSize] at h
  dsimp only at h
  by_cases hlen : srclen < sizeTCeiling / 8
  · rw [if_neg (not_not.mpr hlen)] at h
    split_ifs at h with hsize
    obtain rfl := Option.some.inj h
    exact ⟨hlen, rfl, hsize⟩
  · rw [if_pos hlen] at h
    cases h

theorem length_base32EncodeLoop (src : Bytes) :
    (base32EncodeLoop src).length = ceilDiv (src.length * 8) 5 := by
  rw [base32EncodeLoop, List.length_map, List.length_range]

/-- **The encoder** writes what its size function says into a buffer that has room. -/
theorem base32EncodeTo_eq {destlen size : ℕ} {src : Bytes}
    (h : base32EncodedSize src.length = some size) (hroom : size ≤ destlen)
    (hmax : destlen < sizeTCeiling) :
    base32EncodeTo destlen src = some (base32EncodeLoop src ++ [0]) ∧
      (base32EncodeLoop src ++ [0]).length = size := by
  obtain ⟨-, hsize, -, -⟩ := base32EncodedSize_eq_some h
  constructor
  · show (base32EncodedSize src.length).bind _ = _
    rw [h, Option.bind_some, if_neg (not_not.mpr hroom), if_neg (not_not.mpr hmax)]
  · rw [List.length_append, length_base32EncodeLoop, hsize]
    rfl

theorem code_lt (src : Bytes) (bit : ℕ) : code src bit < 32 := Nat.mod_lt _ (by decide)

theorem base32DecodeChar_char {u : ℕ} (hu : u < 32) :
    base32DecodeChar (base32Chars.getD u 0) = some u := by
  have h : ∀ u : Fin 32, base32DecodeChar (base32Chars.getD u 0) = some u.1 := by
    decide +kernel
  exact h ⟨u, hu⟩

theorem mapM_base32DecodeChar (src : Bytes) :
    (base32EncodeLoop src).mapM base32DecodeChar =
      some ((List.range (ceilDiv (src.length * 8) 5)).map fun i => code src (5 * i)) := by
  unfold base32EncodeLoop
  induction ceilDiv (src.length * 8) 5 with
  | zero => rfl
  | succ n ih =>
    rw [List.range_succ, List.map_append, List.map_append, List.mapM_append, ih]
    show (do
      let ys ← (base32DecodeChar (base32Chars.getD (code src (5 * n)) 0)).bind fun y => some [y]
      some (_ ++ ys)) = _
    rw [base32DecodeChar_char (code_lt src _)]
    rfl

theorem code_eq (src : Bytes) (q k : ℕ) :
    code src (5 * (8 * q + k)) =
      ((src.getD (5 * q + 5 * k / 8) 0).toNat * 256 +
        (src.getD (5 * q + 5 * k / 8 + 1) 0).toNat) / 2 ^ (11 - 5 * k % 8) % 32 := by
  have hidx : 5 * (8 * q + k) / 8 = 5 * q + 5 * k / 8 := by omega
  have hmod : 5 * (8 * q + k) % 8 = 5 * k % 8 := by omega
  have hwindow : ∀ idx, (if idx + 1 < src.length then
      (src.getD idx 0).toNat * 256 + (src.getD (idx + 1) 0).toNat
      else (src.getD idx 0).toNat * 256) =
      (src.getD idx 0).toNat * 256 + (src.getD (idx + 1) 0).toNat := fun idx => by
    split_ifs with hin
    · exact Eq.refl _
    · rw [List.getD_eq_default _ _ (not_lt.mp hin)]
      exact (Nat.add_zero _).symm
  rw [code, hidx, hmod]
  exact congrArg (fun v => v / 2 ^ (11 - 5 * k % 8) % 32) (hwindow _)

def codes (src : Bytes) : List ℕ :=
  (List.range (ceilDiv (src.length * 8) 5)).map fun i => code src (5 * i)

theorem getD_codes {src : Bytes} {j : ℕ} (h : 5 * j < src.length * 8) :
    (codes src).getD j 0 = code src (5 * j) := by
  have hlt : j < ceilDiv (src.length * 8) 5 := by
    unfold ceilDiv
    omega
  rw [codes, List.getD_eq_getElem?_getD, List.getElem?_map, List.getElem?_range hlt]
  rfl

/-- **One byte** is put together again, wherever it is in its group of five. -/
theorem assemble_code {src : Bytes} {i : ℕ} (hi : i < src.length) :
    assemble (codes src) (8 * i) = src.getD i 0 := by
  obtain ⟨q, r, rfl, hr⟩ : ∃ q r, i = 5 * q + r ∧ r < 5 := ⟨i / 5, i % 5, by omega, by omega⟩
  -- the bytes of the group, as numbers
  obtain ⟨b, hb⟩ : ∃ b : ℕ → ℕ, ∀ k, b k = (src.getD (5 * q + k) 0).toNat :=
    ⟨fun k => (src.getD (5 * q + k) 0).toNat, fun _ => rfl⟩
  have hlt : ∀ k, b k < 256 := fun k => by
    rw [hb]
    exact UInt8.toNat_lt _
  have hcode : ∀ k, 5 * (8 * q + k) < src.length * 8 → (codes src).getD (8 * q + k) 0 =
      (b (5 * k / 8) * 256 + b (5 * k / 8 + 1)) / 2 ^ (11 - 5 * k % 8) % 32 := fun k hk => by
    rw [getD_codes hk, code_eq, hb, hb]
    rfl
  have hmod : 8 * (5 * q + r) % 40 = 8 * r := by omega
  have hdiv : 8 * (5 * q + r) / 5 = 8 * q + 8 * r / 5 := by omega
  unfold assemble
  rw [hmod, hdiv]
  have h0 := hlt 0
  have h1 := hlt 1
  have h2 := hlt 2
  have h3 := hlt 3
  have h4 := hlt 4
  have h5 := hlt 5
  interval_cases r
  · show UInt8.ofNat ((codes src).getD (8 * q + 0) 0 * 2 ^ 3 +
      (codes src).getD (8 * q + 1) 0 / 2 ^ 2) = _
    rw [hcode _ (by omega), hcode _ (by omega)]
    refine ofNat_eq ?_
    rw [← hb]
    norm_num only
    omega
  · show UInt8.ofNat ((codes src).getD (8 * q + 1) 0 * 2 ^ 6 +
      (codes src).getD (8 * q + 2) 0 * 2 ^ 1 + (codes src).getD (8 * q + 3) 0 / 2 ^ 4) = _
    rw [hcode _ (by omega), hcode _ (by omega), hcode _ (by omega)]
    refine ofNat_eq ?_
    rw [← hb]
    norm_num only
    omega
  · show UInt8.ofNat ((codes src).getD (8 * q + 3) 0 * 2 ^ 4 +
      (codes src).getD (8 * q + 4) 0 / 2 ^ 1) = _
    rw [hcode _ (by omega), hcode _ (by omega)]
    refine ofNat_eq ?_
    rw [← hb]
    norm_num only
    omega
  · show UInt8.ofNat ((codes src).getD (8 * q + 4) 0 * 2 ^ 7 +
      (codes src).getD (8 * q + 5) 0 * 2 ^ 2 + (codes src).getD (8 * q + 6) 0 / 2 ^ 3) = _
    rw [hcode _ (by omega), hcode _ (by omega), hcode _ (by omega)]
    refine ofNat_eq ?_
    rw [← hb]
    norm_num only
    omega
  · show UInt8.ofNat ((codes src).getD (8 * q + 6) 0 * 2 ^ 5 +
      (codes src).getD (8 * q + 7) 0) = _
    rw [hcode _ (by omega), hcode _ (by omega)]
    refine ofNat_eq ?_
    rw [← hb]
    norm_num only
    omega

/-- **The decoder** stores no more than fits, if it does not stop at an assertion. -/
theorem base32DecodeTo_bounds {destlen : ℕ} {src : Bytes} {r : Result}
    (h : base32DecodeTo destlen src = some r) : r.InBounds destlen := by
  rw [base32DecodeTo] at h
  split_ifs at h with hlen hroom hmax
  cases hchars : src.mapM base32DecodeChar with
  | none =>
    rw [hchars] at h
    obtain rfl := Option.some.inj h
    exact inBounds_failed (Nat.zero_le destlen)
  | some tmp =>
    rw [hchars] at h
    obtain rfl := Option.some.inj h
    refine inBounds_done ?_
    rw [List.length_map, List.length_range]
    exact hroom

theorem base32DecodeTo_eq_none_iff {destlen : ℕ} {src : Bytes} :
    base32DecodeTo destlen src = none ↔
      sizeTCeiling / 5 ≤ src.length ∨ destlen < src.length * 5 / 8 ∨ sizeTCeiling ≤ destlen := by
  rw [base32DecodeTo]
  have hbytes : src.length * 5 / 8 * 8 / 8 = src.length * 5 / 8 := Nat.mul_div_cancel _ (by decide)
  rw [hbytes]
  by_cases hlen : src.length < sizeTCeiling / 5
  · rw [if_neg (not_not.mpr hlen)]
    by_cases hroom : src.length * 5 / 8 ≤ destlen
    · rw [if_neg (not_not.mpr hroom)]
      by_cases hmax : destlen < sizeTCeiling
      · rw [if_neg (not_not.mpr hmax)]
        refine iff_of_false ?_ (by omega)
        cases src.mapM base32DecodeChar <;> exact fun h => by cases h
      · rw [if_pos hmax]
        exact iff_of_true rfl (Or.inr (Or.inr (not_lt.mp hmax)))
    · rw [if_pos hroom]
      exact iff_of_true rfl (Or.inr (Or.inl (not_le.mp hroom)))
  · rw [if_pos hlen]
    exact iff_of_true rfl (Or.inl (not_lt.mp hlen))

/-- **What is encoded is decoded.** -/
theorem base32DecodeTo_chars {destlen size : ℕ} {src : Bytes}
    (h : base32EncodedSize src.length = some size) (hroom : src.length ≤ destlen)
    (hmax : destlen < sizeTCeiling) :
    base32DecodeTo destlen (base32EncodeLoop src) = some (done src) := by
  obtain ⟨-, hsize, hlt, -⟩ := base32EncodedSize_eq_some h
  have hchars := length_base32EncodeLoop src
  have hbytes : (base32EncodeLoop src).length * 5 / 8 = src.length := by
    rw [hchars]
    unfold ceilDiv
    omega
  rw [base32DecodeTo, hbytes, mapM_base32DecodeChar]
  have hceiling : (base32EncodeLoop src).length < sizeTCeiling / 5 := by
    rw [hchars]
    unfold intMax at hlt
    unfold sizeTCeiling
    omega
  rw [Nat.mul_div_cancel _ (by decide : 0 < 8), if_neg (not_not.mpr hceiling),
    if_neg (not_not.mpr hroom), if_neg (not_not.mpr hmax)]
  have hsame : ((List.range src.length).map fun i => assemble (codes src) (8 * i)) = src := by
    refine List.ext_getElem (by simp) fun i hi hi' => ?_
    rw [List.getElem_map, List.getElem_range, assemble_code hi', List.getD_eq_getElem _ _ hi']
  exact congrArg (fun d => some (done d)) hsame

end Binascii
