/-
Byte strings and fixed arrays of bytes.

A C buffer is a list of bytes.  What is written over cleared memory is the
bytes written followed by zeros (`zeroFill`), what is read back is a prefix of
the buffer, and a 16- or 32-bit field stands in network order (`be16`, `be32`).
A string in memory ends at its first NUL (`cstr`).
-/
import Mathlib.Data.List.TakeDrop
import Mathlib.Data.List.TakeWhile
import Mathlib.Data.Vector.Basic
import Mathlib.Tactic.Common

abbrev Bytes := List UInt8

/-- An array of `n` bytes. -/
abbrev Block (n : ℕ) := List.Vector UInt8 n

namespace Bytes

/-! ### Numbers in network order -/

def be16 (n : UInt16) : Bytes :=
  [UInt8.ofNat (n.toNat / 256), UInt8.ofNat n.toNat]

/-- The 16-bit field at the front of `p`. -/
def getBe16 (p : Bytes) : UInt16 :=
  UInt16.ofNat (p[0]?.getD 0).toNat * 256 + UInt16.ofNat (p[1]?.getD 0).toNat

def be32 (n : UInt32) : Bytes :=
  [UInt8.ofNat (n.toNat / 256 ^ 3), UInt8.ofNat (n.toNat / 256 ^ 2),
    UInt8.ofNat (n.toNat / 256), UInt8.ofNat n.toNat]

/-- The 32-bit field at the front of `p`. -/
def getBe32 (p : Bytes) : UInt32 :=
  UInt32.ofNat ((((p[0]?.getD 0).toNat * 256 + (p[1]?.getD 0).toNat) * 256 +
    (p[2]?.getD 0).toNat) * 256 + (p[3]?.getD 0).toNat)

@[simp] theorem length_be16 (n : UInt16) : (be16 n).length = 2 := rfl

@[simp] theorem length_be32 (n : UInt32) : (be32 n).length = 4 := rfl

@[simp] theorem getBe16_be16 (n : UInt16) (t : Bytes) : getBe16 (be16 n ++ t) = n := by
  have hn : n.toNat < 65536 := n.toNat_lt
  apply UInt16.toNat_inj.mp
  simp [getBe16, be16]
  omega

@[simp] theorem getBe32_be32 (n : UInt32) (t : Bytes) : getBe32 (be32 n ++ t) = n := by
  have hn : n.toNat < 4294967296 := n.toNat_lt
  apply UInt32.toNat_inj.mp
  simp [getBe32, be32]
  omega

@[simp] theorem getBe16_be16_self (n : UInt16) : getBe16 (be16 n) = n := getBe16_be16 n []

@[simp] theorem getBe32_be32_self (n : UInt32) : getBe32 (be32 n) = n := getBe32_be32 n []

theorem be16_getBe16 {p : Bytes} (h : 2 ≤ p.length) : be16 (getBe16 p) = p.take 2 := by
  match p, h with
  | a :: b :: t, _ =>
    have ha : a.toNat < 256 := a.toNat_lt
    have hb : b.toNat < 256 := b.toNat_lt
    have hn : (getBe16 (a :: b :: t)).toNat = a.toNat * 256 + b.toNat := by
      simp [getBe16]
      omega
    rw [be16, hn, List.take_succ_cons, List.take_succ_cons, List.take_zero]
    congr 1
    · apply UInt8.toNat_inj.mp
      simp
      omega
    · congr 1
      apply UInt8.toNat_inj.mp
      simp

theorem getBe16_eq_of_take_eq {p q : Bytes} {n : ℕ} (hn : 2 ≤ n)
    (h : p.take n = q.take n) : getBe16 p = getBe16 q := by
  have h0 : p[0]? = q[0]? := by
    rw [← List.getElem?_take_of_lt (show 0 < n by omega), h,
      List.getElem?_take_of_lt (show 0 < n by omega)]
  have h1 : p[1]? = q[1]? := by
    rw [← List.getElem?_take_of_lt (show 1 < n by omega), h,
      List.getElem?_take_of_lt (show 1 < n by omega)]
  rw [getBe16, getBe16, h0, h1]

def ascii (s : String) : Bytes := s.toList.map fun c => UInt8.ofNat c.toNat

/-! ### Cleared memory -/

/-- An array that was cleared and had `l` copied to its front. -/
def zeroFill (n : ℕ) (l : Bytes) : Block n :=
  ⟨l.takeD n 0, List.takeD_length n l 0⟩

theorem toList_zeroFill {n : ℕ} {l : Bytes} (h : l.length ≤ n) :
    (zeroFill n l).toList = l ++ List.replicate (n - l.length) 0 := by
  show l.takeD n 0 = _
  induction n generalizing l with
  | zero =>
    have hl : l = [] := List.length_eq_zero_iff.mp (by omega)
    simp [hl]
  | succ n ih =>
    cases l with
    | nil => simp [List.replicate_succ]
    | cons x xs =>
      have hxs : xs.length ≤ n := by simpa using h
      simp [ih hxs]

@[simp] theorem length_toList_block {n : ℕ} (b : Block n) : b.toList.length = n :=
  b.toList_length

@[simp] theorem zeroFill_toList {n : ℕ} (b : Block n) : zeroFill n b.toList = b := by
  apply List.Vector.eq
  rw [toList_zeroFill (by simp)]
  simp

theorem take_zeroFill {n k : ℕ} {l : Bytes} (hl : l.length ≤ n) (hk : k ≤ l.length) :
    (zeroFill n l).toList.take k = l.take k := by
  rw [toList_zeroFill hl, List.take_append_of_le_length hk]

theorem take_length_zeroFill {n : ℕ} {l : Bytes} (hl : l.length ≤ n) :
    (zeroFill n l).toList.take l.length = l := by
  rw [take_zeroFill hl le_rfl, List.take_length]

theorem take_zeroFill_of_le {n k : ℕ} {l : Bytes} (hl : l.length ≤ k) (hk : k ≤ n) :
    (zeroFill n l).toList.take k = l ++ List.replicate (k - l.length) 0 := by
  rw [toList_zeroFill (hl.trans hk), List.take_append, List.take_of_length_le hl,
    List.take_replicate]
  congr 2
  omega

theorem zeroFill_take_zeroFill {m n k : ℕ} {l : Bytes} (hl : l.length ≤ k) (hkm : k ≤ m)
    (hkn : k ≤ n) : zeroFill n ((zeroFill m l).toList.take k) = zeroFill n l := by
  apply List.Vector.eq
  have hlen : (l ++ List.replicate (k - l.length) (0 : UInt8)).length = k := by
    rw [List.length_append, List.length_replicate]
    omega
  rw [take_zeroFill_of_le hl hkm, toList_zeroFill (hlen.trans_le hkn),
    toList_zeroFill (hl.trans hkn), hlen, List.append_assoc, List.replicate_append_replicate]
  congr 2
  omega

theorem take_zeroFill_of_length {n k : ℕ} {l : Bytes} (hl : l.length = k) (hk : k ≤ n) :
    (zeroFill n l).toList.take k = l := by
  subst hl
  exact take_length_zeroFill hk

/-- The first `k` bytes of an array, the rest of it cleared. -/
def keep {n : ℕ} (k : ℕ) (b : Block n) : Block n := zeroFill n (b.toList.take k)

def cstr (p : Bytes) : Bytes := p.takeWhile (· ≠ 0)

theorem cstr_eq_self {p : Bytes} (h : 0 ∉ p) : cstr p = p := by
  rw [cstr, List.takeWhile_eq_self_iff]
  intro b hb
  simpa using fun h0 : b = 0 => h (h0 ▸ hb)

end Bytes
