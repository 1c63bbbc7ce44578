/-
Computations that remember whether they overflowed.

An operation of C has a value in its type, and it is sound or not: a result that is out of range is
wrapped, a quotient by zero is zero, and either is marked.  A computation is sound where all of its
operations are, and then its value is that of the same formula over the integers.
-/
import LibEltor.Word

open Word

/-- A value, and whether everything it was computed from is exact. -/
structure Checked (α : Type) where
  value : α
  ok : Bool

namespace Checked

variable {α β : Type}

instance : Monad Checked where
  pure a := ⟨a, true⟩
  bind x f := ⟨(f x.value).value, x.ok && (f x.value).ok⟩

@[simp] theorem value_pure (a : α) : (pure a : Checked α).value = a := rfl

@[simp] theorem ok_pure (a : α) : (pure a : Checked α).ok = true := rfl

@[simp] theorem value_bind (x : Checked α) (f : α → Checked β) :
    (x >>= f).value = (f x.value).value := rfl

@[simp] theorem ok_bind (x : Checked α) (f : α → Checked β) :
    (x >>= f).ok = (x.ok && (f x.value).ok) := rfl

/-- A conversion to an unsigned type of `w` bits. -/
def toUnsigned (w : ℕ) (x : ℤ) : Checked ℕ := ⟨wrap w x, 0 ≤ x && x < 2 ^ w⟩

def addUnsigned (w a b : ℕ) : Checked ℕ := ⟨wrap w (a + b : ℕ), a + b < 2 ^ w⟩

def mulUnsigned (w a b : ℕ) : Checked ℕ := ⟨wrap w (a * b : ℕ), a * b < 2 ^ w⟩

def divUnsigned (a b : ℕ) : Checked ℕ := ⟨a / b, b ≠ 0⟩

def mulSigned (w : ℕ) (a b : ℤ) : Checked ℤ :=
  ⟨(a * b).bmod (2 ^ w), -2 ^ (w - 1) ≤ a * b && a * b < 2 ^ (w - 1)⟩

def divSigned (w : ℕ) (a b : ℤ) : Checked ℤ :=
  ⟨a.tdiv b, b ≠ 0 && !(a = -2 ^ (w - 1) && b = -1)⟩

theorem toUnsigned_eq {w : ℕ} {x : ℤ} (h0 : 0 ≤ x) (h : x < 2 ^ w) :
    toUnsigned w x = ⟨x.toNat, true⟩ := by
  have hstored : wrap w x = x.toNat := by
    rw [wrap, Int.emod_eq_of_lt h0 h]
  simp [toUnsigned, hstored, h0, h]

theorem addUnsigned_eq {w a b : ℕ} (h : a + b < 2 ^ w) : addUnsigned w a b = ⟨a + b, true⟩ := by
  rw [addUnsigned, wrap_natCast h, decide_eq_true h]

theorem mulUnsigned_eq {w a b : ℕ} (h : a * b < 2 ^ w) : mulUnsigned w a b = ⟨a * b, true⟩ := by
  rw [mulUnsigned, wrap_natCast h, decide_eq_true h]

theorem divUnsigned_eq (a : ℕ) {b : ℕ} (h : b ≠ 0) : divUnsigned a b = ⟨a / b, true⟩ := by
  rw [divUnsigned, decide_eq_true h]

theorem divSigned_eq {w : ℕ} {a b : ℤ} (ha : 0 ≤ a) (hb : 0 < b) :
    divSigned w a b = ⟨a / b, true⟩ := by
  rw [divSigned, Int.tdiv_eq_ediv_of_nonneg ha]
  simp [hb.ne']
  omega

theorem mulSigned_eq {w : ℕ} {a b : ℤ} (h0 : 0 ≤ a * b) (h : a * b < 2 ^ (w - 1)) (hw : 1 ≤ w) :
    mulSigned w a b = ⟨a * b, true⟩ := by
  have hpow : (2 : ℤ) ^ w = 2 * 2 ^ (w - 1) := by
    rw [← pow_succ', Nat.sub_add_cancel hw]
  have hpos : (0 : ℤ) < 2 ^ (w - 1) := by positivity
  have hvalue : (a * b).bmod (2 ^ w) = a * b := by
    refine Int.bmod_eq_of_le ?_ ?_
    all_goals
      push_cast
      omega
  rw [mulSigned, hvalue, decide_eq_true h, decide_eq_true (by omega)]
  rfl

end Checked
