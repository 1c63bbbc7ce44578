/-
Formulas in a signed type.

A formula is a sequence of operations, each on what those before it resulted in.  It is run in a
type of `w` bits, in which a result that is out of range wraps, or it is read over the integers
(`value`).  Nothing overflows in a run exactly if all results over the integers are in range (`Fits`),
and then both have the same outcome.
-/
import Mathlib.Tactic.Linarith
import LibEltor.Checked

inductive ArithOp
  | add
  | sub
  | mul
  | div
deriving DecidableEq, Repr

/-- The values of a signed type of `w` bits. -/
def InSigned (w : ℕ) (x : ℤ) : Prop := -2 ^ (w - 1) ≤ x ∧ x < 2 ^ (w - 1)

instance (w : ℕ) (x : ℤ) : Decidable (InSigned w x) := inferInstanceAs (Decidable (_ ∧ _))

theorem InSigned.bmod_eq {w : ℕ} {x : ℤ} (hw : 1 ≤ w) (h : InSigned w x) : x.bmod (2 ^ w) = x := by
  obtain ⟨hlow, hhigh⟩ := h
  have hpow : (2 : ℤ) ^ w = 2 * 2 ^ (w - 1) := by
    rw [← pow_succ', Nat.sub_add_cancel hw]
  refine Int.bmod_eq_of_le ?_ ?_
  all_goals
    push_cast
    omega

/-! ### Quotients that are rounded towards zero -/

theorem mul_tdiv_le {x k c : ℤ} (hx : 0 ≤ x) (hc : 0 ≤ c) (hk : c ≤ k) : c * x.tdiv k ≤ x := by
  have hquot : 0 ≤ x.tdiv k := Int.tdiv_nonneg hx (hc.trans hk)
  have hrem : 0 ≤ x.tmod k := Int.tmod_nonneg k hx
  calc c * x.tdiv k
      ≤ k * x.tdiv k := mul_le_mul_of_nonneg_right hk hquot
    _ ≤ k * x.tdiv k + x.tmod k := le_add_of_nonneg_right hrem
    _ = x := Int.mul_tdiv_add_tmod x k

theorem two_mul_tdiv_two (x : ℤ) : x - 1 ≤ 2 * x.tdiv 2 ∧ 2 * x.tdiv 2 ≤ x + 1 := by
  have hdiv := Int.mul_tdiv_add_tmod x 2
  have hlow := Int.lt_tmod_of_pos x (b := 2) (by decide)
  have hhigh := Int.tmod_lt_of_pos x (b := 2) (by decide)
  omega

theorem tdiv_add_tdiv {x y k s : ℤ} (hk : 0 < k) (h : x + y = s * k) :
    s - 2 < x.tdiv k + y.tdiv k ∧ x.tdiv k + y.tdiv k < s + 2 := by
  have hx := Int.mul_tdiv_add_tmod x k
  have hy := Int.mul_tdiv_add_tmod y k
  have hx1 := Int.lt_tmod_of_pos x hk
  have hx2 := Int.tmod_lt_of_pos x hk
  have hy1 := Int.lt_tmod_of_pos y hk
  have hy2 := Int.tmod_lt_of_pos y hk
  have hsum : (x.tdiv k + y.tdiv k) * k = s * k - x.tmod k - y.tmod k := by
    rw [← h, add_mul, mul_comm _ k, mul_comm _ k]
    omega
  refine ⟨lt_of_mul_lt_mul_right ?_ hk.le, lt_of_mul_lt_mul_right ?_ hk.le⟩
  · rw [hsum, sub_mul]
    omega
  · rw [hsum, add_mul]
    omega

theorem InSigned.of_mul {w : ℕ} {s x : ℤ} (hs : 1 ≤ s) (h : InSigned w (s * x)) : InSigned w x := by
  obtain ⟨hlow, hhigh⟩ := h
  rcases le_total 0 x with hx | hx
  · have hle : x ≤ s * x := le_mul_of_one_le_left hx hs
    have hpow : (0 : ℤ) < 2 ^ (w - 1) := by positivity
    exact ⟨by linarith only [hx, hpow], hle.trans_lt hhigh⟩
  · have hle : s * x ≤ x := by
      have hneg := le_mul_of_one_le_left (neg_nonneg.mpr hx) hs
      rw [mul_neg] at hneg
      exact neg_le_neg_iff.mp hneg
    exact ⟨hlow.trans hle, hx.trans_lt (by positivity)⟩

theorem InSigned.tdiv {w : ℕ} {x k : ℤ} (h : InSigned w x) (hk : 1 ≤ k) :
    InSigned w (x.tdiv k) := by
  obtain ⟨hlow, hhigh⟩ := h
  have hk0 : 0 ≤ k := zero_le_one.trans hk
  rcases le_total 0 x with hx | hx
  · have hle := mul_tdiv_le hx zero_le_one hk
    have hnonneg : 0 ≤ x.tdiv k := Int.tdiv_nonneg hx hk0
    rw [one_mul] at hle
    exact ⟨by linarith only [hx, hnonneg, hlow, hhigh], hle.trans_lt hhigh⟩
  · have hle := mul_tdiv_le (neg_nonneg.mpr hx) zero_le_one hk
    have hnonneg : 0 ≤ (-x).tdiv k := Int.tdiv_nonneg (neg_nonneg.mpr hx) hk0
    rw [Int.neg_tdiv] at hle hnonneg
    exact ⟨by linarith only [hle, hlow], by linarith only [hnonneg, hx, hlow, hhigh]⟩

namespace ArithOp

def eval : ArithOp → ℤ → ℤ → ℤ
  | add, a, b => a + b
  | sub, a, b => a - b
  | mul, a, b => a * b
  | div, a, b => a.tdiv b

def Fits (w : ℕ) (o : ArithOp) (a b : ℤ) : Prop := (o = div → b ≠ 0) ∧ InSigned w (o.eval a b)

instance (w : ℕ) (o : ArithOp) (a b : ℤ) : Decidable (o.Fits w a b) :=
  inferInstanceAs (Decidable (_ ∧ _))

def run (w : ℕ) (o : ArithOp) (a b : ℤ) : Checked ℤ :=
  ⟨(o.eval a b).bmod (2 ^ w), decide (o.Fits w a b)⟩

end ArithOp

inductive Formula (α : Type) : Type
  | done (a : α)
  | op (o : ArithOp) (a b : ℤ) (next : ℤ → Formula α)

namespace Formula

variable {α β : Type}

def bind : Formula α → (α → Formula β) → Formula β
  | done a, f => f a
  | op o a b next, f => op o a b fun r => (next r).bind f

instance : Monad Formula where
  pure := done
  bind := bind

def add (a b : ℤ) : Formula ℤ := op .add a b done

def sub (a b : ℤ) : Formula ℤ := op .sub a b done

def mul (a b : ℤ) : Formula ℤ := op .mul a b done

def div (a b : ℤ) : Formula ℤ := op .div a b done

/-! ### Over the integers -/

def value : Formula α → α
  | done a => a
  | op o a b next => (next (o.eval a b)).value

def Fits (w : ℕ) : Formula α → Prop
  | done _ => True
  | op o a b next => o.Fits w a b ∧ (next (o.eval a b)).Fits w

@[simp] theorem value_pure (a : α) : (pure a : Formula α).value = a := by rfl

@[simp] theorem value_bind (p : Formula α) (f : α → Formula β) :
    (p >>= f).value = (f p.value).value := by
  change (p.bind f).value = _
  induction p with
  | done a => rfl
  | op o a b next ih => exact ih (o.eval a b)

@[simp] theorem value_ite (c : Prop) [Decidable c] (p q : Formula α) :
    (if c then p else q).value = if c then p.value else q.value :=
  apply_ite value c p q

@[simp] theorem value_add (a b : ℤ) : (add a b).value = a + b := by rfl

@[simp] theorem value_sub (a b : ℤ) : (sub a b).value = a - b := by rfl

@[simp] theorem value_mul (a b : ℤ) : (mul a b).value = a * b := by rfl

@[simp] theorem value_div (a b : ℤ) : (div a b).value = a.tdiv b := by rfl

@[simp] theorem fits_pure (w : ℕ) (a : α) : (pure a : Formula α).Fits w := trivial

@[simp] theorem fits_bind (w : ℕ) (p : Formula α) (f : α → Formula β) :
    (p >>= f).Fits w ↔ p.Fits w ∧ (f p.value).Fits w := by
  change (p.bind f).Fits w ↔ _
  induction p with
  | done a => exact ⟨fun h => ⟨trivial, h⟩, And.right⟩
  | op o a b next ih => exact (and_congr_right' (ih (o.eval a b))).trans and_assoc.symm

@[simp] theorem fits_ite (w : ℕ) (c : Prop) [Decidable c] (p q : Formula α) :
    (if c then p else q).Fits w ↔ if c then p.Fits w else q.Fits w :=
  iff_of_eq (apply_ite (Fits w) c p q)

@[simp] theorem fits_add (w : ℕ) (a b : ℤ) : (add a b).Fits w ↔ InSigned w (a + b) := by
  simp [add, Fits, ArithOp.Fits, ArithOp.eval]

@[simp] theorem fits_sub (w : ℕ) (a b : ℤ) : (sub a b).Fits w ↔ InSigned w (a - b) := by
  simp [sub, Fits, ArithOp.Fits, ArithOp.eval]

@[simp] theorem fits_mul (w : ℕ) (a b : ℤ) : (mul a b).Fits w ↔ InSigned w (a * b) := by
  simp [mul, Fits, ArithOp.Fits, ArithOp.eval]

@[simp] theorem fits_div (w : ℕ) (a b : ℤ) :
    (div a b).Fits w ↔ b ≠ 0 ∧ InSigned w (a.tdiv b) := by
  simp [div, Fits, ArithOp.Fits, ArithOp.eval]

def run (w : ℕ) : Formula α → Checked α
  | done a => pure a
  | op o a b next => o.run w a b >>= fun r => (next r).run w

theorem run_spec {w : ℕ} (hw : 1 ≤ w) (p : Formula α) :
    ((p.run w).ok = true ↔ p.Fits w) ∧ (p.Fits w → (p.run w).value = p.value) := by
  induction p with
  | done a => exact ⟨iff_of_true rfl trivial, fun _ => rfl⟩
  | op o a b next ih =>
    have hok : ((op o a b next).run w).ok =
        (decide (o.Fits w a b) && ((next ((o.eval a b).bmod (2 ^ w))).run w).ok) := rfl
    have hvalue : ((op o a b next).run w).value =
        ((next ((o.eval a b).bmod (2 ^ w))).run w).value := rfl
    by_cases hfits : o.Fits w a b
    · rw [hfits.2.bmod_eq hw] at hok hvalue
      refine ⟨?_, fun h => ?_⟩
      · rw [hok, decide_eq_true hfits, Bool.true_and, (ih (o.eval a b)).1]
        exact (and_iff_right hfits).symm
      · rw [hvalue]
        exact (ih (o.eval a b)).2 h.2
    · refine ⟨iff_of_false ?_ fun h => hfits h.1, fun h => absurd h.1 hfits⟩
      rw [hok, decide_eq_false hfits]
      exact Bool.false_ne_true

theorem run_ok_iff {w : ℕ} (hw : 1 ≤ w) (p : Formula α) : (p.run w).ok = true ↔ p.Fits w :=
  (run_spec hw p).1

theorem run_value {w : ℕ} (hw : 1 ≤ w) {p : Formula α} (h : p.Fits w) :
    (p.run w).value = p.value :=
  (run_spec hw p).2 h

end Formula
