/-
Unsigned integers of C.

An expression is computed over the integers and converted where C stores it
(`wrap`).  A conversion that changes nothing is one of a value in range
(`wrap_of_mem`).  The remainders of C are partial: a divisor of zero has none.
-/
import Mathlib.Data.Int.ModEq
import Mathlib.Tactic.Positivity
import Mathlib.Tactic.Zify

namespace Word

/-- The value of `x` in an unsigned type of `w` bits. -/
def wrap (w : ℕ) (x : ℤ) : ℕ := (x % 2 ^ w).toNat

abbrev u8 (x : ℤ) : ℕ := wrap 8 x
abbrev u16 (x : ℤ) : ℕ := wrap 16 x
abbrev u32 (x : ℤ) : ℕ := wrap 32 x
abbrev u64 (x : ℤ) : ℕ := wrap 64 x

theorem wrap_lt (w : ℕ) (x : ℤ) : wrap w x < 2 ^ w := by
  have hpos : (0 : ℤ) < 2 ^ w := by positivity
  have hlt := Int.emod_lt_of_pos x hpos
  have hnn := Int.emod_nonneg x hpos.ne'
  unfold wrap
  zify
  rwa [Int.toNat_of_nonneg hnn]

theorem wrap_of_mem {w : ℕ} {x : ℤ} (h0 : 0 ≤ x) (h1 : x < 2 ^ w) : (wrap w x : ℤ) = x := by
  rw [wrap, Int.emod_eq_of_lt h0 h1, Int.toNat_of_nonneg h0]

theorem u64_of_mem {x : ℤ} (h0 : 0 ≤ x) (h1 : x < 2 ^ 64) : (u64 x : ℤ) = x := wrap_of_mem h0 h1

theorem wrap_natCast {w n : ℕ} (h : n < 2 ^ w) : wrap w n = n := by
  have hz : (wrap w n : ℤ) = n := wrap_of_mem (Int.natCast_nonneg n) (by exact_mod_cast h)
  exact_mod_cast hz

theorem wrap_le {w : ℕ} {x : ℤ} (h0 : 0 ≤ x) : (wrap w x : ℤ) ≤ x := by
  have hpos : (0 : ℤ) < 2 ^ w := by positivity
  rw [wrap, Int.toNat_of_nonneg (Int.emod_nonneg x hpos.ne')]
  rw [Int.emod_def]
  have := Int.mul_nonneg hpos.le (Int.ediv_nonneg h0 hpos.le)
  omega

theorem wrap_natCast_le (w n : ℕ) : wrap w n ≤ n := by
  exact_mod_cast wrap_le (w := w) (Int.natCast_nonneg n)

/-- A share of `c` is at most `c`, also where the product wraps. -/
theorem wrap_mul_div_le (w : ℕ) {a b c : ℕ} (hb : 0 < b) (h : a ≤ b) :
    wrap w ((c : ℤ) * a) / b ≤ c := by
  have hstored : wrap w ((c : ℤ) * a) ≤ c * a := by
    exact_mod_cast wrap_natCast_le w (c * a)
  calc wrap w ((c : ℤ) * a) / b
      ≤ c * a / b := Nat.div_le_div_right hstored
    _ ≤ c * b / b := Nat.div_le_div_right (Nat.mul_le_mul_left c h)
    _ = c := Nat.mul_div_cancel c hb

def umod (a b : ℕ) : Option ℕ := if b = 0 then none else some (a % b)

def imod (a b : ℤ) : Option ℤ := if b = 0 then none else some (a.tmod b)

end Word
