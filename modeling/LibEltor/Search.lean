/-
First occurrences of a word in a list.

`memmem needle hay` is the position of the first occurrence of `needle`, the
way `memmem(3)` reports it.  The two facts the rest of the development needs:

* `memmem_eq_some` / `memmem_eq_none` — the result is the least position at
  which `needle` is a prefix of what is left;
* `memmem_append_of_unbordered` — a word without a border (no proper suffix of
  it is a prefix of it) is found exactly where it was appended, unless it
  already occurs in what stands before.
-/
import Mathlib.Data.List.Basic
import Mathlib.Data.List.Infix
import Mathlib.Tactic.Common

namespace ListSearch

variable {α : Type*} [DecidableEq α]

/-- Position of the first occurrence of `needle`, if there is one. -/
def memmem (needle : List α) : List α → Option ℕ
  | [] => if needle = [] then some 0 else none
  | x :: xs =>
    if needle <+: x :: xs then some 0 else (memmem needle xs).map (· + 1)

theorem memmem_of_isPrefix {needle hay : List α} (h : needle <+: hay) :
    memmem needle hay = some 0 := by
  cases hay with
  | nil => simp [memmem, List.prefix_nil.mp h]
  | cons x xs => rw [memmem, if_pos h]

theorem memmem_cons_of_not_isPrefix {needle xs : List α} {x : α}
    (h : ¬ needle <+: x :: xs) :
    memmem needle (x :: xs) = (memmem needle xs).map (· + 1) := by
  rw [memmem, if_neg h]

/-- The reported position is the least one at which `needle` stands. -/
theorem memmem_eq_some {needle : List α} (hne : needle ≠ []) :
    ∀ {hay : List α} {i : ℕ}, memmem needle hay = some i ↔
      needle <+: hay.drop i ∧ ∀ j < i, ¬ needle <+: hay.drop j := by
  intro hay
  induction hay with
  | nil =>
    intro i
    simp [memmem, hne]
  | cons x xs ih =>
    intro i
    by_cases hp : needle <+: x :: xs
    · rw [memmem_of_isPrefix hp, Option.some_inj]
      constructor
      · rintro rfl
        exact ⟨hp, fun j hj => absurd hj (Nat.not_lt_zero j)⟩
      · rintro ⟨-, hmin⟩
        rcases i with _ | i
        · rfl
        · exact absurd hp (hmin 0 (Nat.succ_pos i))
    · rw [memmem_cons_of_not_isPrefix hp, Option.map_eq_some_iff]
      constructor
      · rintro ⟨k, hk, rfl⟩
        obtain ⟨h1, h2⟩ := ih.mp hk
        refine ⟨by simpa using h1, fun j hj => ?_⟩
        rcases j with _ | j
        · exact hp
        · simpa using h2 j (by omega)
      · rintro ⟨h1, h2⟩
        rcases i with _ | i
        · exact absurd h1 hp
        · refine ⟨i, ih.mpr ⟨by simpa using h1, fun j hj => ?_⟩, rfl⟩
          simpa using h2 (j + 1) (by omega)

theorem memmem_eq_none {needle : List α} (hne : needle ≠ []) :
    ∀ {hay : List α}, memmem needle hay = none ↔ ∀ i, ¬ needle <+: hay.drop i := by
  intro hay
  induction hay with
  | nil => simp [memmem, hne]
  | cons x xs ih =>
    by_cases hp : needle <+: x :: xs
    · rw [memmem_of_isPrefix hp]
      constructor
      · intro h
        exact absurd h (by simp)
      · intro h
        exact absurd hp (h 0)
    · rw [memmem_cons_of_not_isPrefix hp, Option.map_eq_none_iff, ih]
      constructor
      · intro h i
        rcases i with _ | i
        · exact hp
        · simpa using h i
      · intro h i
        simpa using h (i + 1)

/-- Every position at which `needle` stands is at or after the reported one. -/
theorem memmem_le_of_prefix_drop {needle : List α} (hne : needle ≠ []) {hay : List α}
    {i : ℕ} (h : needle <+: hay.drop i) : ∃ k ≤ i, memmem needle hay = some k := by
  cases hm : memmem needle hay with
  | none => exact absurd h ((memmem_eq_none hne).mp hm i)
  | some k =>
    refine ⟨k, ?_, rfl⟩
    by_contra hk
    exact ((memmem_eq_some hne).mp hm).2 i (by omega) h

omit [DecidableEq α] in
theorem infix_iff_prefix_drop {needle hay : List α} :
    needle <:+: hay ↔ ∃ i, needle <+: hay.drop i := by
  constructor
  · rintro ⟨s, t, rfl⟩
    exact ⟨s.length, by simp⟩
  · rintro ⟨i, hi⟩
    exact hi.isInfix.trans (List.drop_suffix i hay).isInfix

def Unbordered (w : List α) : Prop :=
  ∀ k < w.length, 0 < k → ¬ w.drop k <+: w

instance (w : List α) : Decidable (Unbordered w) :=
  inferInstanceAs (Decidable (∀ k < w.length, 0 < k → ¬ w.drop k <+: w))

omit [DecidableEq α] in
/-- An unbordered word appended to `m` cannot begin to stand inside `m`, unless
it stands there whole. -/
theorem not_prefix_drop_append {w m p : List α} (hw : Unbordered w)
    (hm : ¬ w <:+: m) {j : ℕ} (hj : j < m.length) :
    ¬ w <+: (m ++ w ++ p).drop j := by
  intro h
  have hdrop : (m ++ w ++ p).drop j = m.drop j ++ (w ++ p) := by
    rw [List.append_assoc, List.drop_append_of_le_length hj.le]
  rw [hdrop] at h
  have hlen : (m.drop j).length = m.length - j := List.length_drop
  by_cases hd : w.length ≤ m.length - j
  · -- `w` fits in the rest of `m`.
    have hpre : w <+: m.drop j :=
      List.prefix_of_prefix_length_le h (List.prefix_append _ _) (by omega)
    exact hm (infix_iff_prefix_drop.mpr ⟨j, hpre⟩)
  · -- `w` runs over the end of `m`: its tail is then a prefix of `w`.
    have hpre : m.drop j <+: w :=
      List.prefix_of_prefix_length_le (List.prefix_append _ _) h (by omega)
    obtain ⟨v, hv⟩ := hpre
    rw [← hv, List.append_assoc, List.prefix_append_right_inj, ← List.append_assoc, hv] at h
    have hvw : v <+: w := by
      refine List.prefix_of_prefix_length_le h (List.prefix_append _ _) ?_
      rw [← hv, List.length_append]
      omega
    have hvd : v = w.drop (m.length - j) := by
      rw [← hlen]
      conv_rhs => rw [← hv]
      rw [List.drop_left]
    exact hw (m.length - j) (by omega) (by omega) (hvd ▸ hvw)

theorem memmem_append_of_unbordered {w m p : List α} (hne : w ≠ [])
    (hw : Unbordered w) (hm : ¬ w <:+: m) :
    memmem w (m ++ w ++ p) = some m.length := by
  rw [memmem_eq_some hne]
  refine ⟨?_, fun j hj => not_prefix_drop_append hw hm hj⟩
  rw [List.append_assoc, List.drop_left]
  exact List.prefix_append _ _

theorem memmem_eq_none_of_not_infix {w m : List α} (hne : w ≠ []) (hm : ¬ w <:+: m) :
    memmem w m = none :=
  (memmem_eq_none hne).mpr fun i hi => hm (infix_iff_prefix_drop.mpr ⟨i, hi⟩)

end ListSearch
