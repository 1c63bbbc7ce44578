/-
Lists whose elements know where they stand (`lib/smartlist_core/smartlist_core.c`).

An element is deleted from a smartlist by moving the last one into its place.
`Indexed l idx` says that `idx` is the place of every element of `l`; it follows that
no element stands twice in the list.
-/
import Mathlib.Data.Int.Notation
import Mathlib.Data.List.Nodup
import Mathlib.Data.List.Perm.Basic
import Mathlib.Logic.Function.Basic
import Mathlib.Tactic.Common

namespace Smartlist

variable {α : Type*}

def smartlistDel (l : List α) (i : ℕ) : List α :=
  match l.getLast? with
  | none => l
  | some x => (l.set i x).dropLast

theorem length_smartlistDel (l : List α) (i : ℕ) : (smartlistDel l i).length = l.length - 1 := by
  rw [smartlistDel]
  split
  · rename_i h
    rw [List.getLast?_eq_none_iff.mp h]
    rfl
  · rw [List.length_dropLast, List.length_set]

theorem getElem?_smartlistDel {l : List α} {i j : ℕ} (hj : j < l.length - 1) :
    (smartlistDel l i)[j]? = if j = i then l.getLast? else l[j]? := by
  have hlast : l.getLast? = l[l.length - 1]? := List.getLast?_eq_getElem?
  rw [smartlistDel, hlast, List.getElem?_eq_getElem (show l.length - 1 < l.length by omega)]
  simp only
  rw [List.getElem?_dropLast, List.length_set, if_pos hj, List.getElem?_set]
  by_cases hij : i = j
  · subst hij
    rw [if_pos rfl, if_pos (by omega), if_pos rfl]
  · rw [if_neg hij, if_neg fun h => hij h.symm]

theorem perm_smartlistDel {l : List α} {i : ℕ} {x : α} (h : l[i]? = some x) :
    l.Perm (x :: smartlistDel l i) := by
  rcases List.eq_nil_or_concat l with rfl | ⟨l', y, rfl⟩
  · exact absurd h (by simp)
  · rw [List.concat_eq_append] at h ⊢
    rw [smartlistDel, List.getLast?_append_of_ne_nil _ (by simp)]
    simp only [List.getLast?_singleton]
    by_cases hi : i < l'.length
    · rw [List.set_append_left _ _ hi, List.dropLast_concat]
      have hx : x = l'[i] := by
        rw [List.getElem?_append_left hi, List.getElem?_eq_getElem hi] at h
        exact (Option.some_inj.mp h).symm
      have hset : (x :: l'.set i y).Perm (y :: l') := by
        refine ((List.set_perm_cons_eraseIdx hi y).cons x).trans ((List.Perm.swap y x _).trans ?_)
        rw [hx]
        exact (List.getElem_cons_eraseIdx_perm hi).cons y
      exact (List.perm_append_singleton y l').trans hset.symm
    · have hlen : i = l'.length := by
        have hlt := (List.getElem?_eq_some_iff.mp h).1
        rw [List.length_append, List.length_singleton] at hlt
        omega
      subst hlen
      have hxy : y = x := by simpa using h
      rw [hxy, List.set_append_right _ _ (Nat.le_refl _), Nat.sub_self, List.set_cons_zero,
        List.dropLast_concat]
      exact List.perm_append_singleton x l'

theorem mem_smartlistDel {l : List α} {i : ℕ} {x y : α} (h : l[i]? = some x) (hne : y ≠ x) :
    y ∈ smartlistDel l i ↔ y ∈ l := by
  rw [(perm_smartlistDel h).mem_iff, List.mem_cons]
  simp [hne]

theorem nodup_smartlistDel {l : List α} {i : ℕ} (h : l.Nodup) : (smartlistDel l i).Nodup := by
  rcases hi : l[i]? with _ | x
  · have hlen : l.length ≤ i := List.getElem?_eq_none_iff.mp hi
    rw [smartlistDel]
    split
    · exact h
    · rw [List.set_eq_of_length_le hlen]
      exact h.sublist l.dropLast_sublist
  · exact (List.nodup_cons.mp ((perm_smartlistDel hi).nodup_iff.mp h)).2

variable [DecidableEq α]

/-- `smartlist_remove`: the last element is moved to every place where `x` stands, and the
place is looked at again.  A step either goes on or shortens the list. -/
def removeFrom (x : α) : ℕ → ℕ → List α → List α
  | 0, _, l => l
  | n + 1, i, l =>
    if l[i]? = some x then removeFrom x n i (smartlistDel l i)
    else removeFrom x n (i + 1) l

def smartlistRemove (l : List α) (x : α) : List α := removeFrom x l.length 0 l

theorem mem_removeFrom {x y : α} {n : ℕ} : ∀ {i : ℕ} {l : List α}, l.length ≤ n + i →
    (∀ j < i, l[j]? ≠ some x) → (y ∈ removeFrom x n i l ↔ y ∈ l ∧ y ≠ x) := by
  -- The measure is the part of the list that has not been looked at.
  induction n with
  | zero =>
    intro i l hlen hbefore
    rw [removeFrom]
    constructor
    · intro hy
      refine ⟨hy, ?_⟩
      rintro rfl
      obtain ⟨j, hj⟩ := List.mem_iff_getElem?.mp hy
      have hlt := (List.getElem?_eq_some_iff.mp hj).1
      exact hbefore j (by omega) hj
    · exact fun hy => hy.1
  | succ n ih =>
    intro i l hlen hbefore
    rw [removeFrom]
    by_cases hi : l[i]? = some x
    · have hlt := (List.getElem?_eq_some_iff.mp hi).1
      have hlen' := length_smartlistDel l i
      rw [if_pos hi, ih (by omega)]
      · constructor
        · rintro ⟨hy, hne⟩
          exact ⟨(mem_smartlistDel hi hne).mp hy, hne⟩
        · rintro ⟨hy, hne⟩
          exact ⟨(mem_smartlistDel hi hne).mpr hy, hne⟩
      · intro j hj hx
        have hjl : j < l.length - 1 := by
          have := (List.getElem?_eq_some_iff.mp hx).1
          omega
        rw [getElem?_smartlistDel hjl, if_neg (by omega)] at hx
        exact hbefore j hj hx
    · rw [if_neg hi, ih (by omega)]
      intro j hj hx
      rcases Nat.lt_succ_iff_lt_or_eq.mp hj with hlt | rfl
      · exact hbefore j hlt hx
      · exact hi hx

theorem nodup_removeFrom {x : α} {n : ℕ} : ∀ {i : ℕ} {l : List α}, l.Nodup →
    (removeFrom x n i l).Nodup := by
  induction n with
  | zero => exact fun h => h
  | succ n ih =>
    intro i l h
    rw [removeFrom]
    split
    · exact ih (nodup_smartlistDel h)
    · exact ih h

theorem nodup_smartlistRemove {l : List α} {x : α} (h : l.Nodup) : (smartlistRemove l x).Nodup :=
  nodup_removeFrom h

theorem mem_smartlistRemove {l : List α} {x y : α} :
    y ∈ smartlistRemove l x ↔ y ∈ l ∧ y ≠ x :=
  mem_removeFrom (Nat.le_refl _) fun _ hj => absurd hj (Nat.not_lt_zero _)

/-! ### Places -/

/-- `idx` is the place of every element of the list. -/
def Indexed (l : List α) (idx : α → ℤ) : Prop := ∀ (i : ℕ) x, l[i]? = some x → idx x = i

/-- The places after the deletion at `i`: the element that has been moved there gets it. -/
def delIdx (l : List α) (i : ℕ) (idx : α → ℤ) : α → ℤ :=
  match (smartlistDel l i)[i]? with
  | none => idx
  | some y => Function.update idx y i

omit [DecidableEq α] in
theorem Indexed.nodup {l : List α} {idx : α → ℤ} (h : Indexed l idx) : l.Nodup := by
  rw [List.nodup_iff_getElem?_ne_getElem?]
  intro i j hij hj heq
  obtain ⟨x, hx⟩ : ∃ x, l[j]? = some x := ⟨_, List.getElem?_eq_getElem hj⟩
  have hi := h i x (heq.trans hx)
  have hj := h j x hx
  omega

omit [DecidableEq α] in
theorem Indexed.getElem? {l : List α} {idx : α → ℤ} (h : Indexed l idx) {x : α} (hx : x ∈ l) :
    ∃ i : ℕ, idx x = i ∧ l[i]? = some x := by
  obtain ⟨i, hi⟩ := List.mem_iff_getElem?.mp hx
  exact ⟨i, h i x hi, hi⟩

omit [DecidableEq α] in
theorem Indexed.congr {l : List α} {idx idx' : α → ℤ} (h : Indexed l idx)
    (heq : ∀ x ∈ l, idx' x = idx x) : Indexed l idx' := by
  intro i x hx
  rw [heq x (List.mem_of_getElem? hx)]
  exact h i x hx

theorem Indexed.append {l : List α} {idx : α → ℤ} (h : Indexed l idx) {x : α} (hx : x ∉ l) :
    Indexed (l ++ [x]) (Function.update idx x l.length) := by
  intro i y hy
  by_cases hi : i < l.length
  · rw [List.getElem?_append_left hi] at hy
    have hne : y ≠ x := by
      rintro rfl
      exact hx (List.mem_of_getElem? hy)
    rw [Function.update_of_ne hne]
    exact h i y hy
  · have hlt := (List.getElem?_eq_some_iff.mp hy).1
    rw [List.length_append, List.length_singleton] at hlt
    obtain rfl : i = l.length := by omega
    rw [List.getElem?_append_right (Nat.le_refl _), Nat.sub_self] at hy
    obtain rfl : x = y := by simpa using hy
    rw [Function.update_self]

theorem Indexed.del {l : List α} {idx : α → ℤ} (h : Indexed l idx) {i : ℕ} {x : α}
    (hx : l[i]? = some x) :
    Indexed (smartlistDel l i) (delIdx l i idx) ∧ x ∉ smartlistDel l i := by
  have hnodup : (x :: smartlistDel l i).Nodup := (perm_smartlistDel hx).nodup_iff.mp h.nodup
  have hx' : x ∉ smartlistDel l i := (List.nodup_cons.mp hnodup).1
  refine ⟨?_, hx'⟩
  intro j y hy
  have hj : j < l.length - 1 := by
    rw [← length_smartlistDel l i]
    exact (List.getElem?_eq_some_iff.mp hy).1
  by_cases hji : j = i
  · subst hji
    rw [delIdx, hy]
    exact Function.update_self ..
  · have hyl := hy
    rw [getElem?_smartlistDel hj, if_neg hji] at hyl
    rw [delIdx]
    rcases hmoved : (smartlistDel l i)[i]? with _ | z
    · exact h j y hyl
    · have hne : y ≠ z := by
        rintro rfl
        -- An element that stood at two places of what is left would stand there twice.
        have hi := (List.getElem?_eq_some_iff.mp hmoved).1
        have hij : i = j :=
          (List.getElem?_inj hi (List.nodup_cons.mp hnodup).2).mp (hmoved.trans hy.symm)
        exact hji hij.symm
      simp only
      rw [Function.update_of_ne hne]
      exact h j y hyl

end Smartlist
