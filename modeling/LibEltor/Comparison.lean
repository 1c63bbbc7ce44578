/-
Comparison functions as C has them: negative, zero or positive.

A comparison is a total preorder on a list if its sign is the opposite for the arguments swapped, and
it is transitive.  One that goes through fields is the order of the lists of these fields.
-/
import Mathlib

namespace Comparison

variable {α β κ : Type*} [LinearOrder κ]

structure Preordered (cmp : α → α → ℤ) (l : List α) : Prop where
  antisymm : ∀ a ∈ l, ∀ b ∈ l, (cmp a b).sign = -(cmp b a).sign
  trans : ∀ a ∈ l, ∀ b ∈ l, ∀ c ∈ l, cmp a b ≤ 0 → cmp b c ≤ 0 → cmp a c ≤ 0

/-- The result of a comparison tells how `x` and `y` are ordered. -/
structure Agrees (r : ℤ) (x y : κ) : Prop where
  neg_iff : r < 0 ↔ x < y
  zero_iff : r = 0 ↔ x = y

theorem Agrees.le_iff {r : ℤ} {x y : κ} (h : Agrees r x y) : r ≤ 0 ↔ x ≤ y := by
  rw [le_iff_lt_or_eq, le_iff_lt_or_eq, h.neg_iff, h.zero_iff]

theorem Agrees.pos_iff {r : ℤ} {x y : κ} (h : Agrees r x y) : 0 < r ↔ y < x := by
  rw [← not_le, ← not_le, h.le_iff]

theorem Agrees.sign_eq {r r' : ℤ} {x y : κ} (h : Agrees r x y) (h' : Agrees r' y x) :
    r.sign = -r'.sign := by
  rcases lt_trichotomy x y with hlt | rfl | hgt
  · rw [Int.sign_eq_neg_one_of_neg (h.neg_iff.mpr hlt), Int.sign_eq_one_of_pos (h'.pos_iff.mpr hlt)]
  · rw [h.zero_iff.mpr rfl, h'.zero_iff.mpr rfl]
    rfl
  · rw [Int.sign_eq_one_of_pos (h.pos_iff.mpr hgt), Int.sign_eq_neg_one_of_neg (h'.neg_iff.mpr hgt)]
    rfl

theorem agrees_of_lt {x y : κ} (h : x < y) : Agrees (-1) x y := ⟨by simpa using h, by simpa using h.ne⟩

theorem agrees_of_gt {x y : κ} (h : y < x) : Agrees 1 x y :=
  ⟨by simpa using h.le, by simpa using h.ne'⟩

theorem agrees_ite (x y : κ) : Agrees (if x < y then -1 else if y < x then 1 else 0) x y := by
  rcases lt_trichotomy x y with hlt | rfl | hgt
  · rw [if_pos hlt]
    exact agrees_of_lt hlt
  · rw [if_neg (lt_irrefl x), if_neg (lt_irrefl x)]
    exact ⟨by simp, by simp⟩
  · rw [if_neg hgt.not_gt, if_pos hgt]
    exact agrees_of_gt hgt

theorem Agrees.cons {r r' : ℤ} {x y : κ} {xs ys : List κ} (h : Agrees r x y)
    (h' : x = y → Agrees r' xs ys) : Agrees (if r ≠ 0 then r else r') (x :: xs) (y :: ys) := by
  by_cases heq : x = y
  · have hr : r = 0 := h.zero_iff.mpr heq
    subst heq
    rw [if_neg (not_not.mpr hr)]
    constructor
    · rw [(h' rfl).neg_iff, List.cons_lt_cons_iff]
      simp
    · rw [(h' rfl).zero_iff, List.cons.injEq]
      simp
  · have hr : r ≠ 0 := fun hr => heq (h.zero_iff.mp hr)
    rw [if_pos hr]
    constructor
    · rw [h.neg_iff, List.cons_lt_cons_iff]
      simp [heq]
    · rw [List.cons.injEq]
      simp [hr, heq]

theorem agrees_nil : Agrees 0 ([] : List κ) [] := ⟨by simp, by simp⟩

theorem Agrees.single {r : ℤ} {x y : κ} (h : Agrees r x y) : Agrees r [x] [y] := by
  have hcons : Agrees (if r ≠ 0 then r else 0) [x] [y] := h.cons fun _ => agrees_nil
  by_cases hr : r = 0
  · rw [hr] at hcons ⊢
    exact hcons
  · rwa [if_pos hr] at hcons

theorem Agrees.tail {r : ℤ} {xs ys : List κ} (h : Agrees r xs ys) (x : κ) :
    Agrees r (x :: xs) (x :: ys) := by
  have hcons : Agrees (if (0 : ℤ) ≠ 0 then 0 else r) (x :: xs) (x :: ys) :=
    Agrees.cons ⟨by simp, by simp⟩ fun _ => h
  rwa [if_neg (not_not.mpr rfl)] at hcons

def ByKey (cmp : α → α → ℤ) (key : α → κ) (l : List α) : Prop :=
  ∀ a ∈ l, ∀ b ∈ l, Agrees (cmp a b) (key a) (key b)

theorem ByKey.preordered {cmp : α → α → ℤ} {key : α → κ} {l : List α} (h : ByKey cmp key l) :
    Preordered cmp l where
  antisymm a ha b hb := (h a ha b hb).sign_eq (h b hb a ha)
  trans a ha b hb c hc hab hbc :=
    (h a ha c hc).le_iff.mpr (((h a ha b hb).le_iff.mp hab).trans ((h b hb c hc).le_iff.mp hbc))

theorem ByKey.subset {cmp : α → α → ℤ} {key : α → κ} {l l' : List α} (h : ByKey cmp key l)
    (hsub : ∀ a ∈ l', a ∈ l) : ByKey cmp key l' :=
  fun a ha b hb => h a (hsub a ha) b (hsub b hb)

theorem Preordered.subset {cmp : α → α → ℤ} {l l' : List α} (h : Preordered cmp l)
    (hsub : ∀ a ∈ l', a ∈ l) : Preordered cmp l' where
  antisymm a ha b hb := h.antisymm a (hsub a ha) b (hsub b hb)
  trans a ha b hb c hc := h.trans a (hsub a ha) b (hsub b hb) c (hsub c hc)

theorem nonneg_of_sign_eq_neg {r r' : ℤ} (h : r.sign = -r'.sign) : r ≤ 0 ↔ 0 ≤ r' := by
  rw [← Int.sign_nonpos_iff, ← Int.sign_nonneg_iff, h]
  omega

theorem Preordered.total {cmp : α → α → ℤ} {l : List α} (h : Preordered cmp l) {a b : α}
    (ha : a ∈ l) (hb : b ∈ l) : cmp a b ≤ 0 ∨ cmp b a ≤ 0 := by
  have hiff := nonneg_of_sign_eq_neg (h.antisymm a ha b hb)
  omega

theorem Preordered.exists_least {cmp : α → α → ℤ} {l : List α} (h : Preordered cmp l)
    (hne : l ≠ []) : ∃ m ∈ l, ∀ a ∈ l, cmp m a ≤ 0 := by
  induction l with
  | nil => exact absurd rfl hne
  | cons x l ih =>
    have hx : x ∈ x :: l := List.mem_cons_self
    have hself : cmp x x ≤ 0 := (h.total hx hx).elim id id
    rcases eq_or_ne l [] with rfl | hl
    · exact ⟨x, hx, fun a ha => by rwa [List.mem_singleton.mp ha]⟩
    · -- the least of the rest, or `x` if it is not above that
      obtain ⟨m, hm, hleast⟩ := ih (h.subset fun a ha => List.mem_cons_of_mem x ha) hl
      have hm' := List.mem_cons_of_mem x hm
      rcases h.total hx hm' with hxm | hmx
      · refine ⟨x, hx, List.forall_mem_cons.mpr ⟨hself, fun a ha => ?_⟩⟩
        exact h.trans x hx m hm' a (List.mem_cons_of_mem x ha) hxm (hleast a ha)
      · exact ⟨m, hm', List.forall_mem_cons.mpr ⟨hmx, hleast⟩⟩

/-- What is documented of `qsort`. -/
structure Sorts (sort : (α → α → ℤ) → List α → List α) : Prop where
  perm : ∀ cmp l, Preordered cmp l → (sort cmp l).Perm l
  sorted : ∀ cmp l, Preordered cmp l → (sort cmp l).Pairwise fun a b => cmp a b ≤ 0

def sortBy (cmp : α → α → ℤ) (l : List α) : List α :=
  (l.attach.mergeSort fun a b => decide (cmp a.1 b.1 ≤ 0)).map Subtype.val

theorem sorts_sortBy : Sorts (@sortBy α) where
  perm cmp l _ := by
    have hperm := (List.mergeSort_perm l.attach fun a b => decide (cmp a.1 b.1 ≤ 0)).map Subtype.val
    rwa [List.attach_map_subtype_val] at hperm
  sorted cmp l h := by
    have htrans : ∀ a b c : {x // x ∈ l}, decide (cmp a.1 b.1 ≤ 0) = true →
        decide (cmp b.1 c.1 ≤ 0) = true → decide (cmp a.1 c.1 ≤ 0) = true := by
      intro a b c hab hbc
      simp only [decide_eq_true_eq] at hab hbc ⊢
      exact h.trans _ a.2 _ b.2 _ c.2 hab hbc
    have htotal : ∀ a b : {x // x ∈ l},
        (decide (cmp a.1 b.1 ≤ 0) || decide (cmp b.1 a.1 ≤ 0)) = true := by
      intro a b
      simpa using h.total a.2 b.2
    have hsorted := List.pairwise_mergeSort htrans htotal l.attach
    refine List.pairwise_map.mpr (hsorted.imp fun hab => ?_)
    simpa using hab

theorem Sorts.replace {sort : (α → α → ℤ) → List α → List α} (h : Sorts sort) {cmp : α → α → ℤ}
    {l l' : List α} (hperm : l'.Perm l) (hsorted : l'.Pairwise fun a b => cmp a b ≤ 0) :
    ∃ sort', Sorts sort' ∧ sort' cmp l = l' := by
  classical
  refine ⟨fun c m => if c = cmp ∧ m = l then l' else sort c m, ⟨?_, ?_⟩, if_pos ⟨rfl, rfl⟩⟩
  · intro c m hm
    split_ifs with hsame
    · exact hsame.2 ▸ hperm
    · exact h.perm c m hm
  · intro c m hm
    split_ifs with hsame
    · exact hsame.1 ▸ hsorted
    · exact h.sorted c m hm

theorem eq_of_same_keys {key : α → κ} {l l' : List α} (h : l.Pairwise fun a b => key a < key b)
    (h' : l'.Pairwise fun a b => key a < key b)
    (hkeys : ∀ k, (∃ a ∈ l, key a = k) ↔ ∃ a ∈ l', key a = k) :
    List.Forall₂ (fun a b => key a = key b) l l' := by
  have hlt : (l.map key).Pairwise (· < ·) := List.pairwise_map.mpr h
  have hlt' : (l'.map key).Pairwise (· < ·) := List.pairwise_map.mpr h'
  have hperm : (l.map key).Perm (l'.map key) := by
    rw [List.perm_ext_iff_of_nodup (hlt.imp ne_of_lt) (hlt'.imp ne_of_lt)]
    intro k
    simpa using hkeys k
  -- both are strictly ascending, so they are one list
  have heq : l.map key = l'.map key :=
    hperm.eq_of_pairwise (fun a b _ _ hab hba => absurd hab (lt_asymm hba)) hlt hlt'
  rw [← List.forall₂_eq_eq_eq] at heq
  simpa using heq

end Comparison
