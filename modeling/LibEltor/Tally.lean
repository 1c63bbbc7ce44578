/-
Counting the elements of a list by bins.

`tally bin n xs` counts, for each of `n` bins, the elements of `xs` in it, one element after the
other.  `expand rep counts` goes back as far as one can: for each bin as many copies of one element
of it as it counts.
-/
import Mathlib

namespace Tally

variable {α : Type*} (bin : α → ℕ)

def bump (counts : List ℕ) (x : α) : List ℕ := counts.modify (bin x) (· + 1)

def tally (n : ℕ) (xs : List α) : List ℕ := xs.foldl (bump bin) (List.replicate n 0)

def expand {α : Type*} (rep : ℕ → α) (counts : List ℕ) : List α :=
  counts.zipIdx.flatMap fun p => List.replicate p.1 (rep p.2)

theorem length_foldl_bump (xs : List α) (counts : List ℕ) :
    (xs.foldl (bump bin) counts).length = counts.length := by
  induction xs generalizing counts with
  | nil => rfl
  | cons x xs ih => rw [List.foldl_cons, ih, bump, List.length_modify]

theorem length_tally (n : ℕ) (xs : List α) : (tally bin n xs).length = n := by
  rw [tally, length_foldl_bump, List.length_replicate]

theorem getElem?_foldl_bump (xs : List α) (counts : List ℕ) (i : ℕ) :
    (xs.foldl (bump bin) counts)[i]? = counts[i]?.map (· + xs.countP (bin · = i)) := by
  induction xs generalizing counts with
  | nil =>
    rw [List.foldl_nil, List.countP_nil]
    exact Option.map_id'.symm
  | cons x xs ih =>
    rw [List.foldl_cons, ih, bump, List.getElem?_modify, List.countP_cons]
    cases counts[i]? with
    | none => rfl
    | some c =>
      by_cases hx : bin x = i
      · simp only [hx, decide_true, if_true, Option.map_eq_map, Option.map_some]
        rw [Nat.add_assoc, Nat.add_comm 1]
      · simp only [hx, decide_false, Bool.false_eq_true, if_false, Option.map_some, Nat.add_zero]
        rfl

theorem getElem?_tally (n : ℕ) (xs : List α) (i : ℕ) :
    (tally bin n xs)[i]? = if i < n then some (xs.countP (bin · = i)) else none := by
  rw [tally, getElem?_foldl_bump, List.getElem?_replicate]
  split_ifs with hi
  · rw [Option.map_some, Nat.zero_add]
  · rfl

theorem getD_tally {n : ℕ} {xs : List α} (h : ∀ x ∈ xs, bin x < n) (i : ℕ) :
    (tally bin n xs).getD i 0 = xs.countP (bin · = i) := by
  rw [List.getD_eq_getElem?_getD, getElem?_tally]
  split_ifs with hi
  · rfl
  · -- a bin that is not counted has no element
    refine (List.countP_eq_zero.mpr fun x hx => ?_).symm
    have hlt := h x hx
    simp only [decide_eq_true_eq]
    omega

theorem tally_congr {xs ys : List α} (h : ∀ i, xs.countP (bin · = i) = ys.countP (bin · = i))
    (n : ℕ) : tally bin n xs = tally bin n ys := by
  refine List.ext_getElem? fun i => ?_
  rw [getElem?_tally, getElem?_tally, h]

theorem sum_modify_succ {counts : List ℕ} {i : ℕ} (hi : i < counts.length) :
    (counts.modify i (· + 1)).sum = counts.sum + 1 := by
  induction counts generalizing i with
  | nil => exact absurd hi (Nat.not_lt_zero i)
  | cons c counts ih =>
    cases i with
    | zero =>
      rw [List.modify_zero_cons, List.sum_cons, List.sum_cons]
      omega
    | succ i =>
      rw [List.modify_succ_cons, List.sum_cons, List.sum_cons, ih (Nat.lt_of_succ_lt_succ hi)]
      omega

theorem sum_foldl_bump {xs : List α} {counts : List ℕ} (h : ∀ x ∈ xs, bin x < counts.length) :
    (xs.foldl (bump bin) counts).sum = counts.sum + xs.length := by
  induction xs generalizing counts with
  | nil => rfl
  | cons x xs ih =>
    have hx := h x List.mem_cons_self
    rw [List.foldl_cons, ih, bump, sum_modify_succ hx, List.length_cons]
    · omega
    · intro y hy
      rw [bump, List.length_modify]
      exact h y (List.mem_cons_of_mem x hy)

theorem sum_tally {n : ℕ} {xs : List α} (h : ∀ x ∈ xs, bin x < n) :
    (tally bin n xs).sum = xs.length := by
  have hlen : ∀ x ∈ xs, bin x < (List.replicate n 0).length := by
    rw [List.length_replicate]
    exact h
  rw [tally, sum_foldl_bump bin hlen, List.sum_replicate_nat, Nat.mul_zero, Nat.zero_add]

variable {bin} {rep : ℕ → α}

theorem mem_expand {counts : List ℕ} {x : α} (h : x ∈ expand rep counts) :
    ∃ i < counts.length, x = rep i := by
  obtain ⟨⟨c, i⟩, hp, hx⟩ := List.mem_flatMap.mp h
  have hi := (List.mem_zipIdx hp).2.1
  exact ⟨i, by omega, List.eq_of_mem_replicate hx⟩

theorem length_expand (counts : List ℕ) : (expand rep counts).length = counts.sum := by
  have h : ∀ k, ((counts.zipIdx k).flatMap fun p => List.replicate p.1 (rep p.2)).length =
      counts.sum := by
    induction counts with
    | nil => exact fun _ => rfl
    | cons c counts ih =>
      intro k
      simp only [List.zipIdx_cons, List.flatMap_cons, List.length_append, List.length_replicate,
        List.sum_cons]
      exact congrArg _ (ih (k + 1))
  exact h 0

theorem countP_expand (hrep : ∀ i, bin (rep i) = i) (counts : List ℕ) (i : ℕ) :
    (expand rep counts).countP (bin · = i) = counts.getD i 0 := by
  have h : ∀ k, ((counts.zipIdx k).flatMap fun p => List.replicate p.1 (rep p.2)).countP
      (bin · = i) = if k ≤ i then counts.getD (i - k) 0 else 0 := by
    induction counts with
    | nil =>
      intro k
      simp
    | cons c counts ih =>
      intro k
      rw [List.zipIdx_cons, List.flatMap_cons, List.countP_append, ih, List.countP_replicate, hrep]
      rcases Nat.lt_trichotomy k i with hk | hk | hk
      · obtain ⟨d, rfl⟩ := Nat.exists_eq_add_of_lt hk
        have hd : k + d + 1 - k = d + 1 := by omega
        have hd' : k + d + 1 - (k + 1) = d := by omega
        rw [if_neg (by simp; omega), if_pos (by omega), if_pos (by omega), hd, hd', Nat.zero_add]
        rfl
      · subst hk
        rw [if_pos (by simp), if_neg (by omega), if_pos (Nat.le_refl k), Nat.sub_self]
        rfl
      · rw [if_neg (by simp; omega), if_neg (by omega), if_neg (by omega)]
  rw [expand, h, if_pos (Nat.zero_le i), Nat.sub_zero]

end Tally
