/-
The nth element of a list in order, and its median.

The nth element is at most a bound exactly when more than n elements are (`findNth_le_iff`), so what
relates two lists element by element relates their nth elements (`findNth_le_findNth`).
-/
import Mathlib

namespace OrderStatistic

variable {α β : Type*} [LinearOrder α] [Inhabited α]

def findNth (l : List α) (n : ℕ) : α := (l.mergeSort fun a b => decide (a ≤ b)).getD n default

def median (l : List α) : α := findNth l ((l.length - 1) / 2)

omit [Inhabited α] in
theorem getElem_le_iff_of_pairwise {l : List α} (h : l.Pairwise (· ≤ ·)) {n : ℕ} (hn : n < l.length)
    (x : α) : l[n] ≤ x ↔ n < l.countP fun a => decide (a ≤ x) := by
  induction l generalizing n with
  | nil => cases hn
  | cons a l ih =>
    obtain ⟨ha, hl⟩ := List.pairwise_cons.mp h
    cases n with
    | zero =>
      rw [List.getElem_cons_zero]
      constructor
      · intro hle
        rw [List.countP_cons_of_pos (by simpa using hle)]
        exact Nat.succ_pos _
      · intro hpos
        obtain ⟨b, hb, hbx⟩ := List.countP_pos_iff.mp hpos
        obtain rfl | hb := List.mem_cons.mp hb
        · exact of_decide_eq_true hbx
        · exact (ha b hb).trans (of_decide_eq_true hbx)
    | succ n =>
      have hn' : n < l.length := Nat.lt_of_succ_lt_succ hn
      rw [List.getElem_cons_succ]
      constructor
      · intro hle
        have hax : a ≤ x := (ha _ (List.getElem_mem hn')).trans hle
        rw [List.countP_cons_of_pos (by simpa using hax)]
        exact Nat.succ_lt_succ ((ih hl hn').mp hle)
      · intro hlt
        refine (ih hl hn').mpr ?_
        rw [List.countP_cons] at hlt
        split_ifs at hlt <;> omega

theorem findNth_eq_get {l : List α} {n : ℕ} (hn : n < l.length) :
    findNth l n = (l.mergeSort fun a b => decide (a ≤ b)).get
      ⟨n, by rwa [List.length_mergeSort]⟩ :=
  List.getD_eq_getElem _ _ _

theorem findNth_le_iff {l : List α} {n : ℕ} (hn : n < l.length) (x : α) :
    findNth l n ≤ x ↔ n < l.countP fun a => decide (a ≤ x) := by
  have hsorted : (l.mergeSort fun a b => decide (a ≤ b)).Pairwise (· ≤ ·) := by
    refine (List.pairwise_mergeSort (fun a b c hab hbc => ?_) (fun a b => ?_) l).imp
      (fun hab => of_decide_eq_true hab)
    · exact decide_eq_true ((of_decide_eq_true hab).trans (of_decide_eq_true hbc))
    · simpa using le_total a b
  rw [findNth_eq_get hn, List.get_eq_getElem, getElem_le_iff_of_pairwise hsorted,
    (List.mergeSort_perm l _).countP_eq]

theorem findNth_mem {l : List α} {n : ℕ} (hn : n < l.length) : findNth l n ∈ l := by
  rw [findNth_eq_get hn]
  exact (List.mergeSort_perm l _).mem_iff.mp (List.get_mem _ _)

theorem findNth_le_findNth {l : List β} {f g : β → α} {n : ℕ} (hn : n < l.length) (down : α → α)
    (h : ∀ a ∈ l, ∀ x, g a ≤ x → f a ≤ down x) :
    findNth (l.map f) n ≤ down (findNth (l.map g) n) := by
  have hf : n < (l.map f).length := by rwa [List.length_map]
  have hg : n < (l.map g).length := by rwa [List.length_map]
  have hcount := (findNth_le_iff hg _).mp (le_refl (findNth (l.map g) n))
  refine (findNth_le_iff hf _).mpr (hcount.trans_le ?_)
  rw [List.countP_map, List.countP_map]
  refine List.countP_mono_left fun a ha hle => ?_
  exact decide_eq_true (h a ha _ (of_decide_eq_true hle))

theorem median_mem {l : List α} (hl : l ≠ []) : median l ∈ l := by
  have hpos : 0 < l.length := List.length_pos_iff.mpr hl
  exact findNth_mem (by omega)

theorem median_le_median {l : List β} {f g : β → α} (hl : l ≠ []) (down : α → α)
    (h : ∀ a ∈ l, ∀ x, g a ≤ x → f a ≤ down x) : median (l.map f) ≤ down (median (l.map g)) := by
  have hpos : 0 < l.length := List.length_pos_iff.mpr hl
  have hmid : (l.length - 1) / 2 < l.length := by omega
  rw [median, median, List.length_map, List.length_map]
  exact findNth_le_findNth hmid down h

theorem median_le_iff {l : List α} (hl : l ≠ []) (x : α) :
    median l ≤ x ↔ l.length ≤ 2 * l.countP fun a => decide (a ≤ x) := by
  have hpos : 0 < l.length := List.length_pos_iff.mpr hl
  have hmid : (l.length - 1) / 2 < l.length := by omega
  rw [median, findNth_le_iff hmid]
  omega

end OrderStatistic
