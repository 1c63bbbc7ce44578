/-
Rings of indexed members, and what is chosen from one for several keys in turn.

From a key one goes clockwise: to the members whose index is not below it, in order, and then to the
others.  For each key the first `spread` members are taken that were not taken for an earlier one.
-/
import Mathlib

namespace HashRing

variable {α β κ : Type*} [LinearOrder κ]

def ordered (index : α → κ) (members : List α) : List α :=
  members.mergeSort fun a b => decide (index a ≤ index b)

def clockwise (index : α → κ) (members : List α) (key : κ) : List α :=
  (ordered index members).filter (fun a => decide (key ≤ index a)) ++
    (ordered index members).filter fun a => decide (index a < key)

/-- The first `spread` members that are not among those taken are taken too. -/
def takeNew [DecidableEq α] (spread : ℕ) (taken members : List α) : List α :=
  taken ++ (members.filter fun a => decide (a ∉ taken)).take spread

def chosen [DecidableEq α] (index : α → κ) (members : List α) (spread : ℕ) (keys : List κ) :
    List α :=
  keys.foldl (fun taken key => takeNew spread taken (clockwise index members key)) []

variable {index : α → κ} {members : List α}

/-! ### The order -/

theorem ordered_perm (index : α → κ) (members : List α) : (ordered index members).Perm members :=
  List.mergeSort_perm _ _

theorem ordered_sorted (index : α → κ) (members : List α) :
    (ordered index members).Pairwise fun a b => index a ≤ index b := by
  have h := @List.pairwise_mergeSort _ (fun a b => decide (index a ≤ index b))
    (fun a b c hab hbc => by
      simp only [decide_eq_true_eq] at hab hbc ⊢
      exact hab.trans hbc)
    (fun a b => by simpa using le_total (index a) (index b)) members
  exact h.imp fun hab => of_decide_eq_true hab

theorem eq_ordered {l : List α} (hdistinct : (members.map index).Nodup) (hperm : l.Perm members)
    (hsorted : l.Pairwise fun a b => index a ≤ index b) : l = ordered index members := by
  refine (hperm.trans (ordered_perm index members).symm).eq_of_pairwise ?_ hsorted
    (ordered_sorted index members)
  intro a b ha hb hab hba
  exact List.inj_on_of_nodup_map hdistinct (hperm.subset ha)
    ((ordered_perm index members).subset hb) (le_antisymm hab hba)

theorem clockwise_perm (index : α → κ) (members : List α) (key : κ) :
    (clockwise index members key).Perm members := by
  have hsplit := List.filter_append_perm (fun a => decide (key ≤ index a)) (ordered index members)
  simp only [← decide_not, not_le] at hsplit
  exact hsplit.trans (ordered_perm index members)

theorem filter_below {l : List α} (hsorted : l.Pairwise fun a b => index a ≤ index b) (key : κ) :
    l.filter (fun a => decide (index a < key)) = l.takeWhile (fun a => decide (index a < key)) ∧
      l.filter (fun a => decide (key ≤ index a)) = l.dropWhile fun a => decide (index a < key) := by
  induction l with
  | nil => exact ⟨rfl, rfl⟩
  | cons a l ih =>
    obtain ⟨hle, hsorted⟩ := List.pairwise_cons.mp hsorted
    obtain ⟨hbelow, habove⟩ := ih hsorted
    by_cases ha : index a < key
    · constructor
      · rw [List.takeWhile_cons_of_pos (by simpa using ha), List.filter_cons_of_pos (by simpa using ha),
          hbelow]
      · rw [List.dropWhile_cons_of_pos (by simpa using ha), List.filter_cons_of_neg (by simpa using ha),
          habove]
    · have hnone : ∀ b ∈ a :: l, key ≤ index b := by
        intro b hb
        rcases List.mem_cons.mp hb with rfl | hb
        · exact not_lt.mp ha
        · exact (not_lt.mp ha).trans (hle b hb)
      constructor
      · rw [List.takeWhile_cons_of_neg (by simpa using ha), List.filter_eq_nil_iff]
        intro b hb
        simpa using hnone b hb
      · rw [List.dropWhile_cons_of_neg (by simpa using ha), List.filter_eq_self]
        intro b hb
        simpa using hnone b hb

def start (index : α → κ) (members : List α) (key : κ) : ℕ :=
  ((ordered index members).takeWhile fun a => decide (index a < key)).length

theorem start_le (index : α → κ) (members : List α) (key : κ) :
    start index members key ≤ (ordered index members).length :=
  (List.takeWhile_prefix _).length_le

theorem clockwise_eq_rotate (index : α → κ) (members : List α) (key : κ) :
    clockwise index members key =
      (ordered index members).rotate (start index members key) := by
  obtain ⟨hbelow, habove⟩ := filter_below (ordered_sorted index members) key
  have hle := start_le index members key
  have hsplit := List.takeWhile_append_dropWhile (p := fun a => decide (index a < key))
    (l := ordered index members)
  rw [List.rotate_eq_drop_append_take hle, clockwise, hbelow, habove, start]
  generalize (ordered index members).takeWhile (fun a => decide (index a < key)) = front at hsplit
  generalize (ordered index members).dropWhile (fun a => decide (index a < key)) = rest at hsplit
  rw [← hsplit, List.drop_left, List.take_left]

/-! ### What is chosen -/

section Chosen

variable [DecidableEq α] {spread : ℕ}

theorem takeNew_zero (taken l : List α) : takeNew 0 taken l = taken := by
  rw [takeNew, List.take_zero, List.append_nil]

theorem takeNew_nil (spread : ℕ) (taken : List α) : takeNew spread taken [] = taken := by
  rw [takeNew, List.filter_nil, List.take_nil, List.append_nil]

theorem takeNew_cons_of_mem {taken l : List α} {a : α} (ha : a ∈ taken) :
    takeNew spread taken (a :: l) = takeNew spread taken l := by
  rw [takeNew, takeNew, List.filter_cons_of_neg (by simpa using ha)]

theorem takeNew_cons_of_notMem {taken l : List α} {a : α} (ha : a ∉ taken) (hl : a ∉ l) :
    takeNew (spread + 1) taken (a :: l) = takeNew spread (taken ++ [a]) l := by
  have hsame : (l.filter fun b => decide (b ∉ taken)) =
      l.filter fun b => decide (b ∉ taken ++ [a]) := by
    refine List.filter_congr fun b hb => ?_
    have hne : b ≠ a := fun h => hl (h ▸ hb)
    simp [hne]
  rw [takeNew, takeNew, List.filter_cons_of_pos (by simpa using ha), List.take_succ_cons, hsame,
    List.append_assoc]
  rfl

theorem takeNew_nodup {taken l : List α} (htaken : taken.Nodup) (hl : l.Nodup) :
    (takeNew spread taken l).Nodup := by
  refine htaken.append ((hl.filter _).sublist (List.take_sublist _ _)) ?_
  intro a ha hnew
  have hmem := List.mem_of_mem_filter (List.mem_of_mem_take hnew)
  exact absurd ha (by simpa using (List.mem_filter.mp (List.mem_of_mem_take hnew)).2)

theorem takeNew_subset {taken l : List α} (htaken : taken ⊆ l) : takeNew spread taken l ⊆ l := by
  intro a ha
  rcases List.mem_append.mp ha with ha | ha
  · exact htaken ha
  · exact List.mem_of_mem_filter (List.mem_of_mem_take ha)

theorem length_takeNew {taken l : List α} (htaken : taken.Nodup) (hl : l.Nodup)
    (hsub : taken ⊆ l) :
    (takeNew spread taken l).length = min l.length (taken.length + spread) := by
  have hsplit := List.length_eq_length_filter_add (l := l) fun a => decide (a ∈ taken)
  have hin : (l.filter fun a => decide (a ∈ taken)).length = taken.length := by
    refine ((List.perm_ext_iff_of_nodup (hl.filter _) htaken).mpr fun a => ?_).length_eq
    simp only [List.mem_filter, decide_eq_true_eq]
    exact ⟨fun h => h.2, fun h => ⟨hsub h, h⟩⟩
  simp only [← decide_not] at hsplit
  rw [takeNew, List.length_append, List.length_take]
  omega

theorem takeNew_mono {spread' : ℕ} (hspread : spread ≤ spread') {taken taken' : List α}
    (hsub : taken ⊆ taken') (l : List α) : takeNew spread taken l ⊆ takeNew spread' taken' l := by
  have htake : ∀ (l : List α) {n n' : ℕ}, n ≤ n' → ∀ a,
      a ∈ (l.filter fun a => decide (a ∉ taken)).take n →
      a ∈ taken' ∨ a ∈ (l.filter fun a => decide (a ∉ taken')).take n' := by
    intro l
    induction l with
    | nil =>
      intro n n' _ a ha
      simp at ha
    | cons b l ih =>
      intro n n' hle a ha
      by_cases hb : b ∈ taken
      · -- skipped by both
        rw [List.filter_cons_of_neg (by simpa using hb)] at ha
        rw [List.filter_cons_of_neg (by simpa using hsub hb)]
        exact ih hle a ha
      rw [List.filter_cons_of_pos (by simpa using hb)] at ha
      cases n with
      | zero => simp at ha
      | succ n =>
        rw [List.take_succ_cons, List.mem_cons] at ha
        by_cases hb' : b ∈ taken'
        · rw [List.filter_cons_of_neg (by simpa using hb')]
          rcases ha with rfl | ha
          · exact Or.inl hb'
          · exact ih (by omega) a ha
        · obtain ⟨m, rfl⟩ : ∃ m, n' = m + 1 := ⟨n' - 1, by omega⟩
          rw [List.filter_cons_of_pos (by simpa using hb'), List.take_succ_cons, List.mem_cons]
          rcases ha with rfl | ha
          · exact Or.inr (Or.inl rfl)
          · exact (ih (by omega) a ha).imp_right Or.inr
  intro a ha
  rcases List.mem_append.mp ha with ha | ha
  · exact List.mem_append_left _ (hsub ha)
  · rcases htake l hspread a ha with ha | ha
    · exact List.mem_append_left _ ha
    · exact List.mem_append_right _ ha

theorem chosen_concat (index : α → κ) (members : List α) (spread : ℕ) (keys : List κ) (key : κ) :
    chosen index members spread (keys ++ [key]) =
      takeNew spread (chosen index members spread keys) (clockwise index members key) := by
  rw [chosen, List.foldl_append]
  rfl

theorem chosen_nodup (index : α → κ) (spread : ℕ) (hmembers : members.Nodup) (keys : List κ) :
    (chosen index members spread keys).Nodup ∧ chosen index members spread keys ⊆ members := by
  induction keys using List.reverseRecOn with
  | nil => exact ⟨List.nodup_nil, List.nil_subset _⟩
  | append_singleton keys key ih =>
    obtain ⟨hnodup, hsub⟩ := ih
    have hperm := clockwise_perm index members key
    rw [chosen_concat]
    refine ⟨takeNew_nodup hnodup (hperm.nodup_iff.mpr hmembers), ?_⟩
    intro a ha
    exact hperm.subset (takeNew_subset (fun b hb => hperm.symm.subset (hsub hb)) ha)

theorem length_chosen (hmembers : members.Nodup) (keys : List κ) :
    (chosen index members spread keys).length = min members.length (keys.length * spread) := by
  induction keys using List.reverseRecOn with
  | nil =>
    rw [List.length_nil, Nat.zero_mul, Nat.min_zero]
    rfl
  | append_singleton keys key ih =>
    have hperm := clockwise_perm index members key
    obtain ⟨hnodup, hsub⟩ := chosen_nodup index spread hmembers keys
    rw [chosen_concat, length_takeNew hnodup (hperm.nodup_iff.mpr hmembers)
      (fun b hb => hperm.symm.subset (hsub hb)), hperm.length_eq, ih, List.length_append,
      List.length_singleton, Nat.add_mul, Nat.one_mul]
    omega

theorem chosen_subset {spread' : ℕ} (hspread : spread ≤ spread') (index : α → κ) (members : List α)
    (keys : List κ) : chosen index members spread keys ⊆ chosen index members spread' keys := by
  induction keys using List.reverseRecOn with
  | nil => exact List.nil_subset _
  | append_singleton keys key ih =>
    rw [chosen_concat, chosen_concat]
    exact takeNew_mono hspread ih _

theorem chosen_perm {members' : List α} (hdistinct : (members.map index).Nodup)
    (hperm : members'.Perm members) (spread : ℕ) (keys : List κ) :
    chosen index members' spread keys = chosen index members spread keys := by
  have hsame : ordered index members' = ordered index members :=
    eq_ordered hdistinct ((ordered_perm index members').trans hperm) (ordered_sorted index members')
  have hring : clockwise index members' = clockwise index members := by
    funext key
    rw [clockwise, clockwise, hsame]
  rw [chosen, chosen, hring]

theorem takeNew_map [DecidableEq β] {g : α → β} {taken l : List α} (htaken : taken ⊆ members)
    (hl : l ⊆ members) (hinj : ∀ a ∈ members, ∀ b ∈ members, g a = g b → a = b) :
    (takeNew spread taken l).map g = takeNew spread (taken.map g) (l.map g) := by
  have hfilter : (l.filter fun a => decide (a ∉ taken)).map g =
      (l.map g).filter fun b => decide (b ∉ taken.map g) := by
    rw [List.filter_map]
    congr 1
    apply List.filter_congr
    intro a ha
    simp only [Function.comp, decide_eq_decide, not_iff_not]
    constructor
    · intro hmem
      exact List.mem_map_of_mem hmem
    · intro hmem
      obtain ⟨b, hb, heq⟩ := List.mem_map.mp hmem
      exact hinj b (htaken hb) a (hl ha) heq ▸ hb
  rw [takeNew, takeNew, List.map_append, List.map_take, hfilter]

theorem chosen_map [DecidableEq β] (spread : ℕ) {g : α → β} {index' : β → κ}
    (hindex : ∀ a ∈ members, index' (g a) = index a)
    (hinj : ∀ a ∈ members, ∀ b ∈ members, g a = g b → a = b) (hmembers : members.Nodup)
    (keys : List κ) : (chosen index members spread keys).map g =
      chosen index' (members.map g) spread keys := by
  have hordered : (ordered index members).map g = ordered index' (members.map g) := by
    refine List.map_mergeSort fun a ha b hb => ?_
    rw [hindex a ha, hindex b hb]
  have hclockwise : ∀ key, (clockwise index members key).map g =
      clockwise index' (members.map g) key := by
    intro key
    have hmem : ∀ a ∈ ordered index members, index' (g a) = index a :=
      fun a ha => hindex a ((ordered_perm index members).subset ha)
    rw [clockwise, clockwise, List.map_append, ← hordered, List.filter_map, List.filter_map]
    congr 2
    · refine List.filter_congr fun a ha => ?_
      rw [Function.comp, hmem a ha]
    · refine List.filter_congr fun a ha => ?_
      rw [Function.comp, hmem a ha]
  induction keys using List.reverseRecOn with
  | nil => rfl
  | append_singleton keys key ih =>
    obtain ⟨-, hsub⟩ := chosen_nodup index spread hmembers keys
    rw [chosen_concat, chosen_concat, ← ih, ← hclockwise]
    exact takeNew_map hsub (clockwise_perm index members key).subset hinj

end Chosen

end HashRing
