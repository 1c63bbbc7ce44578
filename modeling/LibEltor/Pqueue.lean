/-
The priority queues of smartlists (`lib/container/smartlist.c`).

A queue is a binary heap in a list, and each item keeps its own index in it.  The items are pointers
and the order is that of a weight behind them, so that weights can change under the queue.
-/
import Mathlib.Data.Int.Order.Basic
import Mathlib.Algebra.Order.Group.Nat
import Mathlib.Logic.Function.Basic
import Mathlib.Order.Basic
import Mathlib.Tactic.Common

/-- `list` and `num_used` of the smartlist, and the index field of each item. -/
structure Pqueue (α : Type*) where
  list : ℕ → α
  numUsed : ℕ
  idx : α → ℤ

namespace Pqueue

variable {α β : Type*} [DecidableEq α] [LinearOrder β] (w : α → β)

def intMax : ℕ := 2 ^ 31 - 1

def maxParentIdx : ℕ := (intMax - 2) / 2

def leftChild (i : ℕ) : ℕ := 2 * i + 1

def parent (i : ℕ) : ℕ := (i - 1) / 2

def updateIdx (i : ℕ) (q : Pqueue α) : Pqueue α :=
  { q with idx := Function.update q.idx (q.list i) i }

def put (i : ℕ) (a : α) (q : Pqueue α) : Pqueue α :=
  { q with list := Function.update q.list i a }

def swap (i j : ℕ) (q : Pqueue α) : Pqueue α :=
  updateIdx j (updateIdx i (put j (q.list i) (put i (q.list j) q)))

def bestIdx (q : Pqueue α) (i : ℕ) : ℕ :=
  let best := if w (q.list i) < w (q.list (leftChild i)) then i else leftChild i
  if leftChild i + 1 < q.numUsed ∧ w (q.list (leftChild i + 1)) < w (q.list best) then
    leftChild i + 1
  else best

omit [DecidableEq α] in
theorem bestIdx_cases (q : Pqueue α) {i : ℕ} (hleft : leftChild i < q.numUsed) :
    bestIdx w q i = i ∨ 0 < bestIdx w q i ∧ parent (bestIdx w q i) = i ∧ bestIdx w q i < q.numUsed := by
  unfold bestIdx parent
  unfold leftChild at hleft ⊢
  simp only
  split_ifs <;> omega

/-- `smartlist_heapify` -/
def heapify (i : ℕ) (q : Pqueue α) : Pqueue α :=
  if maxParentIdx < i then q
  else if q.numUsed ≤ leftChild i then q
  else if bestIdx w q i = i then q
  else heapify (bestIdx w q i) (swap i (bestIdx w q i) q)
termination_by q.numUsed - i
decreasing_by
  rename_i hleft hbest
  have hcases := bestIdx_cases w q (Nat.lt_of_not_le hleft)
  unfold parent at hcases
  simp only [swap, updateIdx, put]
  omega

/-- The loop of `smartlist_pqueue_add`. -/
def siftUp (i : ℕ) (q : Pqueue α) : Pqueue α :=
  if i = 0 then q
  else if w (q.list i) < w (q.list (parent i)) then siftUp (parent i) (swap (parent i) i q)
  else q
termination_by i
decreasing_by
  unfold parent
  omega

def smartlistPqueueAdd (item : α) (q : Pqueue α) : Pqueue α :=
  siftUp w q.numUsed
    (updateIdx q.numUsed (put q.numUsed item { q with numUsed := q.numUsed + 1 }))

/-- None where an assertion fails. -/
def smartlistPqueuePop (q : Pqueue α) : Option (α × Pqueue α) :=
  if q.numUsed = 0 then none
  else
    let top := q.list 0
    let q := { q with idx := Function.update q.idx top (-1), numUsed := q.numUsed - 1 }
    some (top,
      if q.numUsed ≠ 0 then heapify w 0 (updateIdx 0 (put 0 (q.list q.numUsed) q)) else q)

/-- None where an assertion fails. -/
def smartlistPqueueRemove (item : α) (q : Pqueue α) : Option (Pqueue α) :=
  let i := (q.idx item).toNat
  if q.idx item < 0 ∨ q.list i ≠ item then none
  else
    let q := { q with numUsed := q.numUsed - 1, idx := Function.update q.idx item (-1) }
    some (if i = q.numUsed then q else heapify w i (updateIdx i (put i (q.list q.numUsed) q)))

/-! ### What is in a queue -/

def Mem (a : α) (q : Pqueue α) : Prop := ∃ i < q.numUsed, q.list i = a

structure Indexed (q : Pqueue α) : Prop where
  idx_list : ∀ i < q.numUsed, q.idx (q.list i) = i
  idx_out : ∀ a, ¬ Mem a q → q.idx a = -1

def Ordered (q : Pqueue α) : Prop :=
  ∀ i, 0 < i → i < q.numUsed → w (q.list (parent i)) ≤ w (q.list i)

variable {w} {q : Pqueue α} {i j : ℕ} {a : α}

omit [DecidableEq α] in
theorem Indexed.list_inj (h : Indexed q) (hi : i < q.numUsed) (hj : j < q.numUsed)
    (heq : q.list i = q.list j) : i = j := by
  have hidx := h.idx_list i hi
  rw [heq, h.idx_list j hj] at hidx
  exact (Int.ofNat.inj hidx).symm

omit [DecidableEq α] in
theorem Indexed.mem_iff (h : Indexed q) : Mem a q ↔ q.idx a ≠ -1 := by
  constructor
  · rintro ⟨i, hi, rfl⟩
    rw [h.idx_list i hi]
    omega
  · exact fun hidx => not_not.mp fun hmem => hidx (h.idx_out a hmem)

omit [DecidableEq α] in
theorem Indexed.list_idx (h : Indexed q) (ha : Mem a q) :
    0 ≤ q.idx a ∧ (q.idx a).toNat < q.numUsed ∧ q.list (q.idx a).toNat = a := by
  obtain ⟨i, hi, rfl⟩ := ha
  rw [h.idx_list i hi]
  exact ⟨by omega, by simpa using hi, by simp⟩

@[simp] theorem swap_numUsed : (swap i j q).numUsed = q.numUsed := rfl

theorem swap_list_left (hne : i ≠ j) : (swap i j q).list i = q.list j := by
  simp [swap, updateIdx, put, hne]

theorem swap_list_right : (swap i j q).list j = q.list i := by
  simp [swap, updateIdx, put]

theorem swap_list_other {k : ℕ} (hi : k ≠ i) (hj : k ≠ j) : (swap i j q).list k = q.list k := by
  simp [swap, updateIdx, put, hi, hj]

theorem swap_idx : (swap i j q).idx =
    Function.update (Function.update q.idx ((swap i j q).list i) i) ((swap i j q).list j) j := rfl

theorem swap_mem (hi : i < q.numUsed) (hj : j < q.numUsed) (hne : i ≠ j) :
    Mem a (swap i j q) ↔ Mem a q := by
  constructor
  · rintro ⟨k, hk, rfl⟩
    by_cases hki : k = i
    · subst hki
      exact ⟨j, hj, (swap_list_left hne).symm⟩
    · by_cases hkj : k = j
      · subst hkj
        exact ⟨i, hi, swap_list_right.symm⟩
      · exact ⟨k, hk, (swap_list_other hki hkj).symm⟩
  · rintro ⟨k, hk, rfl⟩
    by_cases hki : k = i
    · subst hki
      exact ⟨j, hj, swap_list_right⟩
    · by_cases hkj : k = j
      · subst hkj
        exact ⟨i, hi, swap_list_left hne⟩
      · exact ⟨k, hk, swap_list_other hki hkj⟩

theorem Indexed.swap (h : Indexed q) (hi : i < q.numUsed) (hj : j < q.numUsed) (hne : i ≠ j) :
    Indexed (swap i j q) := by
  refine ⟨fun k hk => ?_, fun a ha => ?_⟩
  · rw [swap_idx]
    by_cases hkj : k = j
    · rw [hkj, Function.update_self]
    · have hkj' : (Pqueue.swap i j q).list k ≠ (Pqueue.swap i j q).list j := by
        by_cases hki : k = i
        · rw [hki, swap_list_left hne, swap_list_right]
          exact fun heq => hne (h.list_inj hj hi heq).symm
        · rw [swap_list_other hki hkj, swap_list_right]
          exact fun heq => hki (h.list_inj hk hi heq)
      rw [Function.update_of_ne hkj']
      by_cases hki : k = i
      · rw [hki, Function.update_self]
      · have hki' : (Pqueue.swap i j q).list k ≠ (Pqueue.swap i j q).list i := by
          rw [swap_list_other hki hkj, swap_list_left hne]
          exact fun heq => hkj (h.list_inj hk hj heq)
        rw [Function.update_of_ne hki', swap_list_other hki hkj]
        exact h.idx_list k hk
  · have hout : ∀ k < q.numUsed, a ≠ (Pqueue.swap i j q).list k :=
      fun k hk heq => ha ⟨k, hk, heq.symm⟩
    rw [swap_idx, Function.update_of_ne (hout j hj), Function.update_of_ne (hout i hi)]
    exact h.idx_out a fun hmem => ha ((swap_mem hi hj hne).mpr hmem)

/-! ### The loops -/

structure SameItems (q q' : Pqueue α) : Prop where
  numUsed : q'.numUsed = q.numUsed
  mem : ∀ a, Mem a q' ↔ Mem a q
  indexed : Indexed q'

theorem sameItems_swap (h : Indexed q) (hi : i < q.numUsed) (hj : j < q.numUsed) (hne : i ≠ j) :
    SameItems q (swap i j q) :=
  ⟨rfl, fun _ => swap_mem hi hj hne, h.swap hi hj hne⟩

omit [DecidableEq α] in
theorem SameItems.trans {q₁ q₂ q₃ : Pqueue α} (h : SameItems q₁ q₂) (h' : SameItems q₂ q₃) :
    SameItems q₁ q₃ :=
  ⟨h'.numUsed.trans h.numUsed, fun a => (h'.mem a).trans (h.mem a), h'.indexed⟩

/-- The order may fail between a place and its children, and nowhere else. -/
structure OrderedAbove (w : α → β) (q : Pqueue α) (k : ℕ) : Prop where
  other : ∀ i, 0 < i → i < q.numUsed → parent i ≠ k → w (q.list (parent i)) ≤ w (q.list i)
  children : 0 < k → ∀ i, 0 < i → i < q.numUsed → parent i = k →
    w (q.list (parent k)) ≤ w (q.list i)

/-- The order may fail between a place and its parent, and nowhere else. -/
structure OrderedBelow (w : α → β) (q : Pqueue α) (k : ℕ) : Prop where
  other : ∀ i, 0 < i → i < q.numUsed → i ≠ k → w (q.list (parent i)) ≤ w (q.list i)
  children : 0 < k → ∀ i, 0 < i → i < q.numUsed → parent i = k →
    w (q.list (parent k)) ≤ w (q.list i)

theorem parent_lt (hi : 0 < i) : parent i < i := by
  unfold parent
  omega

omit [DecidableEq α] in
theorem bestIdx_le (w : α → β) (q : Pqueue α) (i : ℕ) :
    w (q.list (bestIdx w q i)) ≤ w (q.list i) ∧
      ∀ j, 0 < j → j < q.numUsed → parent j = i → w (q.list (bestIdx w q i)) ≤ w (q.list j) := by
  have hchild : ∀ j, 0 < j → parent j = i → j = leftChild i ∨ j = leftChild i + 1 := by
    intro j hj hparent
    unfold parent at hparent
    unfold leftChild
    omega
  have hfirst : w (q.list (if w (q.list i) < w (q.list (leftChild i)) then i else leftChild i)) ≤
        w (q.list i) ∧
      w (q.list (if w (q.list i) < w (q.list (leftChild i)) then i else leftChild i)) ≤
        w (q.list (leftChild i)) := by
    split_ifs with hlt
    · exact ⟨le_refl _, hlt.le⟩
    · exact ⟨not_lt.mp hlt, le_refl _⟩
  unfold bestIdx
  simp only
  generalize hbest : (if w (q.list i) < w (q.list (leftChild i)) then i else leftChild i) = best
  rw [hbest] at hfirst
  split_ifs with hright
  · refine ⟨hright.2.le.trans hfirst.1, fun j hj hjn hparent => ?_⟩
    obtain rfl | rfl := hchild j hj hparent
    · exact hright.2.le.trans hfirst.2
    · exact le_refl _
  · refine ⟨hfirst.1, fun j hj hjn hparent => ?_⟩
    obtain rfl | rfl := hchild j hj hparent
    · exact hfirst.2
    · exact not_lt.mp fun hlt => hright ⟨hjn, hlt⟩

theorem OrderedAbove.swap_best (h : OrderedAbove w q i) (hlt : bestIdx w q i < q.numUsed)
    (hparent : parent (bestIdx w q i) = i) (hpos : 0 < bestIdx w q i) :
    OrderedAbove w (swap i (bestIdx w q i) q) (bestIdx w q i) := by
  obtain ⟨hself, hchildren⟩ := bestIdx_le w q i
  generalize bestIdx w q i = best at *
  have hne : i ≠ best := by
    have := parent_lt hpos
    omega
  refine ⟨fun j hj hjn hjbest => ?_, fun _ j hj hjn hjbest => ?_⟩
  · by_cases hjb : j = best
    · rw [hjb, hparent, swap_list_left hne, swap_list_right]
      exact hself
    · by_cases hji : parent j = i
      · have hjne : j ≠ i := by
          have := parent_lt hj
          omega
        rw [hji, swap_list_left hne, swap_list_other hjne hjb]
        exact hchildren j hj hjn hji
      · rw [swap_list_other hji hjbest]
        by_cases hje : j = i
        · rw [hje, swap_list_left hne]
          exact h.children (hje ▸ hj) best hpos hlt hparent
        · rw [swap_list_other hje hjb]
          exact h.other j hj hjn hji
  · have hjb : j ≠ best := by
      have := parent_lt hj
      omega
    have hji : j ≠ i := by
      have := parent_lt hj
      have := parent_lt hpos
      omega
    rw [hparent, swap_list_left hne, swap_list_other hji hjb, ← hjbest]
    exact h.other j hj hjn (by omega)

omit [DecidableEq α] in
theorem OrderedAbove.ordered (h : OrderedAbove w q i)
    (hchildren : ∀ j, 0 < j → j < q.numUsed → parent j = i → w (q.list i) ≤ w (q.list j)) :
    Ordered w q := by
  intro j hj hjn
  by_cases hparent : parent j = i
  · rw [hparent]
    exact hchildren j hj hjn hparent
  · exact h.other j hj hjn hparent

theorem heapify_items (i : ℕ) (q : Pqueue α) (h : Indexed q) : SameItems q (heapify w i q) := by
  induction i, q using heapify.induct w with
  | case1 i q hmax =>
    rw [heapify, if_pos hmax]
    exact ⟨rfl, fun _ => Iff.rfl, h⟩
  | case2 i q hmax hleft =>
    rw [heapify, if_neg hmax, if_pos hleft]
    exact ⟨rfl, fun _ => Iff.rfl, h⟩
  | case3 i q hmax hleft hbest =>
    rw [heapify, if_neg hmax, if_neg hleft, if_pos hbest]
    exact ⟨rfl, fun _ => Iff.rfl, h⟩
  | case4 i q hmax hleft hbest ih =>
    have hlt : leftChild i < q.numUsed := Nat.lt_of_not_le hleft
    obtain heq | ⟨-, -, hbestLt⟩ := bestIdx_cases w q hlt
    · exact absurd heq hbest
    · have hi : i < q.numUsed := by
        unfold leftChild at hlt
        omega
      have hswap := sameItems_swap h hi hbestLt (Ne.symm hbest)
      rw [heapify, if_neg hmax, if_neg hleft, if_neg hbest]
      exact hswap.trans (ih hswap.indexed)

theorem heapify_ordered (i : ℕ) (q : Pqueue α) (hsize : q.numUsed ≤ intMax)
    (h : OrderedAbove w q i) : Ordered w (heapify w i q) := by
  induction i, q using heapify.induct w with
  | case1 i q hmax =>
    rw [heapify, if_pos hmax]
    refine h.ordered fun j hj hjn hparent => ?_
    unfold parent at hparent
    unfold maxParentIdx intMax at hmax
    unfold intMax at hsize
    omega
  | case2 i q hmax hleft =>
    rw [heapify, if_neg hmax, if_pos hleft]
    refine h.ordered fun j hj hjn hparent => ?_
    unfold parent at hparent
    unfold leftChild at hleft
    omega
  | case3 i q hmax hleft hbest =>
    rw [heapify, if_neg hmax, if_neg hleft, if_pos hbest]
    have hchildren := (bestIdx_le w q i).2
    rw [hbest] at hchildren
    exact h.ordered hchildren
  | case4 i q hmax hleft hbest ih =>
    have hlt : leftChild i < q.numUsed := Nat.lt_of_not_le hleft
    obtain heq | ⟨hpos, hparent, hbestLt⟩ := bestIdx_cases w q hlt
    · exact absurd heq hbest
    · rw [heapify, if_neg hmax, if_neg hleft, if_neg hbest]
      exact ih hsize (h.swap_best hbestLt hparent hpos)

theorem siftUp_items (i : ℕ) (q : Pqueue α) (h : Indexed q) (hi : i < q.numUsed) :
    SameItems q (siftUp w i q) := by
  induction i, q using siftUp.induct w with
  | case1 q =>
    rw [siftUp, if_pos rfl]
    exact ⟨rfl, fun _ => Iff.rfl, h⟩
  | case2 i q hzero hless ih =>
    have hparent : parent i < i := parent_lt (Nat.pos_of_ne_zero hzero)
    have hswap := sameItems_swap h (hparent.trans hi) hi (Nat.ne_of_lt hparent)
    rw [siftUp, if_neg hzero, if_pos hless]
    exact hswap.trans (ih hswap.indexed (hparent.trans hi))
  | case3 i q hzero hless =>
    rw [siftUp, if_neg hzero, if_neg hless]
    exact ⟨rfl, fun _ => Iff.rfl, h⟩

theorem OrderedBelow.swap_parent (h : OrderedBelow w q i) (hpos : 0 < i) (hi : i < q.numUsed)
    (hless : w (q.list i) < w (q.list (parent i))) :
    OrderedBelow w (swap (parent i) i q) (parent i) := by
  have hlt : parent i < i := parent_lt hpos
  have hne : parent i ≠ i := Nat.ne_of_lt hlt
  refine ⟨fun j hj hjn hjp => ?_, fun hpp j hj hjn hjp => ?_⟩
  · by_cases hji : j = i
    · rw [hji, swap_list_left hne, swap_list_right]
      exact hless.le
    · have hjself := h.other j hj hjn hji
      by_cases hparent : parent j = parent i
      · rw [hparent, swap_list_left hne, swap_list_other (hparent ▸ (parent_lt hj).ne') hji]
        rw [hparent] at hjself
        exact hless.le.trans hjself
      · by_cases hparentI : parent j = i
        · rw [hparentI, swap_list_right, swap_list_other hjp hji]
          exact h.children hpos j hj hjn hparentI
        · rw [swap_list_other hparent hparentI, swap_list_other hjp hji]
          exact hjself
  · have hpp' : parent (parent i) < parent i := parent_lt hpp
    have hgrand := h.other (parent i) hpp (hlt.trans hi) hne
    rw [swap_list_other hpp'.ne (hpp'.trans hlt).ne]
    by_cases hji : j = i
    · rw [hji, swap_list_right]
      exact hgrand
    · have hjself := h.other j hj hjn hji
      rw [swap_list_other (hjp ▸ (parent_lt hj).ne') hji]
      rw [hjp] at hjself
      exact hgrand.trans hjself

theorem siftUp_ordered (i : ℕ) (q : Pqueue α) (h : OrderedBelow w q i) (hi : i < q.numUsed) :
    Ordered w (siftUp w i q) := by
  induction i, q using siftUp.induct w with
  | case1 q =>
    rw [siftUp, if_pos rfl]
    exact fun j hj hjn => h.other j hj hjn (Nat.ne_of_gt hj)
  | case2 i q hzero hless ih =>
    have hpos : 0 < i := Nat.pos_of_ne_zero hzero
    rw [siftUp, if_neg hzero, if_pos hless]
    exact ih (h.swap_parent hpos hi hless) ((parent_lt hpos).trans hi)
  | case3 i q hzero hless =>
    rw [siftUp, if_neg hzero, if_neg hless]
    intro j hj hjn
    by_cases hji : j = i
    · rw [hji]
      exact not_lt.mp hless
    · exact h.other j hj hjn hji

/-! ### The operations -/

def dropAt (w : α → β) (i : ℕ) (q : Pqueue α) : Pqueue α :=
  let q' := { q with numUsed := q.numUsed - 1, idx := Function.update q.idx (q.list i) (-1) }
  if i = q'.numUsed then q' else heapify w i (updateIdx i (put i (q'.list q'.numUsed) q'))

theorem smartlistPqueuePop_eq (w : α → β) (hpos : 0 < q.numUsed) :
    smartlistPqueuePop w q = some (q.list 0, dropAt w 0 q) := by
  unfold smartlistPqueuePop dropAt
  rw [if_neg (Nat.ne_of_gt hpos)]
  simp only [ne_eq, ite_not, eq_comm (a := 0)]

theorem smartlistPqueueRemove_eq (w : α → β) (h : Indexed q) (ha : Mem a q) :
    smartlistPqueueRemove w a q = some (dropAt w (q.idx a).toNat q) := by
  obtain ⟨hnonneg, -, hlist⟩ := h.list_idx ha
  unfold smartlistPqueueRemove dropAt
  have hok : ¬ (q.idx a < 0 ∨ q.list (q.idx a).toNat ≠ a) := by
    rintro (hneg | hother)
    · omega
    · exact hother hlist
  rw [if_neg hok, hlist]

theorem smartlistPqueueAdd_items (w : α → β) (h : Indexed q) (ha : ¬ Mem a q) :
    Indexed (smartlistPqueueAdd w a q) ∧ (smartlistPqueueAdd w a q).numUsed = q.numUsed + 1 ∧
      ∀ b, Mem b (smartlistPqueueAdd w a q) ↔ Mem b q ∨ b = a := by
  have hmem : ∀ b, Mem b (updateIdx q.numUsed (put q.numUsed a { q with numUsed := q.numUsed + 1 })) ↔
      Mem b q ∨ b = a := by
    intro b
    constructor
    · rintro ⟨i, hi, rfl⟩
      by_cases hlast : i = q.numUsed
      · exact .inr (by simp [updateIdx, put, hlast])
      · refine .inl ⟨i, Nat.lt_of_le_of_ne (Nat.le_of_lt_succ hi) hlast, ?_⟩
        simp [updateIdx, put, hlast]
    · rintro (⟨i, hi, rfl⟩ | rfl)
      · exact ⟨i, hi.trans (Nat.lt_succ_self _), by simp [updateIdx, put, hi.ne]⟩
      · exact ⟨q.numUsed, Nat.lt_succ_self _, by simp [updateIdx, put]⟩
  have hindexed : Indexed (updateIdx q.numUsed (put q.numUsed a { q with numUsed := q.numUsed + 1 })) := by
    refine ⟨fun i hi => ?_, fun b hb => ?_⟩
    · by_cases hlast : i = q.numUsed
      · simp [updateIdx, put, hlast]
      · have hi' : i < q.numUsed := Nat.lt_of_le_of_ne (Nat.le_of_lt_succ hi) hlast
        have hne : q.list i ≠ a := fun heq => ha ⟨i, hi', heq⟩
        simpa [updateIdx, put, hlast, hne] using h.idx_list i hi'
    · rw [hmem, not_or] at hb
      simpa [updateIdx, put, hb.2] using h.idx_out b hb.1
  have hsift := siftUp_items (w := w) q.numUsed _ hindexed (Nat.lt_succ_self _)
  exact ⟨hsift.indexed, hsift.numUsed, fun b => (hsift.mem b).trans (hmem b)⟩

theorem smartlistPqueueAdd_ordered (h : Ordered w q) (a : α) :
    Ordered w (smartlistPqueueAdd w a q) := by
  refine siftUp_ordered q.numUsed _ ⟨fun i hi hin hlast => ?_, fun _ i hi hin hparent => ?_⟩
    (Nat.lt_succ_self _)
  · have hi' : i < q.numUsed := Nat.lt_of_le_of_ne (Nat.le_of_lt_succ hin) hlast
    have hparent : parent i ≠ q.numUsed := ((parent_lt hi).trans hi').ne
    simpa [updateIdx, put, hlast, hparent] using h i hi hi'
  · have hlt := parent_lt hi
    have hle : i ≤ q.numUsed := Nat.le_of_lt_succ hin
    omega

structure OrderedAround (w : α → β) (q : Pqueue α) (k : ℕ) : Prop where
  other : ∀ i, 0 < i → i < q.numUsed → i ≠ k → parent i ≠ k → w (q.list (parent i)) ≤ w (q.list i)
  children : 0 < k → ∀ i, 0 < i → i < q.numUsed → parent i = k →
    w (q.list (parent k)) ≤ w (q.list i)

omit [DecidableEq α] in
theorem Ordered.around (h : Ordered w q) (hi : i < q.numUsed) : OrderedAround w q i := by
  refine ⟨fun j hj hjn _ _ => h j hj hjn, fun hpos j hj hjn hparent => ?_⟩
  have hchild := h j hj hjn
  rw [hparent] at hchild
  exact (h i hpos hi).trans hchild

/-- The last item is not lighter than the parent of the place it is moved to. -/
def LastFits (w : α → β) (i : ℕ) (q : Pqueue α) : Prop :=
  0 < i → i ≠ q.numUsed - 1 → w (q.list (parent i)) ≤ w (q.list (q.numUsed - 1))

def forgetItem (i : ℕ) (q : Pqueue α) : Pqueue α :=
  { q with numUsed := q.numUsed - 1, idx := Function.update q.idx (q.list i) (-1) }

def refill (i : ℕ) (q : Pqueue α) : Pqueue α :=
  updateIdx i (put i (q.list (q.numUsed - 1)) (forgetItem i q))

theorem dropAt_eq (w : α → β) (i : ℕ) (q : Pqueue α) :
    dropAt w i q = if i = q.numUsed - 1 then forgetItem i q else heapify w i (refill i q) := rfl

theorem mem_forgetItem (h : Indexed q) (hi : i < q.numUsed) (hlast : i = q.numUsed - 1) (b : α) :
    Mem b (forgetItem i q) ↔ Mem b q ∧ b ≠ q.list i := by
  constructor
  · rintro ⟨j, hj, rfl⟩
    have hjn : j < q.numUsed - 1 := hj
    refine ⟨⟨j, by omega, rfl⟩, fun heq => ?_⟩
    have hji := h.list_inj (by omega) hi heq
    omega
  · rintro ⟨⟨j, hj, rfl⟩, hne⟩
    have hji : j ≠ i := fun heq => hne (congrArg _ heq)
    have hjn : j < q.numUsed - 1 := by omega
    exact ⟨j, hjn, rfl⟩

theorem indexed_forgetItem (h : Indexed q) (hi : i < q.numUsed) (hlast : i = q.numUsed - 1) :
    Indexed (forgetItem i q) := by
  refine ⟨fun j hj => ?_, fun b hb => ?_⟩
  · have hne := ((mem_forgetItem h hi hlast _).mp ⟨j, hj, rfl⟩).2
    have hjn : j < q.numUsed := Nat.lt_of_lt_of_le hj (Nat.sub_le _ _)
    exact (Function.update_of_ne hne _ _).trans (h.idx_list j hjn)
  · rw [mem_forgetItem h hi hlast, not_and_or, not_not] at hb
    by_cases heq : b = q.list i
    · rw [heq]
      exact Function.update_self _ _ _
    · exact (Function.update_of_ne heq _ _).trans (h.idx_out b (hb.resolve_right heq))

theorem mem_refill (h : Indexed q) (hlt : i < q.numUsed - 1) (b : α) :
    Mem b (refill i q) ↔ Mem b q ∧ b ≠ q.list i := by
  have hlastLt : q.numUsed - 1 < q.numUsed := by omega
  constructor
  · rintro ⟨j, hj, rfl⟩
    have hjn : j < q.numUsed - 1 := hj
    by_cases hji : j = i
    · simp only [refill, updateIdx, put, hji, Function.update_self]
      refine ⟨⟨q.numUsed - 1, hlastLt, rfl⟩, fun heq => ?_⟩
      have hil := h.list_inj hlastLt (by omega) heq
      omega
    · simp only [refill, updateIdx, put, forgetItem, Function.update_of_ne hji]
      exact ⟨⟨j, by omega, rfl⟩, fun heq => hji (h.list_inj (by omega) (by omega) heq)⟩
  · rintro ⟨⟨j, hj, rfl⟩, hne⟩
    have hji : j ≠ i := fun heq => hne (congrArg _ heq)
    by_cases hjl : j = q.numUsed - 1
    · exact ⟨i, hlt, by simp [refill, updateIdx, put, hjl]⟩
    · have hjn : j < q.numUsed - 1 := by omega
      exact ⟨j, hjn, by simp [refill, updateIdx, put, forgetItem, hji]⟩

theorem indexed_refill (h : Indexed q) (hlt : i < q.numUsed - 1) : Indexed (refill i q) := by
  have hi : i < q.numUsed := by omega
  have hlastLt : q.numUsed - 1 < q.numUsed := by omega
  refine ⟨fun j hj => ?_, fun b hb => ?_⟩
  · have hjn : j < q.numUsed - 1 := hj
    by_cases hji : j = i
    · simp [refill, updateIdx, put, hji]
    · have hne : q.list j ≠ q.list i := fun heq => hji (h.list_inj (by omega) hi heq)
      have hne' : q.list j ≠ q.list (q.numUsed - 1) := fun heq => by
        have hjl := h.list_inj (by omega) hlastLt heq
        omega
      simpa [refill, updateIdx, put, forgetItem, hji, hne, hne'] using h.idx_list j (by omega)
  · have hne' : b ≠ q.list (q.numUsed - 1) := fun heq =>
      hb ((mem_refill h hlt b).mpr ⟨⟨q.numUsed - 1, hlastLt, heq.symm⟩, fun heq' => by
        have hil := h.list_inj hlastLt hi (heq.symm.trans heq')
        omega⟩)
    rw [mem_refill h hlt, not_and_or, not_not] at hb
    by_cases heq : b = q.list i
    · simp [refill, updateIdx, put, forgetItem, heq, heq ▸ hne']
    · simpa [refill, updateIdx, put, forgetItem, heq, hne'] using
        h.idx_out b (hb.resolve_right heq)

theorem dropAt_items (w : α → β) (h : Indexed q) (hi : i < q.numUsed) :
    Indexed (dropAt w i q) ∧ (dropAt w i q).numUsed = q.numUsed - 1 ∧
      ∀ b, Mem b (dropAt w i q) ↔ Mem b q ∧ b ≠ q.list i := by
  rw [dropAt_eq]
  split_ifs with hlast
  · exact ⟨indexed_forgetItem h hi hlast, rfl, mem_forgetItem h hi hlast⟩
  · have hlt : i < q.numUsed - 1 := by omega
    have hdown := heapify_items (w := w) i _ (indexed_refill h hlt)
    exact ⟨hdown.indexed, hdown.numUsed, fun b => (hdown.mem b).trans (mem_refill h hlt b)⟩

theorem dropAt_ordered (h : OrderedAround w q i) (hi : i < q.numUsed)
    (hsize : q.numUsed ≤ intMax) (hlast : LastFits w i q) : Ordered w (dropAt w i q) := by
  unfold dropAt
  simp only
  split_ifs with hil
  · intro j hj hjn
    have hjn' : j < q.numUsed - 1 := hjn
    have hparent := parent_lt hj
    exact h.other j hj (by omega) (by omega) (by omega)
  · refine heapify_ordered i _ ((Nat.sub_le _ _).trans hsize) ⟨fun j hj hjn hparent => ?_,
      fun hpos j hj hjn hparent => ?_⟩
    · have hjn' : j < q.numUsed - 1 := hjn
      simp only [updateIdx, put, Function.update_of_ne hparent]
      by_cases hji : j = i
      · rw [hji, Function.update_self]
        exact hlast (hji ▸ hj) hil
      · rw [Function.update_of_ne hji]
        exact h.other j hj (by omega) hji hparent
    · have hjn' : j < q.numUsed - 1 := hjn
      have hji : j ≠ i := by
        have := parent_lt hj
        omega
      have hpi : parent i ≠ i := (parent_lt hpos).ne
      simp only [updateIdx, put, Function.update_of_ne hji, Function.update_of_ne hpi]
      exact h.children hpos j hj (by omega) hparent

theorem dropAt_ordered_iff (h : Ordered w q) (hi : i < q.numUsed) (hsize : q.numUsed ≤ intMax) :
    Ordered w (dropAt w i q) ↔ LastFits w i q := by
  refine ⟨fun hdrop hpos hil => ?_, dropAt_ordered (h.around hi) hi hsize⟩
  by_contra hless
  rw [not_le] at hless
  have hlt : i < q.numUsed - 1 := by omega
  have hstay : dropAt w i q = updateIdx i (put i (q.list (q.numUsed - 1)) { q with
      numUsed := q.numUsed - 1
      idx := Function.update q.idx (q.list i) (-1) }) := by
    unfold dropAt
    simp only
    rw [if_neg hil, heapify]
    split_ifs with hmax hleft hbest
    · rfl
    · rfl
    · rfl
    · refine absurd ?_ hbest
      have hleftLt : leftChild i < q.numUsed - 1 := Nat.lt_of_not_le hleft
      have hchild : ∀ j, parent j = i → 0 < j → j < q.numUsed →
          w (q.list (q.numUsed - 1)) < w (q.list j) := fun j hparent hj hjn =>
        hless.trans_le ((h.around hi).children hpos j hj hjn hparent)
      have hne : leftChild i ≠ i ∧ leftChild i + 1 ≠ i := by
        unfold leftChild
        omega
      have hleftChild := hchild (leftChild i) (by unfold parent leftChild; omega)
        (by unfold leftChild; omega) (by omega)
      unfold bestIdx
      simp only [updateIdx, put, Function.update_self, Function.update_of_ne hne.1,
        Function.update_of_ne hne.2, if_pos hleftChild]
      refine if_neg fun hright => ?_
      have hrightChild := hchild (leftChild i + 1) (by unfold parent leftChild; omega)
        (Nat.succ_pos _) (by omega)
      exact absurd hright.2 hrightChild.asymm
  have hpair := hdrop i hpos (by rw [hstay]; exact hlt)
  rw [hstay] at hpair
  simp only [updateIdx, put, Function.update_self, Function.update_of_ne (parent_lt hpos).ne] at hpair
  exact absurd hpair (not_le.mpr hless)

omit [DecidableEq α] in
theorem Ordered.head_le (h : Ordered w q) (hi : i < q.numUsed) : w (q.list 0) ≤ w (q.list i) := by
  induction i using Nat.strong_induction_on with
  | _ i ih =>
    by_cases hzero : i = 0
    · rw [hzero]
    · have hpos : 0 < i := Nat.pos_of_ne_zero hzero
      have hparent := parent_lt hpos
      exact (ih _ hparent (hparent.trans hi)).trans (h i hpos hi)

end Pqueue
