/-
The priority queues of smartlists, with the comparison function of the caller
(`lib/container/smartlist.c`).

`Pqueue` has the queue with the order of a weight.  Here the order is what `compare` says, and any
total preorder is that of a weight (`exists_weight`), so that the two models agree on every call.
A run adds, pops and removes items, and keeps count of what it holds.
-/
import Mathlib.Order.Antisymmetrization
import Mathlib.Data.Multiset.AddSub
import Mathlib.Data.Multiset.MapFold
import Mathlib.Data.Multiset.Range
import LibEltor.Pqueue
import LibEltor.Transition

open Transition

namespace PqueueCompare

open Pqueue (intMax maxParentIdx leftChild parent updateIdx put swap Mem Indexed)

variable {α : Type*} [DecidableEq α] (compare : α → α → ℤ)

/-! ### The functions -/

def bestIdx (q : Pqueue α) (i : ℕ) : ℕ :=
  let best := if compare (q.list i) (q.list (leftChild i)) < 0 then i else leftChild i
  if leftChild i + 1 < q.numUsed ∧ compare (q.list (leftChild i + 1)) (q.list best) < 0 then
    leftChild i + 1
  else best

omit [DecidableEq α] in
theorem bestIdx_bounds (q : Pqueue α) {i : ℕ} (hleft : leftChild i < q.numUsed) :
    bestIdx compare q i = i ∨ i < bestIdx compare q i ∧ bestIdx compare q i < q.numUsed := by
  unfold bestIdx
  unfold leftChild at hleft ⊢
  simp only
  split_ifs <;> omega

/-- `smartlist_heapify` -/
def heapify (i : ℕ) (q : Pqueue α) : Pqueue α :=
  if maxParentIdx < i then q
  else if q.numUsed ≤ leftChild i then q
  else if bestIdx compare q i = i then q
  else heapify (bestIdx compare q i) (swap i (bestIdx compare q i) q)
termination_by q.numUsed - i
decreasing_by
  rename_i hleft hbest
  have hbounds := bestIdx_bounds compare q (Nat.lt_of_not_le hleft)
  simp only [swap, updateIdx, put]
  omega

/-- The loop of `smartlist_pqueue_add`. -/
def siftUp (i : ℕ) (q : Pqueue α) : Pqueue α :=
  if i = 0 then q
  else if compare (q.list i) (q.list (parent i)) < 0 then siftUp (parent i) (swap (parent i) i q)
  else q
termination_by i
decreasing_by
  unfold parent
  omega

/-- None where an assertion fails. -/
def smartlistAdd (item : α) (q : Pqueue α) : Option (Pqueue α) :=
  if intMax < q.numUsed + 1 then none
  else some (put q.numUsed item { q with numUsed := q.numUsed + 1 })

def smartlistPqueueAdd (item : α) (q : Pqueue α) : Option (Pqueue α) :=
  (smartlistAdd item q).map fun q => siftUp compare (q.numUsed - 1) (updateIdx (q.numUsed - 1) q)

/-- None where an assertion fails. -/
def smartlistPqueuePop (q : Pqueue α) : Option (α × Pqueue α) :=
  if q.numUsed = 0 then none
  else
    let top := q.list 0
    let q := { q with idx := Function.update q.idx top (-1), numUsed := q.numUsed - 1 }
    some (top,
      if q.numUsed ≠ 0 then heapify compare 0 (updateIdx 0 (put 0 (q.list q.numUsed) q)) else q)

/-- None where an assertion fails. -/
def smartlistPqueueRemove (item : α) (q : Pqueue α) : Option (Pqueue α) :=
  let i := (q.idx item).toNat
  if q.idx item < 0 ∨ q.list i ≠ item then none
  else
    let q := { q with numUsed := q.numUsed - 1, idx := Function.update q.idx item (-1) }
    some (if i = q.numUsed then q
      else heapify compare i (updateIdx i (put i (q.list q.numUsed) q)))

/-! ### A comparison is that of a weight -/

/-- What a comparison function is meant to be: any two items compare, and equal ones may differ. -/
structure TotalPreorder (compare : α → α → ℤ) : Prop where
  swap : ∀ a b, compare a b < 0 ↔ 0 < compare b a
  trans : ∀ a b c, compare a b ≤ 0 → compare b c ≤ 0 → compare a c ≤ 0

variable {compare}

omit [DecidableEq α] in
theorem TotalPreorder.le_iff (h : TotalPreorder compare) (a b : α) :
    compare a b ≤ 0 ↔ ¬ compare b a < 0 := by
  have hswap := h.swap b a
  omega

omit [DecidableEq α] in
theorem exists_weight {α : Type u} {compare : α → α → ℤ} (h : TotalPreorder compare) :
    ∃ (β : Type u) (_ : LinearOrder β) (w : α → β), ∀ a b, w a < w b ↔ compare a b < 0 := by
  classical
  let _ : Preorder α :=
    { le := fun a b => compare a b ≤ 0
      lt := fun a b => compare a b < 0
      le_refl := fun a => by
        have hswap := h.swap a a
        omega
      le_trans := h.trans
      lt_iff_le_not_ge := fun a b => by
        have hswap := h.swap a b
        omega }
  have _ : @Std.Total α (· ≤ ·) := ⟨fun a b => by
    have hswap := h.swap b a
    show compare a b ≤ 0 ∨ compare b a ≤ 0
    omega⟩
  exact ⟨Antisymmetrization α (· ≤ ·), inferInstance, toAntisymmetrization (· ≤ ·),
    fun a b => toAntisymmetrization_lt_toAntisymmetrization_iff⟩

section Weight

variable {β : Type*} [LinearOrder β] {w : α → β} (hw : ∀ a b, w a < w b ↔ compare a b < 0)
include hw

omit [DecidableEq α] in
theorem bestIdx_eq (q : Pqueue α) (i : ℕ) : bestIdx compare q i = Pqueue.bestIdx w q i := by
  simp only [bestIdx, Pqueue.bestIdx, hw]

theorem heapify_eq (i : ℕ) (q : Pqueue α) : heapify compare i q = Pqueue.heapify w i q := by
  induction i, q using heapify.induct compare with
  | case1 i q hmax => rw [heapify, Pqueue.heapify, if_pos hmax, if_pos hmax]
  | case2 i q hmax hleft =>
    rw [heapify, Pqueue.heapify, if_neg hmax, if_neg hmax, if_pos hleft, if_pos hleft]
  | case3 i q hmax hleft hbest =>
    rw [heapify, Pqueue.heapify, if_neg hmax, if_neg hmax, if_neg hleft, if_neg hleft,
      if_pos hbest, if_pos (bestIdx_eq hw q i ▸ hbest)]
  | case4 i q hmax hleft hbest ih =>
    rw [heapify, Pqueue.heapify, if_neg hmax, if_neg hmax, if_neg hleft, if_neg hleft,
      if_neg hbest, if_neg (bestIdx_eq hw q i ▸ hbest), ih, bestIdx_eq hw]

theorem siftUp_eq (i : ℕ) (q : Pqueue α) : siftUp compare i q = Pqueue.siftUp w i q := by
  induction i, q using siftUp.induct compare with
  | case1 q => rw [siftUp, Pqueue.siftUp, if_pos rfl, if_pos rfl]
  | case2 i q hzero hless ih =>
    rw [siftUp, Pqueue.siftUp, if_neg hzero, if_neg hzero, if_pos hless,
      if_pos ((hw _ _).mpr hless), ih]
  | case3 i q hzero hless =>
    rw [siftUp, Pqueue.siftUp, if_neg hzero, if_neg hzero, if_neg hless,
      if_neg fun hless' => hless ((hw _ _).mp hless')]

theorem smartlistPqueueAdd_eq (a : α) (q : Pqueue α) : smartlistPqueueAdd compare a q =
    if intMax < q.numUsed + 1 then none else some (Pqueue.smartlistPqueueAdd w a q) := by
  unfold smartlistPqueueAdd smartlistAdd
  split_ifs with hfull
  · rfl
  · rw [Option.map_some, siftUp_eq hw]
    rfl

theorem smartlistPqueuePop_eq (q : Pqueue α) :
    smartlistPqueuePop compare q = Pqueue.smartlistPqueuePop w q := by
  simp only [smartlistPqueuePop, Pqueue.smartlistPqueuePop, heapify_eq hw]

theorem smartlistPqueueRemove_eq (a : α) (q : Pqueue α) :
    smartlistPqueueRemove compare a q = Pqueue.smartlistPqueueRemove w a q := by
  simp only [smartlistPqueueRemove, Pqueue.smartlistPqueueRemove, heapify_eq hw]

end Weight

/-! ### The index of an item that is not in a queue -/

/-- Two queues that differ at most in the index of items outside of `S`. -/
structure Agree (S : α → Prop) (q q' : Pqueue α) : Prop where
  list : q'.list = q.list
  numUsed : q'.numUsed = q.numUsed
  idx : ∀ a, S a → q'.idx a = q.idx a

section Agreement

variable {S : α → Prop} {q q' : Pqueue α} {i j : ℕ} {a b : α}

omit [DecidableEq α] in
theorem Agree.mem_iff (h : Agree S q q') : Mem a q' ↔ Mem a q := by
  unfold Mem
  rw [h.list, h.numUsed]

omit [DecidableEq α] in
theorem Agree.put (h : Agree S q q') : Agree S (put i a q) (put i a q') := by
  refine ⟨?_, h.numUsed, h.idx⟩
  show Function.update q'.list i a = Function.update q.list i a
  rw [h.list]

theorem Agree.updateIdx (h : Agree S q q') :
    Agree (fun b => S b ∨ b = q.list i) (updateIdx i q) (updateIdx i q') := by
  refine ⟨h.list, h.numUsed, fun b hb => ?_⟩
  simp only [Pqueue.updateIdx, h.list]
  by_cases heq : b = q.list i
  · rw [heq, Function.update_self, Function.update_self]
  · rw [Function.update_of_ne heq, Function.update_of_ne heq]
    exact h.idx b (hb.resolve_right heq)

omit [DecidableEq α] in
theorem Agree.mono {S' : α → Prop} (h : Agree S q q') (hsub : ∀ a, S' a → S a) : Agree S' q q' :=
  ⟨h.list, h.numUsed, fun a ha => h.idx a (hsub a ha)⟩

theorem Agree.swap (h : Agree S q q') : Agree S (swap i j q) (swap i j q') := by
  unfold Pqueue.swap
  rw [h.list]
  exact (h.put.put.updateIdx.updateIdx).mono fun a ha => .inl (.inl ha)

variable {β : Type*} [LinearOrder β] {w : α → β}

omit [DecidableEq α] in
theorem Agree.bestIdx (h : Agree S q q') : Pqueue.bestIdx w q' i = Pqueue.bestIdx w q i := by
  unfold Pqueue.bestIdx
  rw [h.list, h.numUsed]

theorem Agree.heapify (h : Agree S q q') :
    Agree S (Pqueue.heapify w i q) (Pqueue.heapify w i q') := by
  induction i, q using Pqueue.heapify.induct w generalizing q' with
  | case1 i q hmax =>
    rw [Pqueue.heapify, if_pos hmax, Pqueue.heapify, if_pos hmax]
    exact h
  | case2 i q hmax hleft =>
    rw [Pqueue.heapify, if_neg hmax, if_pos hleft, Pqueue.heapify, if_neg hmax,
      if_pos (h.numUsed.trans_le hleft)]
    exact h
  | case3 i q hmax hleft hbest =>
    rw [Pqueue.heapify, if_neg hmax, if_neg hleft, if_pos hbest, Pqueue.heapify, if_neg hmax,
      if_neg (h.numUsed ▸ hleft), if_pos (h.bestIdx.trans hbest)]
    exact h
  | case4 i q hmax hleft hbest ih =>
    have hmoved : Pqueue.heapify w i q' =
        Pqueue.heapify w (Pqueue.bestIdx w q i) (Pqueue.swap i (Pqueue.bestIdx w q i) q') := by
      rw [Pqueue.heapify, if_neg hmax, if_neg (h.numUsed ▸ hleft),
        if_neg ((h.bestIdx (w := w)).trans_ne hbest), h.bestIdx]
    rw [Pqueue.heapify, if_neg hmax, if_neg hleft, if_neg hbest, hmoved]
    exact ih h.swap

theorem Agree.siftUp (h : Agree S q q') :
    Agree S (Pqueue.siftUp w i q) (Pqueue.siftUp w i q') := by
  induction i, q using Pqueue.siftUp.induct w generalizing q' with
  | case1 q =>
    rw [Pqueue.siftUp, if_pos rfl, Pqueue.siftUp, if_pos rfl]
    exact h
  | case2 i q hzero hless ih =>
    have hmoved : Pqueue.siftUp w i q' =
        Pqueue.siftUp w (parent i) (Pqueue.swap (parent i) i q') := by
      rw [Pqueue.siftUp, if_neg hzero, h.list, if_pos hless]
    rw [Pqueue.siftUp, if_neg hzero, if_pos hless, hmoved]
    exact ih h.swap
  | case3 i q hzero hless =>
    rw [Pqueue.siftUp, if_neg hzero, if_neg hless, Pqueue.siftUp, if_neg hzero, h.list,
      if_neg hless]
    exact h

theorem Agree.smartlistPqueueAdd (h : Agree S q q') (a : α) :
    Agree (fun b => S b ∨ b = a) (Pqueue.smartlistPqueueAdd w a q)
      (Pqueue.smartlistPqueueAdd w a q') := by
  have hlonger : Agree S { q with numUsed := q.numUsed + 1 } { q' with numUsed := q'.numUsed + 1 } :=
    ⟨h.list, congrArg (· + 1) h.numUsed, h.idx⟩
  unfold Pqueue.smartlistPqueueAdd
  rw [h.numUsed]
  rw [h.numUsed] at hlonger
  refine (hlonger.put.updateIdx.mono fun b hb => hb.imp_right fun heq => ?_).siftUp
  rw [heq]
  exact (Function.update_self q.numUsed a q.list).symm

theorem Agree.dropAt (h : Agree S q q') : Agree S (Pqueue.dropAt w i q) (Pqueue.dropAt w i q') := by
  have hforget : Agree S (Pqueue.forgetItem i q) (Pqueue.forgetItem i q') := by
    refine ⟨h.list, congrArg (· - 1) h.numUsed, fun b hb => ?_⟩
    simp only [Pqueue.forgetItem, h.list]
    by_cases heq : b = q.list i
    · rw [heq, Function.update_self, Function.update_self]
    · rw [Function.update_of_ne heq, Function.update_of_ne heq]
      exact h.idx b hb
  rw [Pqueue.dropAt_eq, Pqueue.dropAt_eq, h.numUsed]
  split_ifs with hlast
  · exact hforget
  · unfold Pqueue.refill
    rw [h.list, h.numUsed]
    exact ((hforget.put.updateIdx).mono fun b hb => .inl hb).heapify

end Agreement

section Frame

variable {β : Type*} [LinearOrder β] {w : α → β} {q : Pqueue α} {i j : ℕ} {a b : α}

theorem swap_out (ha : ¬ Mem a q) (hi : i < q.numUsed) (hj : j < q.numUsed) (hne : i ≠ j) :
    ¬ Mem a (swap i j q) ∧ (swap i j q).idx a = q.idx a := by
  have hout : ¬ Mem a (swap i j q) := fun hmem => ha ((Pqueue.swap_mem hi hj hne).mp hmem)
  refine ⟨hout, ?_⟩
  rw [Pqueue.swap_idx, Function.update_of_ne fun heq => hout ⟨j, hj, heq.symm⟩,
    Function.update_of_ne fun heq => hout ⟨i, hi, heq.symm⟩]

theorem heapify_idx_out (ha : ¬ Mem a q) : (Pqueue.heapify w i q).idx a = q.idx a := by
  induction i, q using Pqueue.heapify.induct w with
  | case1 i q hmax => rw [Pqueue.heapify, if_pos hmax]
  | case2 i q hmax hleft => rw [Pqueue.heapify, if_neg hmax, if_pos hleft]
  | case3 i q hmax hleft hbest =>
    rw [Pqueue.heapify, if_neg hmax, if_neg hleft, if_pos hbest]
  | case4 i q hmax hleft hbest ih =>
    obtain heq | ⟨-, -, hlt⟩ := Pqueue.bestIdx_cases w q (Nat.lt_of_not_le hleft)
    · exact absurd heq hbest
    · have hi : i < q.numUsed := by
        unfold leftChild at hleft
        omega
      obtain ⟨hout, hidx⟩ := swap_out ha hi hlt (Ne.symm hbest)
      rw [Pqueue.heapify, if_neg hmax, if_neg hleft, if_neg hbest, ih hout, hidx]

theorem siftUp_idx_out (ha : ¬ Mem a q) (hi : i < q.numUsed) :
    (Pqueue.siftUp w i q).idx a = q.idx a := by
  induction i, q using Pqueue.siftUp.induct w with
  | case1 q => rw [Pqueue.siftUp, if_pos rfl]
  | case2 i q hzero hless ih =>
    have hparent := Pqueue.parent_lt (Nat.pos_of_ne_zero hzero)
    obtain ⟨hout, hidx⟩ := swap_out ha (hparent.trans hi) hi hparent.ne
    rw [Pqueue.siftUp, if_neg hzero, if_pos hless, ih hout (hparent.trans hi), hidx]
  | case3 i q hzero hless => rw [Pqueue.siftUp, if_neg hzero, if_neg hless]

theorem smartlistPqueueAdd_idx_out (hb : ¬ Mem b q) (hne : b ≠ a) :
    (Pqueue.smartlistPqueueAdd w a q).idx b = q.idx b := by
  refine (siftUp_idx_out ?_ (Nat.lt_succ_self _)).trans ?_
  · rintro ⟨i, hi, hlist⟩
    by_cases hlast : i = q.numUsed
    · simp only [updateIdx, put, hlast, Function.update_self] at hlist
      exact hne hlist.symm
    · simp only [updateIdx, put, Function.update_of_ne hlast] at hlist
      exact hb ⟨i, Nat.lt_of_le_of_ne (Nat.le_of_lt_succ hi) hlast, hlist⟩
  · simp only [updateIdx, put, Function.update_self, Function.update_of_ne hne]

theorem dropAt_idx_out (ha : ¬ Mem a q) (hi : i < q.numUsed) :
    (Pqueue.dropAt w i q).idx a = q.idx a := by
  have hforget : (Pqueue.forgetItem i q).idx a = q.idx a :=
    Function.update_of_ne (fun heq => ha ⟨i, hi, heq.symm⟩) _ _
  rw [Pqueue.dropAt_eq]
  split_ifs with hlast
  · exact hforget
  · have hlist : ∀ j < q.numUsed, (Pqueue.refill i q).list j ≠ a := by
      intro j hj heq
      by_cases hji : j = i
      · simp only [Pqueue.refill, updateIdx, put, hji, Function.update_self] at heq
        exact ha ⟨q.numUsed - 1, by omega, heq⟩
      · simp only [Pqueue.refill, updateIdx, put, Function.update_of_ne hji] at heq
        exact ha ⟨j, hj, heq⟩
    refine (heapify_idx_out ?_).trans ?_
    · rintro ⟨j, hj, heq⟩
      exact hlist j (Nat.lt_of_lt_of_le hj (Nat.sub_le _ _)) heq
    · exact (Function.update_of_ne (hlist i hi).symm _ _).trans hforget

end Frame

/-! ### Runs -/

structure Stored (α : Type*) where
  queue : Pqueue α
  held : Multiset α

inductive PqueueCall (α : Type*)
  | add (item : α)
  | pop
  | remove (item : α)

variable (compare) in
def perform (s : Stored α) : PqueueCall α → Option (Stored α)
  | .add item => (smartlistPqueueAdd compare item s.queue).map fun q => ⟨q, item ::ₘ s.held⟩
  | .pop => (smartlistPqueuePop compare s.queue).map fun popped =>
      ⟨popped.2, s.held.erase popped.1⟩
  | .remove item => (smartlistPqueueRemove compare item s.queue).map fun q =>
      ⟨q, s.held.erase item⟩

def Called (s : Stored α) : PqueueCall α → Prop
  | .add _ => True
  | .pop => True
  | .remove item => item ∈ s.held

variable (compare) in
def pqueueSystem : System (Stored α) (PqueueCall α) where
  init s := s.queue.numUsed = 0 ∧ s.held = 0
  step s c s' := Called s c ∧ perform compare s c = some s'

omit [DecidableEq α] in
variable (compare) in
/-- What `smartlist_pqueue_assert_ok` asserts of the order. -/
def Ordered (q : Pqueue α) : Prop :=
  ∀ i, 0 < i → i < q.numUsed → compare (q.list (parent i)) (q.list i) ≤ 0

/-- The indices are right, and the queue holds what was added and not removed. -/
structure HoldsItems (s : Stored α) : Prop where
  indices : ∀ i < s.queue.numUsed, s.queue.idx (s.queue.list i) = i
  items : (Multiset.range s.queue.numUsed).map s.queue.list = s.held

variable (compare) in
structure Sound (s : Stored α) : Prop where
  ordered : Ordered compare s.queue
  holds : HoldsItems s

def AddsNew (s : Stored α) : PqueueCall α → Prop
  | .add item => item ∉ s.held
  | .pop => True
  | .remove _ => True

variable (compare) in
/-- Nothing is added twice, and the item that takes the place of a removed one, if any, is not less
than the parent of that place. -/
def KeepsOrder (s : Stored α) : PqueueCall α → Prop
  | .add item => item ∉ s.held
  | .pop => True
  | .remove item =>
    let i := (s.queue.idx item).toNat
    i = 0 ∨ i = s.queue.numUsed - 1 ∨
      ¬ compare (s.queue.list (s.queue.numUsed - 1)) (s.queue.list (parent i)) < 0

section Steps

variable {s s' : Stored α} {c : PqueueCall α} {a : α}

omit [DecidableEq α] in
theorem HoldsItems.mem_iff (h : HoldsItems s) : a ∈ s.held ↔ Mem a s.queue := by
  rw [← h.items, Multiset.mem_map]
  exact exists_congr fun i => and_congr_left fun _ => Multiset.mem_range

open Classical in
noncomputable def tidy (q : Pqueue α) : Pqueue α :=
  { q with idx := fun a => if Mem a q then q.idx a else -1 }

omit [DecidableEq α] in
theorem agree_tidy (q : Pqueue α) : Agree (fun a => Mem a q) q (tidy q) :=
  ⟨rfl, rfl, fun _ ha => if_pos ha⟩

omit [DecidableEq α] in
theorem HoldsItems.indexed_tidy (h : HoldsItems s) : Indexed (tidy s.queue) :=
  ⟨fun i hi => (if_pos ⟨i, hi, rfl⟩).trans (h.indices i hi), fun _ ha => if_neg ha⟩

omit [DecidableEq α] in
theorem Agree.holdsItems {q q' : Pqueue α} {held : Multiset α} (h : Agree (fun a => Mem a q) q q')
    (hq' : Indexed q') (hnodup : held.Nodup) (hmem : ∀ a, Mem a q' ↔ a ∈ held) :
    HoldsItems ⟨q, held⟩ := by
  refine ⟨fun i hi => ?_, ?_⟩
  · have hidx := hq'.idx_list i (h.numUsed ▸ hi)
    rw [h.list] at hidx
    exact (h.idx _ ⟨i, hi, rfl⟩).symm.trans hidx
  · have hlist : ((Multiset.range q.numUsed).map q.list).Nodup := by
      refine (Multiset.nodup_range _).map_on fun i hi j hj heq => ?_
      rw [Multiset.mem_range, ← h.numUsed] at hi hj
      exact hq'.list_inj hi hj (by rw [h.list]; exact heq)
    refine (Multiset.Nodup.ext hlist hnodup).mpr fun a => ?_
    rw [← hmem, h.mem_iff, Multiset.mem_map]
    exact exists_congr fun i => and_congr_left fun _ => Multiset.mem_range

omit [DecidableEq α] in
theorem HoldsItems.nodup (h : HoldsItems s) : s.held.Nodup := by
  rw [← h.items]
  refine (Multiset.nodup_range _).map_on fun i hi j hj heq => ?_
  have hidx := h.indices i (Multiset.mem_range.mp hi)
  rw [heq, h.indices j (Multiset.mem_range.mp hj)] at hidx
  exact (Int.ofNat.inj hidx).symm

section Weight

variable {β : Type*} [LinearOrder β] {w : α → β} (hw : ∀ a b, w a < w b ↔ compare a b < 0)
include hw

omit [DecidableEq α] in
theorem ordered_iff (hc : TotalPreorder compare) (q : Pqueue α) :
    Ordered compare q ↔ Pqueue.Ordered w q := by
  unfold Ordered Pqueue.Ordered
  simp only [hc.le_iff, ← hw, not_lt]

theorem perform_cases (h : HoldsItems s) (hcalled : Called s c)
    (hstep : perform compare s c = some s') :
    (∃ a, c = .add a ∧ s.queue.numUsed < intMax ∧
      s' = ⟨Pqueue.smartlistPqueueAdd w a s.queue, a ::ₘ s.held⟩) ∨
    ∃ i < s.queue.numUsed, (c = .pop ∧ i = 0 ∨ c = .remove (s.queue.list i)) ∧
      s' = ⟨Pqueue.dropAt w i s.queue, s.held.erase (s.queue.list i)⟩ := by
  cases c with
  | add a =>
    refine .inl ⟨a, rfl, ?_⟩
    simp only [perform, smartlistPqueueAdd_eq hw] at hstep
    split_ifs at hstep with hfull
    · exact absurd hstep (by simp)
    · exact ⟨by omega, (Option.some.inj hstep).symm⟩
  | pop =>
    simp only [perform, smartlistPqueuePop_eq hw] at hstep
    by_cases hzero : s.queue.numUsed = 0
    · rw [Pqueue.smartlistPqueuePop, if_pos hzero] at hstep
      exact absurd hstep (by simp)
    · have hpos : 0 < s.queue.numUsed := Nat.pos_of_ne_zero hzero
      rw [Pqueue.smartlistPqueuePop_eq w hpos] at hstep
      exact .inr ⟨0, hpos, .inl ⟨rfl, rfl⟩, (Option.some.inj hstep).symm⟩
  | remove a =>
    obtain ⟨i, hi, rfl⟩ := h.mem_iff.mp hcalled
    have hidx := h.indices i hi
    have hok : ¬ (s.queue.idx (s.queue.list i) < 0 ∨
        s.queue.list (s.queue.idx (s.queue.list i)).toNat ≠ s.queue.list i) := by
      rw [hidx]
      simp
    have hdrop : Pqueue.smartlistPqueueRemove w (s.queue.list i) s.queue =
        some (Pqueue.dropAt w i s.queue) := by
      unfold Pqueue.smartlistPqueueRemove Pqueue.dropAt
      rw [if_neg hok, hidx, Int.toNat_natCast]
    simp only [perform, smartlistPqueueRemove_eq hw, hdrop] at hstep
    exact .inr ⟨i, hi, .inr rfl, (Option.some.inj hstep).symm⟩

omit hw in
theorem HoldsItems.add (h : HoldsItems s) (ha : a ∉ s.held) :
    HoldsItems ⟨Pqueue.smartlistPqueueAdd w a s.queue, a ::ₘ s.held⟩ := by
  have hout : ¬ Mem a (tidy s.queue) := fun hmem => ha (h.mem_iff.mpr hmem)
  obtain ⟨hindexed, -, hmem⟩ := Pqueue.smartlistPqueueAdd_items w h.indexed_tidy hout
  have hagree := (agree_tidy s.queue).smartlistPqueueAdd (w := w) a
  refine (hagree.mono fun b hb => ?_).holdsItems hindexed (Multiset.nodup_cons.mpr ⟨ha, h.nodup⟩)
    fun b => ?_
  · rw [← hagree.mem_iff, hmem] at hb
    exact hb
  · rw [hmem, Multiset.mem_cons, h.mem_iff, or_comm]
    rfl

omit hw in
theorem HoldsItems.dropAt (h : HoldsItems s) {i : ℕ} (hi : i < s.queue.numUsed) :
    HoldsItems ⟨Pqueue.dropAt w i s.queue, s.held.erase (s.queue.list i)⟩ := by
  obtain ⟨hindexed, -, hmem⟩ := Pqueue.dropAt_items w h.indexed_tidy (i := i) hi
  have hagree := (agree_tidy s.queue).dropAt (w := w) (i := i)
  refine (hagree.mono fun b hb => ?_).holdsItems hindexed (h.nodup.erase _) fun b => ?_
  · rw [← hagree.mem_iff, hmem] at hb
    exact hb.1
  · rw [hmem, h.nodup.mem_erase_iff, h.mem_iff, and_comm]
    rfl

end Weight

theorem perform_items (hc : TotalPreorder compare) (h : HoldsItems s) (hcalled : Called s c)
    (hnew : AddsNew s c) (hstep : perform compare s c = some s') : HoldsItems s' := by
  obtain ⟨β, _, w, hw⟩ := exists_weight hc
  obtain ⟨a, rfl, -, rfl⟩ | ⟨i, hi, -, rfl⟩ := perform_cases hw h hcalled hstep
  · exact h.add hnew
  · exact h.dropAt hi

theorem perform_sound_iff (hc : TotalPreorder compare) (h : Sound compare s)
    (hsize : s.queue.numUsed ≤ intMax) (hcalled : Called s c)
    (hstep : perform compare s c = some s') : Sound compare s' ↔ KeepsOrder compare s c := by
  obtain ⟨β, _, w, hw⟩ := exists_weight hc
  have hord := (ordered_iff hw hc s.queue).mp h.ordered
  obtain ⟨a, rfl, -, rfl⟩ | ⟨i, hi, hkind, rfl⟩ := perform_cases hw h.holds hcalled hstep
  · refine ⟨fun hs' ha => ?_, fun ha => ⟨?_, h.holds.add ha⟩⟩
    · exact (Multiset.nodup_cons.mp hs'.holds.nodup).1 ha
    · exact (ordered_iff hw hc _).mpr (Pqueue.smartlistPqueueAdd_ordered hord a)
  · have hiff : Sound compare ⟨Pqueue.dropAt w i s.queue, s.held.erase (s.queue.list i)⟩ ↔
        Pqueue.LastFits w i s.queue := by
      rw [← Pqueue.dropAt_ordered_iff hord hi hsize, ← ordered_iff hw hc]
      exact ⟨fun hs' => hs'.ordered, fun ho => ⟨ho, h.holds.dropAt hi⟩⟩
    rw [hiff]
    obtain ⟨rfl, rfl⟩ | rfl := hkind
    · exact ⟨fun _ => trivial, fun _ hpos => absurd hpos (lt_irrefl 0)⟩
    · simp only [Pqueue.LastFits, KeepsOrder, h.holds.indices i hi, Int.toNat_natCast, ← hw,
        not_lt, Nat.pos_iff_ne_zero]
      tauto

end Steps

/-! ### Whole runs -/

variable {s : Stored α}

omit [DecidableEq α] in
theorem HoldsItems.card_eq (h : HoldsItems s) : s.queue.numUsed = s.held.card := by
  rw [← h.items, Multiset.card_map, Multiset.card_range]

theorem pqueue_items (hc : TotalPreorder compare) (hr : Reached (pqueueSystem compare) AddsNew s) :
    HoldsItems s ∧ s.queue.numUsed ≤ intMax := by
  refine hr.invariant (P := fun s => HoldsItems s ∧ s.queue.numUsed ≤ intMax)
    ⟨fun s hinit => ⟨⟨fun i hi => ?_, ?_⟩, ?_⟩, fun s c s' hs hnew hstep => ?_⟩
  · rw [hinit.1] at hi
    exact absurd hi (Nat.not_lt_zero i)
  · rw [hinit.1, hinit.2]
    rfl
  · rw [hinit.1]
    exact Nat.zero_le _
  · have hs' := perform_items hc hs.1 hstep.1 hnew hstep.2
    refine ⟨hs', ?_⟩
    have hcard := hs.1.card_eq
    obtain ⟨β, _, w, hw⟩ := exists_weight hc
    obtain ⟨a, rfl, hroom, rfl⟩ | ⟨i, hi, -, rfl⟩ := perform_cases hw hs.1 hstep.1 hstep.2
    · rw [hs'.card_eq, Multiset.card_cons, ← hcard]
      exact hroom
    · rw [hs'.card_eq]
      exact (Multiset.card_le_card (Multiset.erase_le _ _)).trans (hcard ▸ hs.2)

omit [DecidableEq α] in
theorem addsNew_of_keepsOrder {c : PqueueCall α} (h : KeepsOrder compare s c) : AddsNew s c := by
  cases c with
  | add a => exact h
  | pop => trivial
  | remove a => trivial

theorem pqueue_sound (hc : TotalPreorder compare)
    (hr : Reached (pqueueSystem compare) (KeepsOrder compare) s) : Sound compare s := by
  refine hr.strengthen (P := fun s => HoldsItems s ∧ s.queue.numUsed ≤ intMax)
    (fun s hs => pqueue_items hc (hs.mono fun _ _ => addsNew_of_keepsOrder))
    (fun s hinit => ⟨fun i _ hi => ?_, (pqueue_items hc (.init hinit)).1⟩)
    fun s c s' hs hsound hok hstep =>
      (perform_sound_iff hc hsound hs.2 hstep.1 hstep.2).mpr hok
  rw [hinit.1] at hi
  exact absurd hi (Nat.not_lt_zero i)

theorem Sound.pop_least (hc : TotalPreorder compare) (h : Sound compare s) {top : α} {q : Pqueue α}
    (hpop : smartlistPqueuePop compare s.queue = some (top, q)) :
    top ∈ s.held ∧ ∀ b ∈ s.held, compare top b ≤ 0 := by
  obtain ⟨β, _, w, hw⟩ := exists_weight hc
  rw [smartlistPqueuePop_eq hw] at hpop
  by_cases hzero : s.queue.numUsed = 0
  · rw [Pqueue.smartlistPqueuePop, if_pos hzero] at hpop
    exact absurd hpop (by simp)
  · have hpos : 0 < s.queue.numUsed := Nat.pos_of_ne_zero hzero
    rw [Pqueue.smartlistPqueuePop_eq w hpos] at hpop
    obtain rfl : s.queue.list 0 = top := congrArg Prod.fst (Option.some.inj hpop)
    refine ⟨h.holds.mem_iff.mpr ⟨0, hpos, rfl⟩, fun b hb => ?_⟩
    obtain ⟨i, hi, rfl⟩ := h.holds.mem_iff.mp hb
    rw [hc.le_iff, ← hw, not_lt]
    exact ((ordered_iff hw hc _).mp h.ordered).head_le hi

section Calls

variable {q q' : Pqueue α} {held : Multiset α} {a : α}

omit [DecidableEq α] in
theorem Sound.congr (h : Sound compare ⟨q, held⟩) (hagree : Agree (fun a => a ∈ held) q q') :
    Sound compare ⟨q', held⟩ := by
  refine ⟨fun i hi hlt => ?_, fun i hi => ?_, ?_⟩
  · rw [hagree.list]
    exact h.ordered i hi (hagree.numUsed ▸ hlt)
  · have hi' : i < q.numUsed := hagree.numUsed ▸ hi
    show q'.idx (q'.list i) = i
    rw [hagree.list, hagree.idx _ (h.holds.mem_iff.mpr ⟨i, hi', rfl⟩)]
    exact h.holds.indices i hi'
  · show (Multiset.range q'.numUsed).map q'.list = held
    rw [hagree.list, hagree.numUsed]
    exact h.holds.items

theorem Sound.add (hc : TotalPreorder compare) (h : Sound compare ⟨q, held⟩) (ha : a ∉ held)
    (hroom : q.numUsed < intMax) :
    ∃ q', smartlistPqueueAdd compare a q = some q' ∧ Sound compare ⟨q', a ::ₘ held⟩ ∧
      ∀ b ∉ a ::ₘ held, q'.idx b = q.idx b := by
  obtain ⟨β, _, w, hw⟩ := exists_weight hc
  have hadd : smartlistPqueueAdd compare a q = some (Pqueue.smartlistPqueueAdd w a q) := by
    rw [smartlistPqueueAdd_eq hw, if_neg (by omega)]
  have hstep : perform compare ⟨q, held⟩ (.add a) =
      some ⟨Pqueue.smartlistPqueueAdd w a q, a ::ₘ held⟩ := by
    rw [perform, hadd, Option.map_some]
  refine ⟨_, hadd, (perform_sound_iff (c := .add a) hc h hroom.le trivial hstep).mpr ha,
    fun b hb => ?_⟩
  rw [Multiset.mem_cons, not_or] at hb
  exact smartlistPqueueAdd_idx_out (fun hmem => hb.2 (h.holds.mem_iff.mpr hmem)) hb.1

theorem Sound.pop (hc : TotalPreorder compare) (h : Sound compare ⟨q, held⟩)
    (hpos : 0 < q.numUsed) (hsize : q.numUsed ≤ intMax) :
    ∃ top q', smartlistPqueuePop compare q = some (top, q') ∧
      (top ∈ held ∧ ∀ b ∈ held, compare top b ≤ 0) ∧
        Sound compare ⟨q', held.erase top⟩ ∧ ∀ b ∉ held, q'.idx b = q.idx b := by
  obtain ⟨β, _, w, hw⟩ := exists_weight hc
  have hpop : smartlistPqueuePop compare q = some (q.list 0, Pqueue.dropAt w 0 q) := by
    rw [smartlistPqueuePop_eq hw, Pqueue.smartlistPqueuePop_eq w hpos]
  have hstep : perform compare ⟨q, held⟩ .pop =
      some ⟨Pqueue.dropAt w 0 q, held.erase (q.list 0)⟩ := by
    rw [perform, hpop, Option.map_some]
  refine ⟨_, _, hpop, h.pop_least hc hpop,
    (perform_sound_iff (c := .pop) hc h hsize trivial hstep).mpr trivial, fun b hb => ?_⟩
  exact dropAt_idx_out (fun hmem => hb (h.holds.mem_iff.mpr hmem)) hpos

variable (compare) in
/-- What `n` calls of `smartlist_pqueue_pop` return. -/
def drain : ℕ → Pqueue α → Option (List α)
  | 0, _ => some []
  | n + 1, q =>
    (smartlistPqueuePop compare q).bind fun popped =>
      (drain n popped.2).map fun rest => popped.1 :: rest

theorem Sound.drain (hc : TotalPreorder compare) {n : ℕ} (hn : n ≤ intMax)
    (h : Sound compare ⟨q, held⟩) (hused : q.numUsed = n) :
    ∃ l : List α, drain compare n q = some l ∧ (l : Multiset α) = held ∧
      l.Pairwise fun a b => compare a b ≤ 0 := by
  induction n generalizing q held with
  | zero =>
    have hcard : held.card = 0 := h.holds.card_eq.symm.trans hused
    exact ⟨[], rfl, (Multiset.card_eq_zero.mp hcard).symm, .nil⟩
  | succ n ih =>
    obtain ⟨top, q', hpop, ⟨hmem, hleast⟩, hsound, -⟩ := h.pop hc (by omega) (by omega)
    have hused' : q'.numUsed = n := by
      have hheld : held.card = n + 1 := h.holds.card_eq.symm.trans hused
      rw [hsound.holds.card_eq, Multiset.card_erase_of_mem hmem, hheld, Nat.pred_succ]
    obtain ⟨l, hl, hitems, hsorted⟩ := ih (by omega) hsound hused'
    refine ⟨top :: l, ?_, ?_, List.pairwise_cons.mpr ⟨fun b hb => hleast b ?_, hsorted⟩⟩
    · rw [PqueueCompare.drain, hpop, Option.bind_some, hl, Option.map_some]
    · rw [← Multiset.cons_coe, hitems, Multiset.cons_erase hmem]
    · have hrest : b ∈ held.erase top := hitems ▸ Multiset.mem_coe.mpr hb
      exact Multiset.mem_of_mem_erase hrest

end Calls

/-! ### Integers by value -/

def byValue (a b : ℤ) : ℤ := a - b

theorem byValue_totalPreorder : TotalPreorder byValue := by
  refine ⟨fun a b => ?_, fun a b c hab hbc => ?_⟩
  · unfold byValue
    omega
  · unfold byValue at *
    omega

def emptyStored : Stored ℤ := ⟨⟨fun _ => 0, 0, fun _ => -1⟩, 0⟩

theorem reached_emptyStored (ok : Stored ℤ → PqueueCall ℤ → Prop) :
    Reached (pqueueSystem byValue) ok emptyStored := .init ⟨rfl, rfl⟩

instance (s : Stored α) : (c : PqueueCall α) → Decidable (Called s c)
  | .add _ => .isTrue trivial
  | .pop => .isTrue trivial
  | .remove item => inferInstanceAs (Decidable (item ∈ s.held))

instance (s : Stored α) : (c : PqueueCall α) → Decidable (AddsNew s c)
  | .add item => inferInstanceAs (Decidable (item ∉ s.held))
  | .pop => .isTrue trivial
  | .remove _ => .isTrue trivial

variable (compare) in
def performCalled (s : Stored α) (c : PqueueCall α) : Option (Stored α) :=
  if Called s c ∧ AddsNew s c then perform compare s c else none

theorem step_of_performCalled {s' : Stored α} {c : PqueueCall α}
    (h : performCalled compare s c = some s') :
    AddsNew s c ∧ (pqueueSystem compare).step s c s' := by
  unfold performCalled at h
  split_ifs at h with hcalled
  exact ⟨hcalled.2, hcalled.1, h⟩

/-- In a run that keeps the order the queue is sound and pops least items, and the first call that
does not keep the order is the first after which the queue is not sound. -/
theorem pqueue_run (hc : TotalPreorder compare)
    (hr : Reached (pqueueSystem compare) (KeepsOrder compare) s) :
    Sound compare s ∧
      (∀ top q, smartlistPqueuePop compare s.queue = some (top, q) →
        top ∈ s.held ∧ ∀ b ∈ s.held, compare top b ≤ 0) ∧
      ∀ c s', (pqueueSystem compare).step s c s' → (Sound compare s' ↔ KeepsOrder compare s c) := by
  have hsound := pqueue_sound hc hr
  have hsize := (pqueue_items hc (hr.mono fun _ _ => addsNew_of_keepsOrder)).2
  exact ⟨hsound, fun _ _ => hsound.pop_least hc,
    fun _ _ hstep => perform_sound_iff hc hsound hsize hstep.1 hstep.2⟩

/-- One item, added to an empty queue. -/
theorem pqueue_run_one : ∃ s : Stored ℤ, s.held = {5} ∧ Sound byValue s ∧
    (∀ top q, smartlistPqueuePop byValue s.queue = some (top, q) →
      top ∈ s.held ∧ ∀ b ∈ s.held, byValue top b ≤ 0) ∧
    ∀ c s', (pqueueSystem byValue).step s c s' → (Sound byValue s' ↔ KeepsOrder byValue s c) := by
  obtain ⟨s, hs⟩ := Option.isSome_iff_exists.mp
    (by decide +kernel : (performCalled byValue emptyStored (.add 5)).isSome = true)
  have hheld : (performCalled byValue emptyStored (.add 5)).any
      (fun s => decide (s.held = {5})) = true := by decide +kernel
  rw [hs, Option.any_some, decide_eq_true_eq] at hheld
  have hnew : KeepsOrder byValue emptyStored (.add 5) := Multiset.notMem_zero 5
  exact ⟨s, hheld, pqueue_run byValue_totalPreorder
    ((reached_emptyStored _).step hnew (step_of_performCalled hs).2)⟩

/-- A queue that is popped until it is empty gives back what it holds, a least item each time. -/
theorem drain_reached (hc : TotalPreorder compare)
    (hr : Reached (pqueueSystem compare) (KeepsOrder compare) s) :
    ∃ l : List α, drain compare s.queue.numUsed s.queue = some l ∧ (l : Multiset α) = s.held ∧
      l.Pairwise fun a b => compare a b ≤ 0 :=
  (pqueue_sound hc hr).drain hc (pqueue_items hc (hr.mono fun _ _ => addsNew_of_keepsOrder)).2 rfl

theorem drain_one : ∃ s : Stored ℤ, s.held = {5} ∧ ∃ l : List ℤ,
    drain byValue s.queue.numUsed s.queue = some l ∧ (l : Multiset ℤ) = s.held ∧
      l.Pairwise fun a b => byValue a b ≤ 0 := by
  obtain ⟨s, hs⟩ := Option.isSome_iff_exists.mp
    (by decide +kernel : (performCalled byValue emptyStored (.add 5)).isSome = true)
  have hheld : (performCalled byValue emptyStored (.add 5)).any
      (fun s => decide (s.held = {5})) = true := by decide +kernel
  rw [hs, Option.any_some, decide_eq_true_eq] at hheld
  have hnew : KeepsOrder byValue emptyStored (.add 5) := Multiset.notMem_zero 5
  exact ⟨s, hheld, drain_reached byValue_totalPreorder
    ((reached_emptyStored _).step hnew (step_of_performCalled hs).2)⟩

/-- Six items, and one that has a lighter one from the other branch put in its place. -/
def crossingCalls : List (PqueueCall ℤ) :=
  [.add 0, .add 10, .add 1, .add 11, .add 12, .add 2, .remove 11]

/-- After the removal the order fails between 10 and 2. -/
theorem remove_unordered : ¬ ∀ s : Stored ℤ,
    Reached (pqueueSystem byValue) AddsNew s → Ordered byValue s.queue := by
  intro hall
  obtain ⟨s, hs⟩ := Option.isSome_iff_exists.mp
    (by decide +kernel : (crossingCalls.foldlM (performCalled byValue) emptyStored).isSome = true)
  have hfound : (crossingCalls.foldlM (performCalled byValue) emptyStored).any
      (fun s => decide (3 < s.queue.numUsed ∧
        0 < byValue (s.queue.list 1) (s.queue.list 3))) = true := by decide +kernel
  rw [hs, Option.any_some, decide_eq_true_eq] at hfound
  have hr := (reached_emptyStored AddsNew).foldlM_meets (fun _ _ _ => step_of_performCalled)
    crossingCalls hs
  exact absurd (hall s hr 3 (by decide) hfound.1) (not_le.mpr hfound.2)

end PqueueCompare
