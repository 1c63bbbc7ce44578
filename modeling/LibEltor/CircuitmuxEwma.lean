/-
The EWMA policy of a circuit multiplexer (`core/or/circuitmux_ewma.c`).

Active circuits are in a priority queue by the cells they have sent, where a cell counts the less
the longer it was ago.  Counts are kept in the scale of one tick and all rescaled when it passes; a
circuit that is not in the queue keeps the scale it left with.
-/
import Mathlib
import LibEltor.Pqueue
import LibEltor.Transition

open Pqueue Transition

namespace CircuitmuxEwma

variable {ι : Type*} [DecidableEq ι]

/-- `cell_ewma_t` of a circuit; `heap_index` is kept by the queue. -/
structure CellEwma where
  lastAdjustedTick : BitVec 32
  cellCount : ℚ≥0
  deriving DecidableEq

/-- A multiplexer with this policy.  `active` is what it has been told of its circuits. -/
structure Ewma (ι : Type*) where
  cellEwma : ι → CellEwma
  activeCircuitPqueue : Pqueue ι
  lastRecalibrated : BitVec 32
  ewmaScaleFactor : ℚ≥0
  active : Finset ι

def Ewma.cellCount (S : Ewma ι) (c : ι) : ℚ≥0 := (S.cellEwma c).cellCount

def getScaleFactor (S : Ewma ι) (fromTick toTick : BitVec 32) : ℚ≥0 :=
  S.ewmaScaleFactor ^ (toTick - fromTick).toInt

def scaleSingleCellEwma (c : ι) (curTick : BitVec 32) (S : Ewma ι) : Ewma ι :=
  { S with
    cellEwma := Function.update S.cellEwma c
      { lastAdjustedTick := curTick
        cellCount := S.cellCount c * getScaleFactor S (S.cellEwma c).lastAdjustedTick curTick } }

def scaleItem (last curTick : BitVec 32) (factor : ℚ≥0) (cells : ι → CellEwma) (c : ι) :
    Option (ι → CellEwma) :=
  if (cells c).lastAdjustedTick = last then
    some (Function.update cells c ⟨curTick, (cells c).cellCount * factor⟩)
  else none

def scaleActiveCircuits (curTick : BitVec 32) (S : Ewma ι) : Option (Ewma ι) := do
  let factor := getScaleFactor S S.lastRecalibrated curTick
  let cells ← ((List.range S.activeCircuitPqueue.numUsed).map S.activeCircuitPqueue.list).foldlM
    (scaleItem S.lastRecalibrated curTick factor) S.cellEwma
  some { S with cellEwma := cells, lastRecalibrated := curTick }

def addCellEwma (c : ι) (S : Ewma ι) : Option (Ewma ι) :=
  if S.activeCircuitPqueue.idx c = -1 then
    let S := scaleSingleCellEwma c S.lastRecalibrated S
    some { S with
      activeCircuitPqueue := smartlistPqueueAdd S.cellCount c S.activeCircuitPqueue }
  else none

def removeCellEwma (c : ι) (S : Ewma ι) : Option (Ewma ι) :=
  if S.activeCircuitPqueue.idx c = -1 then none
  else do
    let q ← smartlistPqueueRemove S.cellCount c S.activeCircuitPqueue
    some { S with activeCircuitPqueue := q }

def popFirstCellEwma (S : Ewma ι) : Option (ι × Ewma ι) := do
  let (top, q) ← smartlistPqueuePop S.cellCount S.activeCircuitPqueue
  some (top, { S with activeCircuitPqueue := q })

def ewmaAllocCircData (c : ι) (tick : BitVec 32) (S : Ewma ι) : Ewma ι :=
  { S with
    cellEwma := Function.update S.cellEwma c ⟨tick, 0⟩
    activeCircuitPqueue :=
      { S.activeCircuitPqueue with idx := Function.update S.activeCircuitPqueue.idx c (-1) } }

def ewmaNotifyCircActive (c : ι) (S : Ewma ι) : Option (Ewma ι) := addCellEwma c S

def ewmaNotifyCircInactive (c : ι) (S : Ewma ι) : Option (Ewma ι) := removeCellEwma c S

/-- `weight` is what a cell counts at this fraction of the tick. -/
def ewmaNotifyXmitCells (c : ι) (nCells : ℕ) (tick : BitVec 32) (weight : ℚ≥0) (S : Ewma ι) :
    Option (Ewma ι) :=
  if nCells = 0 then none
  else do
    let S ← if tick ≠ S.lastRecalibrated then scaleActiveCircuits tick S else some S
    let S := { S with
      cellEwma := Function.update S.cellEwma c
        { S.cellEwma c with cellCount := S.cellCount c + nCells * weight } }
    let (tmp, S) ← popFirstCellEwma S
    if tmp = c then addCellEwma c S else none

def ewmaPickActiveCircuit (S : Ewma ι) : Option ι :=
  if S.activeCircuitPqueue.numUsed > 0 then some (S.activeCircuitPqueue.list 0) else none

/-! ### Runs -/

inductive EwmaAction (ι : Type*)
  | allocCircData (c : ι) (tick : BitVec 32)
  | notifyCircActive (c : ι)
  | notifyCircInactive (c : ι)
  | notifyXmitCells (c : ι) (nCells : ℕ) (tick : BitVec 32) (weight : ℚ≥0)
  | setOptions (scaleFactor : ℚ≥0)

def perform (S : Ewma ι) : EwmaAction ι → Option (Ewma ι)
  | .allocCircData c tick => some (ewmaAllocCircData c tick S)
  | .notifyCircActive c => do
    let S' ← ewmaNotifyCircActive c S
    some { S' with active := insert c S.active }
  | .notifyCircInactive c => do
    let S' ← ewmaNotifyCircInactive c S
    some { S' with active := S.active.erase c }
  | .notifyXmitCells c nCells tick weight => ewmaNotifyXmitCells c nCells tick weight S
  | .setOptions scaleFactor => some { S with ewmaScaleFactor := scaleFactor }

/-- What the multiplexer does: a circuit becomes active once and inactive once, and cells are sent
on the circuit that was picked. -/
def Called (S : Ewma ι) : EwmaAction ι → Prop
  | .allocCircData c _ => c ∉ S.active
  | .notifyCircActive c => c ∉ S.active ∧ S.activeCircuitPqueue.numUsed < intMax
  | .notifyCircInactive c => c ∈ S.active
  | .notifyXmitCells c nCells _ _ => ewmaPickActiveCircuit S = some c ∧ 0 < nCells
  | .setOptions scaleFactor => 0 < scaleFactor

structure Fresh (S : Ewma ι) : Prop where
  numUsed : S.activeCircuitPqueue.numUsed = 0
  idx : ∀ c, S.activeCircuitPqueue.idx c = -1
  scale : 0 < S.ewmaScaleFactor
  active : S.active = ∅

def ewmaSystem (ι : Type*) [DecidableEq ι] : System (Ewma ι) (EwmaAction ι) where
  init := Fresh
  step S a S' := Called S a ∧ perform S a = some S'

structure Queued (S : Ewma ι) : Prop where
  indexed : Indexed S.activeCircuitPqueue
  mem : ∀ c, Mem c S.activeCircuitPqueue ↔ c ∈ S.active
  tick : ∀ c ∈ S.active, (S.cellEwma c).lastAdjustedTick = S.lastRecalibrated
  size : S.activeCircuitPqueue.numUsed ≤ intMax
  scale : 0 < S.ewmaScaleFactor

variable {S S' : Ewma ι} {c : ι}

omit [DecidableEq ι] in
theorem queued_fresh (h : Fresh S) : Queued S := by
  have hmem : ∀ c, ¬ Mem c S.activeCircuitPqueue := by
    rintro c ⟨i, hi, -⟩
    rw [h.numUsed] at hi
    omega
  refine ⟨⟨fun i hi => ?_, fun c _ => h.idx c⟩, fun c => ?_, fun c hc => ?_, ?_, h.scale⟩
  · rw [h.numUsed] at hi
    omega
  · simp [hmem c, h.active]
  · rw [h.active] at hc
    cases hc
  · rw [h.numUsed]
    exact Nat.zero_le _

/-! ### Rescaling keeps the order -/

theorem scaleItem_foldlM {last : BitVec 32} (curTick : BitVec 32) (factor : ℚ≥0) {l : List ι} (hnodup : l.Nodup)
    {cells : ι → CellEwma} (htick : ∀ c ∈ l, (cells c).lastAdjustedTick = last) :
    l.foldlM (scaleItem last curTick factor) cells =
      some fun c => if c ∈ l then ⟨curTick, (cells c).cellCount * factor⟩ else cells c := by
  induction l generalizing cells with
  | nil => simp
  | cons c l ih =>
    have hc : c ∉ l := (List.nodup_cons.mp hnodup).1
    have hstep : scaleItem last curTick factor cells c =
        some (Function.update cells c ⟨curTick, (cells c).cellCount * factor⟩) :=
      if_pos (htick c List.mem_cons_self)
    have hrest : ∀ c' ∈ l, (Function.update cells c
        ⟨curTick, (cells c).cellCount * factor⟩ c').lastAdjustedTick = last := by
      intro c' hc'
      have hne : c' ≠ c := fun heq => hc (heq ▸ hc')
      rw [Function.update_of_ne hne]
      exact htick c' (List.mem_cons_of_mem _ hc')
    rw [List.foldlM_cons, hstep, Option.bind_eq_bind, Option.bind_some,
      ih (List.nodup_cons.mp hnodup).2 hrest]
    refine congrArg some (funext fun c' => ?_)
    by_cases heq : c' = c
    · simp [heq, hc]
    · simp [heq]

def queue (S : Ewma ι) : List ι :=
  (List.range S.activeCircuitPqueue.numUsed).map S.activeCircuitPqueue.list

omit [DecidableEq ι] in
theorem mem_queue : c ∈ queue S ↔ Mem c S.activeCircuitPqueue := by
  simp [queue, Mem]

omit [DecidableEq ι] in
theorem nodup_queue (h : Queued S) : (queue S).Nodup := by
  refine List.Nodup.map_on (fun i hi j hj heq => ?_) List.nodup_range
  exact h.indexed.list_inj (List.mem_range.mp hi) (List.mem_range.mp hj) heq

def rescaled (curTick : BitVec 32) (S : Ewma ι) : Ewma ι :=
  { S with
    cellEwma := fun c =>
      if c ∈ S.active then
        ⟨curTick, S.cellCount c * getScaleFactor S S.lastRecalibrated curTick⟩
      else S.cellEwma c
    lastRecalibrated := curTick }

theorem scaleActiveCircuits_eq (h : Queued S) (curTick : BitVec 32) :
    scaleActiveCircuits curTick S = some (rescaled curTick S) := by
  have htick : ∀ c ∈ queue S, (S.cellEwma c).lastAdjustedTick = S.lastRecalibrated :=
    fun c hc => h.tick c ((h.mem c).mp (mem_queue.mp hc))
  have hfold := scaleItem_foldlM curTick (getScaleFactor S S.lastRecalibrated curTick)
    (nodup_queue h) htick
  unfold scaleActiveCircuits
  unfold queue at hfold
  simp only [hfold, Option.bind_eq_bind, Option.bind_some, rescaled, Option.some.injEq]
  have hmem : ∀ c, c ∈ (List.range S.activeCircuitPqueue.numUsed).map S.activeCircuitPqueue.list ↔
      c ∈ S.active := fun c => mem_queue.trans (h.mem c)
  simp only [hmem, Ewma.cellCount]

theorem queued_rescaled (h : Queued S) (curTick : BitVec 32) : Queued (rescaled curTick S) :=
  ⟨h.indexed, h.mem, fun c hc => by simp only [rescaled] at hc ⊢; rw [if_pos hc], h.size, h.scale⟩

theorem ordered_rescaled (h : Queued S) (hord : Ordered S.cellCount S.activeCircuitPqueue)
    (curTick : BitVec 32) :
    Ordered (rescaled curTick S).cellCount (rescaled curTick S).activeCircuitPqueue := by
  intro i hi hin
  have hactive : ∀ j < S.activeCircuitPqueue.numUsed, S.activeCircuitPqueue.list j ∈ S.active :=
    fun j hj => (h.mem _).mp ⟨j, hj, rfl⟩
  simp only [rescaled, Ewma.cellCount] at hin ⊢
  rw [if_pos (hactive _ ((parent_lt hi).trans hin)), if_pos (hactive _ hin)]
  exact mul_le_mul_of_nonneg_right (hord i hi hin) zero_le

theorem addCellEwma_eq (h : Indexed S.activeCircuitPqueue) (hc : ¬ Mem c S.activeCircuitPqueue) :
    addCellEwma c S =
      some { scaleSingleCellEwma c S.lastRecalibrated S with
        activeCircuitPqueue := smartlistPqueueAdd
          (scaleSingleCellEwma c S.lastRecalibrated S).cellCount c S.activeCircuitPqueue } :=
  if_pos (h.idx_out c hc)

omit [DecidableEq ι] in
theorem ordered_congr {w w' : ι → ℚ≥0} {q : Pqueue ι} (h : Ordered w q)
    (heq : ∀ c, Mem c q → w' c = w c) : Ordered w' q := by
  intro i hi hin
  rw [heq _ ⟨_, (parent_lt hi).trans hin, rfl⟩, heq _ ⟨i, hin, rfl⟩]
  exact h i hi hin

theorem cellCount_scaleSingle_of_ne {c' : ι} (hne : c' ≠ c) (curTick : BitVec 32) :
    (scaleSingleCellEwma c curTick S).cellCount c' = S.cellCount c' := by
  simp [scaleSingleCellEwma, Ewma.cellCount, hne]

/-- A circuit that is not in the queue enters in the queue's scale. -/
structure Entered (c : ι) (S S' : Ewma ι) : Prop where
  indexed : Indexed S'.activeCircuitPqueue
  numUsed : S'.activeCircuitPqueue.numUsed = S.activeCircuitPqueue.numUsed + 1
  mem : ∀ c', Mem c' S'.activeCircuitPqueue ↔ Mem c' S.activeCircuitPqueue ∨ c' = c
  tick : (S'.cellEwma c).lastAdjustedTick = S'.lastRecalibrated
  other : ∀ c' ≠ c, S'.cellEwma c' = S.cellEwma c'
  lastRecalibrated : S'.lastRecalibrated = S.lastRecalibrated
  scale : S'.ewmaScaleFactor = S.ewmaScaleFactor
  active : S'.active = S.active
  ordered : Ordered S.cellCount S.activeCircuitPqueue → Ordered S'.cellCount S'.activeCircuitPqueue

theorem exists_addCellEwma (h : Indexed S.activeCircuitPqueue)
    (hc : ¬ Mem c S.activeCircuitPqueue) : ∃ S', addCellEwma c S = some S' ∧ Entered c S S' := by
  refine ⟨_, addCellEwma_eq h hc, ?_⟩
  obtain ⟨hindexed, hnum, hmem⟩ := smartlistPqueueAdd_items
    (scaleSingleCellEwma c S.lastRecalibrated S).cellCount h hc
  refine ⟨hindexed, hnum, hmem, ?_, fun c' hne => ?_, rfl, rfl, rfl, fun hord => ?_⟩
  · simp [scaleSingleCellEwma]
  · simp [scaleSingleCellEwma, hne]
  · refine smartlistPqueueAdd_ordered (ordered_congr hord fun c' hc' => ?_) c
    have hne : c' ≠ c := fun heq => hc (heq ▸ hc')
    exact cellCount_scaleSingle_of_ne hne _

theorem removeCellEwma_eq (h : Indexed S.activeCircuitPqueue) (hc : Mem c S.activeCircuitPqueue) :
    removeCellEwma c S =
      some { S with
        activeCircuitPqueue :=
          dropAt S.cellCount (S.activeCircuitPqueue.idx c).toNat S.activeCircuitPqueue } := by
  unfold removeCellEwma
  rw [if_neg (h.mem_iff.mp hc), smartlistPqueueRemove_eq _ h hc]
  rfl

/-! ### Steps -/

/-- The order a step needs besides what it is called with: where a circuit leaves, the last of the
queue is not lighter than the parent of its place. -/
def KeepsOrder (S : Ewma ι) : EwmaAction ι → Prop
  | .notifyCircInactive c =>
    LastFits S.cellCount (S.activeCircuitPqueue.idx c).toNat S.activeCircuitPqueue
  | _ => True

structure Kept (S : Ewma ι) (a : EwmaAction ι) (S' : Ewma ι) : Prop where
  queued : Queued S'
  ordered : Ordered S.cellCount S.activeCircuitPqueue → KeepsOrder S a →
    Ordered S'.cellCount S'.activeCircuitPqueue

theorem kept_allocCircData (h : Queued S) {tick : BitVec 32} (hc : c ∉ S.active) :
    Kept S (.allocCircData c tick) (ewmaAllocCircData c tick S) := by
  have hmem : ¬ Mem c S.activeCircuitPqueue := fun hmem => hc ((h.mem c).mp hmem)
  have hidx : Function.update S.activeCircuitPqueue.idx c (-1) = S.activeCircuitPqueue.idx :=
    Function.update_eq_self_iff.mpr (h.indexed.idx_out c hmem).symm
  have hqueue : (ewmaAllocCircData c tick S).activeCircuitPqueue = S.activeCircuitPqueue := by
    simp only [ewmaAllocCircData, hidx]
  have hother : ∀ c' ≠ c, (ewmaAllocCircData c tick S).cellEwma c' = S.cellEwma c' := by
    intro c' hne
    simp [ewmaAllocCircData, hne]
  have hne : ∀ c' ∈ S.active, c' ≠ c := fun c' hc' heq => hc (heq ▸ hc')
  refine ⟨⟨hqueue ▸ h.indexed, fun c' => ?_, fun c' hc' => ?_, ?_, h.scale⟩, fun hord _ => ?_⟩
  · rw [hqueue]
    exact h.mem c'
  · rw [hother c' (hne c' hc')]
    exact h.tick c' hc'
  · rw [hqueue]
    exact h.size
  · rw [hqueue]
    refine ordered_congr hord fun c' hc' => ?_
    simp only [Ewma.cellCount, hother c' (hne c' ((h.mem c').mp hc'))]

theorem exists_notifyCircActive (h : Queued S) (hc : c ∉ S.active)
    (hsize : S.activeCircuitPqueue.numUsed < intMax) :
    ∃ S', perform S (.notifyCircActive c) = some S' ∧ Kept S (.notifyCircActive c) S' := by
  have hmem : ¬ Mem c S.activeCircuitPqueue := fun hmem => hc ((h.mem c).mp hmem)
  obtain ⟨S', hadd, he⟩ := exists_addCellEwma h.indexed hmem
  refine ⟨{ S' with active := insert c S.active }, ?_, ?_, fun hord _ => he.ordered hord⟩
  · simp only [perform, ewmaNotifyCircActive, hadd, Option.bind_eq_bind, Option.bind_some]
  · refine ⟨he.indexed, fun c' => ?_, fun c' hc' => ?_, ?_, he.scale ▸ h.scale⟩
    · simp only [he.mem, h.mem, Finset.mem_insert]
      exact or_comm
    · by_cases heq : c' = c
      · exact heq ▸ he.tick
      · have hold := (Finset.mem_insert.mp hc').resolve_left heq
        simp only
        rw [he.other c' heq, he.lastRecalibrated]
        exact h.tick c' hold
    · simp only
      rw [he.numUsed]
      exact hsize

theorem exists_notifyCircInactive (h : Queued S) (hc : c ∈ S.active) :
    ∃ S', perform S (.notifyCircInactive c) = some S' ∧ Kept S (.notifyCircInactive c) S' := by
  have hmem : Mem c S.activeCircuitPqueue := (h.mem c).mpr hc
  obtain ⟨-, hlt, hlist⟩ := h.indexed.list_idx hmem
  obtain ⟨hindexed, hnum, hmem'⟩ := dropAt_items S.cellCount h.indexed hlt
  refine ⟨{ S with
    activeCircuitPqueue :=
      dropAt S.cellCount (S.activeCircuitPqueue.idx c).toNat S.activeCircuitPqueue
    active := S.active.erase c }, ?_, ?_, fun hord hlast => ?_⟩
  · simp only [perform, ewmaNotifyCircInactive, removeCellEwma_eq h.indexed hmem, Option.bind_eq_bind,
      Option.bind_some]
  · refine ⟨hindexed, fun c' => ?_, fun c' hc' => h.tick c' (Finset.mem_of_mem_erase hc'), ?_, h.scale⟩
    · simp only [hmem', h.mem, hlist, Finset.mem_erase]
      exact and_comm
    · simp only
      rw [hnum]
      exact (Nat.sub_le _ _).trans h.size
  · exact dropAt_ordered (hord.around hlt) hlt h.size hlast

def counted (c : ι) (nCells : ℕ) (weight : ℚ≥0) (S : Ewma ι) : Ewma ι :=
  { S with
    cellEwma := Function.update S.cellEwma c
      { S.cellEwma c with cellCount := S.cellCount c + nCells * weight } }

theorem exists_popFirst_add (h : Queued S) (hhead : ewmaPickActiveCircuit S = some c)
    (nCells : ℕ) (weight : ℚ≥0) :
    ∃ S', (do
        let (tmp, S₁) ← popFirstCellEwma (counted c nCells weight S)
        if tmp = c then addCellEwma c S₁ else none) = some S' ∧ Queued S' ∧
      (Ordered S.cellCount S.activeCircuitPqueue → Ordered S'.cellCount S'.activeCircuitPqueue) := by
  unfold ewmaPickActiveCircuit at hhead
  split_ifs at hhead with hpos
  obtain rfl := Option.some.inj hhead
  generalize hc : S.activeCircuitPqueue.list 0 = c at *
  generalize hT : counted c nCells weight S = T
  have hqueue : T.activeCircuitPqueue = S.activeCircuitPqueue := by
    rw [← hT]
    rfl
  have hother : ∀ c' ≠ c, T.cellEwma c' = S.cellEwma c' := by
    intro c' hne
    simp [← hT, counted, hne]
  obtain ⟨hindexed, hnum, hmem⟩ := dropAt_items T.cellCount h.indexed hpos
  have hpop : popFirstCellEwma T =
      some (c, { T with activeCircuitPqueue := dropAt T.cellCount 0 S.activeCircuitPqueue }) := by
    unfold popFirstCellEwma
    rw [hqueue, smartlistPqueuePop_eq _ hpos, hc]
    rfl
  have hnotMem : ¬ Mem c (dropAt T.cellCount 0 S.activeCircuitPqueue) := fun hin =>
    ((hmem c).mp hin).2 hc.symm
  obtain ⟨S', hadd, he⟩ := exists_addCellEwma
    (S := { T with activeCircuitPqueue := dropAt T.cellCount 0 S.activeCircuitPqueue })
    hindexed hnotMem
  refine ⟨S', ?_, ?_, fun hord => he.ordered ?_⟩
  · rw [hpop]
    exact (if_pos rfl).trans hadd
  · have hactive : S'.active = S.active := he.active.trans (by rw [← hT]; rfl)
    have htick : S'.lastRecalibrated = S.lastRecalibrated :=
      he.lastRecalibrated.trans (by rw [← hT]; rfl)
    have hscale : S'.ewmaScaleFactor = S.ewmaScaleFactor := he.scale.trans (by rw [← hT]; rfl)
    refine ⟨he.indexed, fun c' => ?_, fun c' hc' => ?_, ?_, hscale ▸ h.scale⟩
    · rw [he.mem, hactive, hmem, hc, ← h.mem]
      by_cases heq : c' = c
      · simp only [heq, or_true, true_iff]
        exact ⟨0, hpos, hc⟩
      · simp [heq]
    · by_cases heq : c' = c
      · exact heq ▸ he.tick
      · rw [he.other c' heq, htick]
        simp only
        rw [hother c' heq]
        exact h.tick c' (hactive ▸ hc')
    · rw [he.numUsed]
      simp only
      have hsize := h.size
      omega
  · refine dropAt_ordered ⟨fun i hi hin hizero hparent => ?_, fun hzero => ?_⟩ hpos h.size
      fun hzero => ?_
    · have hne : ∀ j < S.activeCircuitPqueue.numUsed, j ≠ 0 → S.activeCircuitPqueue.list j ≠ c := by
        intro j hj hjzero heq
        exact hjzero (h.indexed.list_inj hj hpos (heq.trans hc.symm))
      simp only [Ewma.cellCount]
      rw [hother _ (hne _ ((parent_lt hi).trans hin) hparent), hother _ (hne _ hin hizero)]
      exact hord i hi hin
    · exact absurd hzero (lt_irrefl 0)
    · exact absurd hzero (lt_irrefl 0)

theorem exists_notifyXmitCells (h : Queued S) (hhead : ewmaPickActiveCircuit S = some c)
    {nCells : ℕ} (hcells : 0 < nCells) (tick : BitVec 32) (weight : ℚ≥0) :
    ∃ S', perform S (.notifyXmitCells c nCells tick weight) = some S' ∧
      Kept S (.notifyXmitCells c nCells tick weight) S' := by
  by_cases htick : tick = S.lastRecalibrated
  · obtain ⟨S', hS', hq, hord⟩ := exists_popFirst_add h hhead nCells weight
    refine ⟨S', ?_, hq, fun ho _ => hord ho⟩
    simp only [perform, ewmaNotifyXmitCells, if_neg hcells.ne', htick, ne_eq, not_true_eq_false,
      if_false, Option.bind_eq_bind, Option.bind_some]
    exact hS'
  · have hhead' : ewmaPickActiveCircuit (rescaled tick S) = some c := hhead
    obtain ⟨S', hS', hq, hord⟩ :=
      exists_popFirst_add (queued_rescaled h tick) hhead' nCells weight
    refine ⟨S', ?_, hq, fun ho _ => hord (ordered_rescaled h ho tick)⟩
    simp only [perform, ewmaNotifyXmitCells, if_neg hcells.ne', ne_eq, htick, not_false_eq_true,
      if_true, scaleActiveCircuits_eq h, Option.bind_eq_bind, Option.bind_some]
    exact hS'

theorem queued_step {a : EwmaAction ι} (h : Queued S) (hcalled : Called S a) :
    ∃ S', perform S a = some S' ∧ Kept S a S' := by
  cases a with
  | allocCircData c tick => exact ⟨_, rfl, kept_allocCircData h hcalled⟩
  | notifyCircActive c => exact exists_notifyCircActive h hcalled.1 hcalled.2
  | notifyCircInactive c => exact exists_notifyCircInactive h hcalled
  | notifyXmitCells c nCells tick weight =>
    exact exists_notifyXmitCells h hcalled.1 hcalled.2 tick weight
  | setOptions scaleFactor =>
    exact ⟨_, rfl, ⟨h.indexed, h.mem, h.tick, h.size, hcalled⟩, fun hord _ => hord⟩

theorem queued_reached {ok : Ewma ι → EwmaAction ι → Prop} (hr : Reached (ewmaSystem ι) ok S) :
    Queued S :=
  hr.invariant
    { init := fun _ => queued_fresh
      step := by
        rintro S a S' h - ⟨hcalled, hperform⟩
        obtain ⟨S'', hS'', hkept⟩ := queued_step h hcalled
        obtain rfl := Option.some.inj (hperform.symm.trans hS'')
        exact hkept.queued }

theorem ordered_reached (hr : Reached (ewmaSystem ι) KeepsOrder S) :
    Ordered S.cellCount S.activeCircuitPqueue := by
  refine hr.strengthen (P := Queued) (Q := fun S => Ordered S.cellCount S.activeCircuitPqueue)
    (fun _ => queued_reached) ?_ ?_
  · intro S h i hi hin
    rw [Fresh.numUsed h] at hin
    omega
  · rintro S a S' h hord hok ⟨hcalled, hperform⟩
    obtain ⟨S'', hS'', hkept⟩ := queued_step h hcalled
    obtain rfl := Option.some.inj (hperform.symm.trans hS'')
    exact hkept.ordered hord hok

/-- Every active circuit is in the queue once and nothing else is, all in the queue's scale. -/
structure QueueExact (S : Ewma ι) : Prop where
  mem : ∀ c, c ∈ queue S ↔ c ∈ S.active
  once : (queue S).Nodup
  tick : ∀ c ∈ queue S, (S.cellEwma c).lastAdjustedTick = S.lastRecalibrated

/-- What holds in every run whose removals fit; the first two parts need no condition. -/
theorem pqueue_kept (hr : Reached (ewmaSystem ι) KeepsOrder S) :
    QueueExact S ∧ (∀ a, Called S a → (perform S a).isSome = true) ∧
      Ordered S.cellCount S.activeCircuitPqueue ∧
      (∀ c, ewmaPickActiveCircuit S = some c →
        c ∈ S.active ∧ ∀ c' ∈ S.active, S.cellCount c ≤ S.cellCount c') ∧
      (ewmaPickActiveCircuit S = none → S.active = ∅) := by
  have h := queued_reached hr
  have hord := ordered_reached hr
  refine ⟨⟨fun c => mem_queue.trans (h.mem c), nodup_queue h, fun c hc =>
    h.tick c ((h.mem c).mp (mem_queue.mp hc))⟩, fun a hcalled => ?_, hord, fun c hpick => ?_,
    fun hnone => ?_⟩
  · obtain ⟨S', hS', -⟩ := queued_step h hcalled
    rw [hS', Option.isSome_some]
  · unfold ewmaPickActiveCircuit at hpick
    split_ifs at hpick with hpos
    obtain rfl := Option.some.inj hpick
    refine ⟨(h.mem _).mp ⟨0, hpos, rfl⟩, fun c' hc' => ?_⟩
    obtain ⟨i, hi, rfl⟩ := (h.mem c').mpr hc'
    exact hord.head_le hi
  · unfold ewmaPickActiveCircuit at hnone
    split_ifs at hnone with hpos
    refine Finset.eq_empty_of_forall_notMem fun c hc => ?_
    obtain ⟨i, hi, -⟩ := (h.mem c).mpr hc
    omega

/-! ### A circuit that leaves from the middle -/

def exampleEwma : Ewma ℕ :=
  { cellEwma := fun _ => ⟨0, 0⟩
    activeCircuitPqueue := ⟨fun _ => 0, 0, fun _ => -1⟩
    lastRecalibrated := 0
    ewmaScaleFactor := 1
    active := ∅ }

theorem fresh_exampleEwma : Fresh exampleEwma := ⟨rfl, fun _ => rfl, by decide, rfl⟩

def sendAlone (c nCells : ℕ) : List (EwmaAction ℕ) :=
  [.notifyCircActive c, .notifyXmitCells c nCells 0 1, .notifyCircInactive c]

def exampleActions : List (EwmaAction ℕ) :=
  sendAlone 1 2 ++ sendAlone 3 2 ++ sendAlone 4 2 ++ sendAlone 5 1 ++ sendAlone 6 9 ++
    [.notifyCircActive 0, .notifyCircActive 1, .notifyCircActive 2, .notifyCircActive 3,
      .notifyCircActive 4, .notifyCircActive 5, .notifyCircInactive 3, .notifyCircActive 6,
      .notifyCircInactive 0, .notifyCircInactive 2]

instance (S : Ewma ι) : (a : EwmaAction ι) → Decidable (Called S a)
  | .allocCircData c _ => inferInstanceAs (Decidable (c ∉ S.active))
  | .notifyCircActive c =>
    inferInstanceAs (Decidable (c ∉ S.active ∧ S.activeCircuitPqueue.numUsed < intMax))
  | .notifyCircInactive c => inferInstanceAs (Decidable (c ∈ S.active))
  | .notifyXmitCells c nCells _ _ =>
    inferInstanceAs (Decidable (ewmaPickActiveCircuit S = some c ∧ 0 < nCells))
  | .setOptions scaleFactor => inferInstanceAs (Decidable (0 < scaleFactor))

def performCalled (S : Ewma ι) (a : EwmaAction ι) : Option (Ewma ι) :=
  if Called S a then perform S a else none

theorem step_of_performCalled {a : EwmaAction ι} (h : performCalled S a = some S') :
    (ewmaSystem ι).step S a S' := by
  unfold performCalled at h
  split_ifs at h with hcalled
  exact ⟨hcalled, h⟩

theorem head_picked : ∃ S : Ewma ℕ, S.active = {1} ∧
    ∀ c, ewmaPickActiveCircuit S = some c → c ∈ S.active ∧ ∀ c' ∈ S.active, S.cellCount c ≤ S.cellCount c' := by
  obtain ⟨S, hS⟩ := Option.isSome_iff_exists.mp
    (by decide +kernel : (performCalled exampleEwma (.notifyCircActive 1)).isSome = true)
  have hactive : (performCalled exampleEwma (.notifyCircActive 1)).any
      (fun S => decide (S.active = {1})) = true := by decide +kernel
  rw [hS] at hactive
  have hfits : KeepsOrder exampleEwma (.notifyCircActive 1) := trivial
  have hr : Reached (ewmaSystem ℕ) KeepsOrder S :=
    .step (.init fresh_exampleEwma) hfits (step_of_performCalled hS)
  exact ⟨S, by simpa using hactive, (pqueue_kept hr).2.2.2.1⟩

/-- Circuit 5 takes the place of circuit 3, below a parent that has sent more, and later the parent
is picked. -/
theorem heavier_picked :
    ¬ ∀ S : Ewma ℕ, Reached (ewmaSystem ℕ) (fun _ _ => True) S →
      ∀ c, ewmaPickActiveCircuit S = some c → ∀ c' ∈ S.active, S.cellCount c ≤ S.cellCount c' := by
  intro hall
  obtain ⟨S, hS⟩ := Option.isSome_iff_exists.mp
    (by decide +kernel : (exampleActions.foldlM performCalled exampleEwma).isSome = true)
  have hfound : (exampleActions.foldlM performCalled exampleEwma).any
      (fun S => decide (ewmaPickActiveCircuit S = some 1 ∧ 5 ∈ S.active ∧
        S.cellCount 5 < S.cellCount 1)) = true := by decide +kernel
  rw [hS, Option.any_some, decide_eq_true_eq] at hfound
  obtain ⟨hpick, hactive, hless⟩ := hfound
  have hr := Reached.foldlM (fun _ _ _ => step_of_performCalled) exampleActions
    (.init fresh_exampleEwma) hS
  exact absurd (hall S hr 1 hpick 5 hactive) (not_le.mpr hless)

end CircuitmuxEwma
