/-
The lists of circuits (`core/or/circuitlist.c`).

Every circuit is in the global list and knows its place there; circuits that begin
here are in a second list as well.  Circuits that wait for a channel, for a verdict on
another guard, or for their end are in lists of their own.
-/
import LibEltor.CircidMap
import LibEltor.CircuitBuild
import LibEltor.IndexedList

open CircidMap CircuitBuild Smartlist Transition

namespace Circuitlist

/-! ### Circuits and their lists -/

/-- `circuit_t`, without what is in `Link`. -/
structure Circuit where
  isOrigin : Bool
  globalIdentifier : UInt32
  state : CircuitState
  pathState : PathState
  markedForClose : Bool
  globalCircuitlistIdx : ℤ
  globalOriginCircuitListIdx : ℤ

/-- The circuits and the lists of them.  Circuits are numbers, in the order of their
allocation.  `live` is no field of the source: it has the circuits that are allocated
and have not been freed. -/
structure State (Chan : Type*) where
  allocated : ℕ
  live : ℕ → Bool
  nCircuitsAllocated : UInt32
  circ : ℕ → Circuit
  globalCircuitlist : List ℕ
  globalOriginCircuitList : List ℕ
  circuitsPendingChans : List ℕ
  circuitsPendingOtherGuards : List ℕ
  circuitsPendingClose : List ℕ
  onionQueue : List ℕ
  wire : Wire Chan

variable {Chan : Type*}

def Circuit.zero (isOrigin : Bool) (globalIdentifier : UInt32) : Circuit where
  isOrigin := isOrigin
  globalIdentifier := globalIdentifier
  state := .building
  pathState := .newCirc
  markedForClose := false
  globalCircuitlistIdx := -1
  globalOriginCircuitListIdx := -1

def State.initial : State Chan where
  allocated := 0
  live := fun _ => false
  nCircuitsAllocated := 1
  circ := fun _ => .zero false 0
  globalCircuitlist := []
  globalOriginCircuitList := []
  circuitsPendingChans := []
  circuitsPendingOtherGuards := []
  circuitsPendingClose := []
  onionQueue := []
  wire := .initial

def State.modify (s : State Chan) (p : ℕ) (f : Circuit → Circuit) : State Chan :=
  { s with circ := Function.update s.circ p (f (s.circ p)) }

def Circuit.setIdx (i : ℤ) (c : Circuit) : Circuit := { c with globalCircuitlistIdx := i }

def Circuit.setOriginIdx (i : ℤ) (c : Circuit) : Circuit :=
  { c with globalOriginCircuitListIdx := i }

/-! ### Creation -/

def allocate (c : Circuit) (s : State Chan) : State Chan :=
  { s with
    allocated := s.allocated + 1
    live := Function.update s.live s.allocated true
    circ := Function.update s.circ s.allocated c }

def initCircuitBase (p : ℕ) (s : State Chan) : State Chan :=
  { s.modify p (.setIdx s.globalCircuitlist.length) with
    globalCircuitlist := s.globalCircuitlist ++ [p] }

def circuitAddToOriginCircuitList (p : ℕ) (s : State Chan) : State Chan :=
  { s.modify p (.setOriginIdx s.globalOriginCircuitList.length) with
    globalOriginCircuitList := s.globalOriginCircuitList ++ [p] }

def originCircuitNew (s : State Chan) : State Chan :=
  circuitAddToOriginCircuitList s.allocated
    (initCircuitBase s.allocated
      { allocate (.zero true s.nCircuitsAllocated) s with
        nCircuitsAllocated := s.nCircuitsAllocated + 1 })

def orCircuitNew [DecidableEq Chan] (pCircId : UInt32) (pChan : Chan) (s : State Chan) :
    State Chan :=
  let s' := allocate (.zero false 0) s
  initCircuitBase s.allocated
    { s' with wire := circuitSetCircidChan false s.allocated .dirIn pCircId (some pChan) s'.wire }

def follow (here fromState toState : CircuitState) (p : ℕ) (l : List ℕ) : List ℕ :=
  let l := if fromState = here then smartlistRemove l p else l
  if toState = here then l ++ [p] else l

def circuitSetState (p : ℕ) (state : CircuitState) (s : State Chan) : State Chan :=
  let old := (s.circ p).state
  if state = old then s
  else
    { s.modify p fun c => { c with state := state } with
      circuitsPendingChans := follow .chanWait old state p s.circuitsPendingChans
      circuitsPendingOtherGuards := follow .guardWait old state p s.circuitsPendingOtherGuards }

/-! ### Marking for close -/

abbrev endCircReasonIpNowRedundant : ℤ := -4
abbrev endCircReasonNone : ℤ := 0
abbrev endCircReasonRequested : ℤ := 3
abbrev endCircReasonFinished : ℤ := 9
abbrev endCircReasonDestroyed : ℤ := 11
abbrev endCircReasonFlagRemote : ℤ := 512

/-- What the modules say that are asked before a circuit is marked: whether a padding
machine wants to keep it, and whether a probe of its path goes out. -/
structure MarkOutcome where
  padding : Bool
  probeSent : Bool

def circpadMarkedCircuitForPadding (o : MarkOutcome) (reason : ℤ) : Bool :=
  (reason = endCircReasonNone || reason = endCircReasonFinished ||
    reason = endCircReasonIpNowRedundant) && o.padding

/-- `pathbias_check_close` returns -1: the circuit has to be probed first. -/
def pathbiasKeeps (o : MarkOutcome) (c : Circuit) : Bool :=
  c.isOrigin && c.pathState = .useAttempted && o.probeSent

def circuitMarkForClose (o : MarkOutcome) (reason : ℤ) (p : ℕ) (s : State Chan) : State Chan :=
  if circpadMarkedCircuitForPadding o reason then s
  else if (s.circ p).markedForClose then s
  else if pathbiasKeeps o (s.circ p) then s
  else
    { s.modify p fun c => { c with markedForClose := true } with
      circuitsPendingClose := s.circuitsPendingClose ++ [p] }

/-! ### Closing -/

def removeFromGlobalList (p : ℕ) (s : State Chan) : State Chan :=
  let idx := (s.circ p).globalCircuitlistIdx
  let lst := smartlistDel s.globalCircuitlist idx.toNat
  let s := { s with globalCircuitlist := lst }
  match lst[idx.toNat]? with
  | some replacement => s.modify replacement (.setIdx idx)
  | none => s

def circuitRemoveFromOriginCircuitList (p : ℕ) (s : State Chan) : State Chan :=
  let idx := (s.circ p).globalOriginCircuitListIdx
  if idx < 0 then s
  else
    let lst := smartlistDel s.globalOriginCircuitList idx.toNat
    let s := { s with globalOriginCircuitList := lst }
    let s := match lst[idx.toNat]? with
      | some replacement => s.modify replacement (.setOriginIdx idx)
      | none => s
    s.modify p (.setOriginIdx (-1))

def onionPendingRemove (p : ℕ) (s : State Chan) : State Chan :=
  { s with onionQueue := s.onionQueue.filter (· ≠ p) }

variable [DecidableEq Chan]

/-- A circuit that is about to be freed leaves the channel on the side `dir`.  `primed`
says whether the DESTROY queue is written from at once. -/
def leaveChannel (markedForClose primed : Bool) (p : ℕ) (dir : CellDirection) (w : Wire Chan) :
    Wire Chan :=
  match (w.link p dir).chan with
  | none => w
  | some chan =>
    let w := if w.condemned chan then w
      else channelSendDestroy primed chan (w.link p dir).circId w
    circuitSetCircidChan markedForClose p dir 0 none (circuitmuxDetachCircuit chan p w)

def circuitAboutToFree (primed : CellDirection → Bool) (p : ℕ) (s : State Chan) : State Chan :=
  let c := s.circ p
  let s := if c.state = .onionskinPending then onionPendingRemove p s else s
  let s := if c.state = .chanWait then
    { s with circuitsPendingChans := smartlistRemove s.circuitsPendingChans p } else s
  let s := { s with
    circuitsPendingOtherGuards := smartlistRemove s.circuitsPendingOtherGuards p }
  let w := leaveChannel c.markedForClose (primed .dirOut) p .dirOut s.wire
  { s with wire :=
      if c.isOrigin then w else leaveChannel c.markedForClose (primed .dirIn) p .dirIn w }

def circuitFree (p : ℕ) (s : State Chan) : State Chan :=
  let c := s.circ p
  let s :=
    if c.isOrigin then circuitRemoveFromOriginCircuitList p s
    else { s with wire := circuitSetCircidChan c.markedForClose p .dirIn 0 none s.wire }
  let s := if (s.circ p).globalCircuitlistIdx ≠ -1 then removeFromGlobalList p s else s
  { s with
    wire := circuitSetCircidChan c.markedForClose p .dirOut 0 none s.wire
    live := Function.update s.live p false }

def circuitClose (primed : CellDirection → Bool) (s : State Chan) (p : ℕ) : State Chan :=
  let s := (removeFromGlobalList p s).modify p (.setIdx (-1))
  let s := if (s.circ p).isOrigin then circuitRemoveFromOriginCircuitList p s else s
  circuitFree p (circuitAboutToFree primed p s)

def circuitCloseAllMarked (primed : ℕ → CellDirection → Bool) (s : State Chan) : State Chan :=
  { s.circuitsPendingClose.foldl (fun s p => circuitClose (primed p) s p) s with
    circuitsPendingClose := [] }

/-- The places of the circuits `l`, from `i` on. -/
def fixIndices : ℕ → List ℕ → State Chan → State Chan
  | _, [], s => s
  | i, p :: l, s => fixIndices (i + 1) l (s.modify p (.setIdx i))

/-- `circuits_handle_oom`: the sort puts the global list in some order, and circuits from
the front of the list are marked until enough memory is free, which is so after `n`. -/
def circuitsHandleOom (sorted : List ℕ) (n : ℕ) (o : ℕ → MarkOutcome) (s : State Chan) :
    State Chan :=
  let s := fixIndices 0 sorted { s with globalCircuitlist := sorted }
  (sorted.take n).foldl
    (fun s p => circuitMarkForClose (o p) endCircReasonResourcelimit p s) s

def circuitAboutToFreeAtexit (p : ℕ) (s : State Chan) : State Chan :=
  let leave (dir : CellDirection) (w : Wire Chan) :=
    match (w.link p dir).chan with
    | none => w
    | some chan =>
      circuitSetCircidChan (s.circ p).markedForClose p dir 0 none (circuitmuxDetachCircuit chan p w)
  let w := leave .dirOut s.wire
  { s with wire := if (s.circ p).isOrigin then w else leave .dirIn w }

def circuitFreeAll (s : State Chan) : State Chan :=
  { s.globalCircuitlist.foldl
      (fun s p => circuitFree p (circuitAboutToFreeAtexit p (s.modify p (.setIdx (-1))))) s with
    globalCircuitlist := []
    globalOriginCircuitList := []
    circuitsPendingChans := []
    circuitsPendingClose := []
    circuitsPendingOtherGuards := [] }

/-! ### What the functions do, list by list -/

omit [DecidableEq Chan] in
theorem circ_modify (s : State Chan) (p : ℕ) (f : Circuit → Circuit) (q : ℕ) :
    (s.modify p f).circ q = if q = p then f (s.circ p) else s.circ q := by
  rw [State.modify]
  simp only [Function.update_apply]

abbrev State.idx (s : State Chan) (p : ℕ) : ℤ := (s.circ p).globalCircuitlistIdx

abbrev State.originIdx (s : State Chan) (p : ℕ) : ℤ := (s.circ p).globalOriginCircuitListIdx

omit [DecidableEq Chan] in
theorem removeFromGlobalList_eq {s : State Chan} {p i : ℕ} (hi : s.idx p = i) :
    removeFromGlobalList p s =
      { s with
        globalCircuitlist := smartlistDel s.globalCircuitlist i
        circ := fun q => (s.circ q).setIdx (delIdx s.globalCircuitlist i s.idx q) } := by
  have hi' : (s.circ p).globalCircuitlistIdx = i := hi
  rw [removeFromGlobalList, hi']
  simp only [Int.toNat_natCast]
  rcases hmoved : (smartlistDel s.globalCircuitlist i)[i]? with _ | replacement
  · simp only [delIdx, hmoved]
    rfl
  · simp only [delIdx, hmoved, State.modify]
    congr 1
    funext q
    by_cases hq : q = replacement
    · subst hq
      simp [Circuit.setIdx]
    · simp [Circuit.setIdx, hq]

omit [DecidableEq Chan] in
theorem circuitRemoveFromOriginCircuitList_eq {s : State Chan} {p j : ℕ}
    (hj : s.originIdx p = j) :
    circuitRemoveFromOriginCircuitList p s =
      { s with
        globalOriginCircuitList := smartlistDel s.globalOriginCircuitList j
        circ := fun q => (s.circ q).setOriginIdx
          (if q = p then -1 else delIdx s.globalOriginCircuitList j s.originIdx q) } := by
  have hj' : (s.circ p).globalOriginCircuitListIdx = j := hj
  rw [circuitRemoveFromOriginCircuitList, hj', if_neg (by omega)]
  simp only [Int.toNat_natCast]
  -- a last entry just goes; any other place is taken by the last circuit, whose index
  -- is set
  rcases hmoved : (smartlistDel s.globalOriginCircuitList j)[j]? with _ | replacement
  · simp only [delIdx, hmoved, State.modify]
    congr 1
    funext q
    by_cases hq : q = p
    · subst hq
      simp [Circuit.setOriginIdx]
    · simp [Circuit.setOriginIdx, hq]
  · simp only [delIdx, hmoved, State.modify]
    congr 1
    funext q
    by_cases hq : q = p <;> by_cases hr : q = replacement
    · subst hq
      subst hr
      simp [Circuit.setOriginIdx]
    · subst hq
      simp [Circuit.setOriginIdx, hr]
    · subst hr
      simp [Circuit.setOriginIdx, hq]
    · simp [Circuit.setOriginIdx, hq, hr]

def closedWire (c : Circuit) (primed : CellDirection → Bool) (p : ℕ) (w : Wire Chan) : Wire Chan :=
  let w := leaveChannel c.markedForClose (primed .dirOut) p .dirOut w
  let w := if c.isOrigin then w else leaveChannel c.markedForClose (primed .dirIn) p .dirIn w
  let w := if c.isOrigin then w else circuitSetCircidChan c.markedForClose p .dirIn 0 none w
  circuitSetCircidChan c.markedForClose p .dirOut 0 none w

theorem circuitAboutToFree_eq (primed : CellDirection → Bool) (p : ℕ) (s : State Chan) :
    circuitAboutToFree primed p s =
      { s with
        onionQueue := if (s.circ p).state = .onionskinPending then
          s.onionQueue.filter (· ≠ p) else s.onionQueue
        circuitsPendingChans := if (s.circ p).state = .chanWait then
          smartlistRemove s.circuitsPendingChans p else s.circuitsPendingChans
        circuitsPendingOtherGuards := smartlistRemove s.circuitsPendingOtherGuards p
        wire := if (s.circ p).isOrigin then
            leaveChannel (s.circ p).markedForClose (primed .dirOut) p .dirOut s.wire
          else leaveChannel (s.circ p).markedForClose (primed .dirIn) p .dirIn
            (leaveChannel (s.circ p).markedForClose (primed .dirOut) p .dirOut s.wire) } := by
  rw [circuitAboutToFree]
  cases (s.circ p).state <;> rfl

theorem circuitFree_eq {s : State Chan} {p : ℕ} (hidx : s.idx p = -1)
    (horigin : (s.circ p).isOrigin = true → s.originIdx p = -1) :
    circuitFree p s =
      { s with
        wire := circuitSetCircidChan (s.circ p).markedForClose p .dirOut 0 none
          (if (s.circ p).isOrigin then s.wire
            else circuitSetCircidChan (s.circ p).markedForClose p .dirIn 0 none s.wire)
        live := Function.update s.live p false } := by
  have hidx' : (s.circ p).globalCircuitlistIdx = -1 := hidx
  rw [circuitFree]
  cases hp : (s.circ p).isOrigin with
  | true =>
    have hj : (s.circ p).globalOriginCircuitListIdx = -1 := horigin hp
    have hremove : circuitRemoveFromOriginCircuitList p s = s := by
      rw [circuitRemoveFromOriginCircuitList, hj, if_pos (by decide)]
    simp only [if_true, hremove, hidx', ne_eq, not_true, if_false]
  | false => simp [hidx']

def closed (primed : CellDirection → Bool) (p i j : ℕ) (s : State Chan) : State Chan :=
  { s with
    live := Function.update s.live p false
    circ := fun q => ((s.circ q).setIdx
        (if q = p then -1 else delIdx s.globalCircuitlist i s.idx q)).setOriginIdx
      (if (s.circ p).isOrigin then
        if q = p then -1 else delIdx s.globalOriginCircuitList j s.originIdx q
      else s.originIdx q)
    globalCircuitlist := smartlistDel s.globalCircuitlist i
    globalOriginCircuitList := if (s.circ p).isOrigin then
      smartlistDel s.globalOriginCircuitList j else s.globalOriginCircuitList
    circuitsPendingChans := if (s.circ p).state = .chanWait then
      smartlistRemove s.circuitsPendingChans p else s.circuitsPendingChans
    circuitsPendingOtherGuards := smartlistRemove s.circuitsPendingOtherGuards p
    onionQueue := if (s.circ p).state = .onionskinPending then
      s.onionQueue.filter (· ≠ p) else s.onionQueue
    wire := closedWire (s.circ p) primed p s.wire }

theorem circuitClose_eq {s : State Chan} {p i j : ℕ} (primed : CellDirection → Bool)
    (hi : s.idx p = i) (hj : (s.circ p).isOrigin = true → s.originIdx p = j) :
    circuitClose primed s p = closed primed p i j s := by
  -- First the circuit leaves the global list.
  have hglobal : (removeFromGlobalList p s).modify p (.setIdx (-1)) =
      { s with
        globalCircuitlist := smartlistDel s.globalCircuitlist i
        circ := fun q => (s.circ q).setIdx
          (if q = p then -1 else delIdx s.globalCircuitlist i s.idx q) } := by
    rw [removeFromGlobalList_eq hi]
    simp only [State.modify]
    congr 1
    funext q
    by_cases hq : q = p
    · subst hq
      simp [Circuit.setIdx]
    · simp [Circuit.setIdx, hq]
  have hside (n : ℤ) : (Circuit.setIdx n (s.circ p)).isOrigin = (s.circ p).isOrigin := rfl
  rw [circuitClose]
  simp only [hglobal, hside]
  cases hp : (s.circ p).isOrigin with
  | true =>
    rw [if_pos rfl, circuitRemoveFromOriginCircuitList_eq (j := j), circuitAboutToFree_eq,
      circuitFree_eq]
    · simp only [closed, closedWire, Circuit.setIdx, Circuit.setOriginIdx, hp, if_true]
    · exact if_pos rfl
    · exact fun _ => if_pos rfl
    · exact hj hp
  | false =>
    rw [if_neg (by decide), circuitAboutToFree_eq, circuitFree_eq]
    · simp only [closed, closedWire, Circuit.setIdx, Circuit.setOriginIdx, hp]
      rfl
    · exact if_pos rfl
    · intro horigin
      exact absurd (hp.symm.trans horigin) (by decide)

structure Lists (s : State Chan) : Prop where
  fresh : ∀ p, s.allocated ≤ p → s.live p = false
  places : Indexed s.globalCircuitlist s.idx
  mem_global : ∀ p, p ∈ s.globalCircuitlist ↔ s.live p = true
  originPlaces : Indexed s.globalOriginCircuitList s.originIdx
  mem_origin : ∀ p, p ∈ s.globalOriginCircuitList ↔ s.live p = true ∧ (s.circ p).isOrigin = true
  nodup_chans : s.circuitsPendingChans.Nodup
  mem_chans : ∀ p, p ∈ s.circuitsPendingChans ↔ s.live p = true ∧ (s.circ p).state = .chanWait
  nodup_guards : s.circuitsPendingOtherGuards.Nodup
  mem_guards : ∀ p, p ∈ s.circuitsPendingOtherGuards ↔
    s.live p = true ∧ (s.circ p).state = .guardWait
  nodup_close : s.circuitsPendingClose.Nodup
  mem_close : ∀ p ∈ s.circuitsPendingClose, s.live p = true ∧ (s.circ p).markedForClose = true

omit [DecidableEq Chan] in
theorem lists_initial : Lists (State.initial : State Chan) where
  fresh _ _ := rfl
  places i p h := by simp [State.initial] at h
  mem_global p := by simp [State.initial]
  originPlaces i p h := by simp [State.initial] at h
  mem_origin p := by simp [State.initial]
  nodup_chans := List.nodup_nil
  mem_chans p := by simp [State.initial]
  nodup_guards := List.nodup_nil
  mem_guards p := by simp [State.initial]
  nodup_close := List.nodup_nil
  mem_close p h := by simp [State.initial] at h

section
variable {s : State Chan}

omit [DecidableEq Chan] in
theorem Lists.allocated_notMem (h : Lists s) :
    s.live s.allocated = false ∧ s.allocated ∉ s.globalCircuitlist ∧
      s.allocated ∉ s.globalOriginCircuitList ∧ s.allocated ∉ s.circuitsPendingChans ∧
      s.allocated ∉ s.circuitsPendingOtherGuards ∧ s.allocated ∉ s.circuitsPendingClose := by
  have hdead := h.fresh s.allocated (Nat.le_refl _)
  refine ⟨hdead, ?_, ?_, ?_, ?_, ?_⟩
  · rw [h.mem_global, hdead]
    decide
  · rw [h.mem_origin, hdead]
    simp
  · rw [h.mem_chans, hdead]
    simp
  · rw [h.mem_guards, hdead]
    simp
  · intro hp
    exact absurd (h.mem_close _ hp).1 (by rw [hdead]; decide)

omit [DecidableEq Chan] in
theorem Lists.frame (h : Lists s) (n : UInt32) (onionQueue : List ℕ) (wire : Wire Chan) :
    Lists { s with nCircuitsAllocated := n, onionQueue := onionQueue, wire := wire } where
  fresh := h.fresh
  places := h.places
  mem_global := h.mem_global
  originPlaces := h.originPlaces
  mem_origin := h.mem_origin
  nodup_chans := h.nodup_chans
  mem_chans := h.mem_chans
  nodup_guards := h.nodup_guards
  mem_guards := h.mem_guards
  nodup_close := h.nodup_close
  mem_close := h.mem_close

def created (c : Circuit) (s : State Chan) : State Chan :=
  { s with
    allocated := s.allocated + 1
    live := Function.update s.live s.allocated true
    circ := Function.update s.circ s.allocated
      ((c.setIdx s.globalCircuitlist.length).setOriginIdx
        (if c.isOrigin then s.globalOriginCircuitList.length else -1))
    globalCircuitlist := s.globalCircuitlist ++ [s.allocated]
    globalOriginCircuitList := if c.isOrigin then s.globalOriginCircuitList ++ [s.allocated]
      else s.globalOriginCircuitList }

omit [DecidableEq Chan] in
theorem originCircuitNew_eq (s : State Chan) :
    originCircuitNew s = { created (.zero true s.nCircuitsAllocated) s with
      nCircuitsAllocated := s.nCircuitsAllocated + 1 } := by
  simp only [originCircuitNew, circuitAddToOriginCircuitList, initCircuitBase, allocate,
    State.modify, created, Circuit.zero, Circuit.setIdx, Circuit.setOriginIdx,
    Function.update_self, Function.update_idem, if_true]

theorem orCircuitNew_eq (pCircId : UInt32) (pChan : Chan) (s : State Chan) :
    orCircuitNew pCircId pChan s = { created (.zero false 0) s with
      wire := circuitSetCircidChan false s.allocated .dirIn pCircId (some pChan) s.wire } := by
  simp only [orCircuitNew, initCircuitBase, allocate, State.modify, created, Circuit.zero,
    Circuit.setIdx, Circuit.setOriginIdx, Function.update_self, Function.update_idem]
  rfl

omit [DecidableEq Chan] in
theorem Lists.created (h : Lists s) {c : Circuit} (hstate : c.state = .building) :
    Lists (created c s) := by
  obtain ⟨-, hglobal, horigin, hchans, hguards, hclose⟩ := h.allocated_notMem
  -- A circuit other than the new one is as it was.
  have hold {p : ℕ} (hp : p ≠ s.allocated) : (Circuitlist.created c s).circ p = s.circ p ∧
      (Circuitlist.created c s).live p = s.live p :=
    ⟨Function.update_of_ne hp .., Function.update_of_ne hp ..⟩
  have hnew : (Circuitlist.created c s).circ s.allocated =
      (c.setIdx s.globalCircuitlist.length).setOriginIdx
        (if c.isOrigin then s.globalOriginCircuitList.length else -1) ∧
      (Circuitlist.created c s).live s.allocated = true :=
    ⟨Function.update_self .., Function.update_self ..⟩
  have hpending {l : List ℕ} {here : CircuitState} (hhere : here ≠ .building)
      (hl : s.allocated ∉ l) (hmem : ∀ p, p ∈ l ↔ s.live p = true ∧ (s.circ p).state = here)
      (p : ℕ) : p ∈ l ↔ (Circuitlist.created c s).live p = true ∧
        ((Circuitlist.created c s).circ p).state = here := by
    by_cases hp : p = s.allocated
    · subst hp
      rw [hnew.1]
      refine iff_of_false hl ?_
      rintro ⟨-, hbuilding⟩
      exact hhere (hbuilding.symm.trans hstate)
    · rw [(hold hp).1, (hold hp).2]
      exact hmem p
  refine ⟨?_, ?_, ?_, ?_, ?_, h.nodup_chans, hpending (by decide) hchans h.mem_chans,
    h.nodup_guards, hpending (by decide) hguards h.mem_guards, h.nodup_close, ?_⟩
  · intro p hp
    have hp' : s.allocated + 1 ≤ p := hp
    rw [(hold (by omega)).2]
    exact h.fresh p (by omega)
  · refine (h.places.append hglobal).congr fun p _ => ?_
    by_cases hp : p = s.allocated
    · subst hp
      rw [State.idx, hnew.1, Function.update_self]
      rfl
    · rw [State.idx, (hold hp).1, Function.update_of_ne hp]
  · intro p
    show p ∈ s.globalCircuitlist ++ [s.allocated] ↔ _
    rw [List.mem_append, List.mem_singleton, h.mem_global]
    by_cases hp : p = s.allocated
    · subst hp
      simp [hnew.2]
    · rw [(hold hp).2]
      simp [hp]
  · show Indexed (if c.isOrigin then s.globalOriginCircuitList ++ [s.allocated]
      else s.globalOriginCircuitList) _
    cases hc : c.isOrigin with
    | true =>
      refine (h.originPlaces.append horigin).congr fun p _ => ?_
      by_cases hp : p = s.allocated
      · subst hp
        rw [State.originIdx, hnew.1, hc, Function.update_self]
        rfl
      · rw [State.originIdx, (hold hp).1, Function.update_of_ne hp]
    | false =>
      refine h.originPlaces.congr fun p hp => ?_
      rw [State.originIdx, (hold (ne_of_mem_of_not_mem hp horigin)).1]
  · intro p
    show p ∈ (if c.isOrigin then s.globalOriginCircuitList ++ [s.allocated]
      else s.globalOriginCircuitList) ↔ _
    by_cases hp : p = s.allocated
    · subst hp
      rw [hnew.1, hnew.2]
      show _ ↔ true = true ∧ c.isOrigin = true
      cases hc : c.isOrigin <;> simp [horigin]
    · rw [(hold hp).1, (hold hp).2, ← h.mem_origin]
      cases c.isOrigin <;> simp [hp]
  · intro p hp
    rw [(hold (ne_of_mem_of_not_mem hp hclose)).1, (hold (ne_of_mem_of_not_mem hp hclose)).2]
    exact h.mem_close p hp

theorem follow_spec {l : List ℕ} {p : ℕ} {live : ℕ → Bool} {stateOf : ℕ → CircuitState}
    {here toState : CircuitState} (hnodup : l.Nodup)
    (hmem : ∀ q, q ∈ l ↔ live q = true ∧ stateOf q = here) (hp : live p = true)
    (hne : toState ≠ stateOf p) :
    (follow here (stateOf p) toState p l).Nodup ∧
      ∀ q, q ∈ follow here (stateOf p) toState p l ↔
        live q = true ∧ Function.update stateOf p toState q = here := by
  -- After the removal `p` is not in the list, whether or not it was there.
  have hleft : (if stateOf p = here then smartlistRemove l p else l).Nodup ∧
      ∀ q, q ∈ (if stateOf p = here then smartlistRemove l p else l) ↔
        q ≠ p ∧ live q = true ∧ stateOf q = here := by
    by_cases hfrom : stateOf p = here
    · rw [if_pos hfrom]
      refine ⟨nodup_smartlistRemove hnodup, fun q => ?_⟩
      rw [mem_smartlistRemove, hmem]
      tauto
    · rw [if_neg hfrom]
      refine ⟨hnodup, fun q => ?_⟩
      rw [hmem]
      refine ⟨fun hq => ⟨?_, hq⟩, fun hq => hq.2⟩
      rintro rfl
      exact hfrom hq.2
  rw [follow]
  by_cases hto : toState = here
  · rw [if_pos hto]
    refine ⟨?_, fun q => ?_⟩
    · rw [List.nodup_append]
      refine ⟨hleft.1, List.nodup_singleton p, ?_⟩
      intro q hq r hr
      rw [List.mem_singleton] at hr
      rw [hr]
      exact ((hleft.2 q).mp hq).1
    · rw [List.mem_append, List.mem_singleton, hleft.2]
      by_cases hq : q = p
      · subst hq
        simp [hp, hto]
      · simp [hq]
  · rw [if_neg hto]
    refine ⟨hleft.1, fun q => ?_⟩
    rw [hleft.2]
    by_cases hq : q = p
    · subst hq
      simp [hto]
    · simp [hq]

omit [DecidableEq Chan] in
theorem Lists.modify (h : Lists s) {p : ℕ} {f : Circuit → Circuit} {chans guards close : List ℕ}
    (hf : ∀ c, (f c).isOrigin = c.isOrigin ∧
      (f c).globalCircuitlistIdx = c.globalCircuitlistIdx ∧
      (f c).globalOriginCircuitListIdx = c.globalOriginCircuitListIdx)
    (hchans : chans.Nodup ∧ ∀ q, q ∈ chans ↔
      s.live q = true ∧ ((s.modify p f).circ q).state = .chanWait)
    (hguards : guards.Nodup ∧ ∀ q, q ∈ guards ↔
      s.live q = true ∧ ((s.modify p f).circ q).state = .guardWait)
    (hclose : close.Nodup ∧ ∀ q ∈ close,
      s.live q = true ∧ ((s.modify p f).circ q).markedForClose = true) :
    Lists { s.modify p f with
      circuitsPendingChans := chans
      circuitsPendingOtherGuards := guards
      circuitsPendingClose := close } := by
  have hsame (q : ℕ) : ((s.modify p f).circ q).isOrigin = (s.circ q).isOrigin ∧
      (s.modify p f).idx q = s.idx q ∧ (s.modify p f).originIdx q = s.originIdx q := by
    rw [State.idx, State.originIdx, circ_modify]
    split
    · rename_i hq
      subst hq
      exact hf _
    · exact ⟨rfl, rfl, rfl⟩
  refine ⟨h.fresh, h.places.congr fun q _ => (hsame q).2.1, h.mem_global,
    h.originPlaces.congr fun q _ => (hsame q).2.2, ?_, hchans.1, hchans.2, hguards.1, hguards.2,
    hclose.1, hclose.2⟩
  intro q
  rw [(hsame q).1]
  exact h.mem_origin q

omit [DecidableEq Chan] in
theorem Lists.circuitSetState (h : Lists s) {p : ℕ} (hp : s.live p = true)
    (state : CircuitState) : Lists (circuitSetState p state s) := by
  rw [Circuitlist.circuitSetState]
  by_cases hstate : state = (s.circ p).state
  · rw [if_pos hstate]
    exact h
  · rw [if_neg hstate]
    have hcirc (q : ℕ) : ((s.modify p fun c => { c with state := state }).circ q).state =
        Function.update (fun q => (s.circ q).state) p state q := by
      rw [circ_modify, Function.update_apply]
      split <;> rfl
    -- the two pending lists follow the state, and the marked circuits do not know of it
    refine h.modify (fun _ => ⟨rfl, rfl, rfl⟩) ?_ ?_ ⟨h.nodup_close, ?_⟩
    · simp only [hcirc]
      exact follow_spec h.nodup_chans h.mem_chans hp hstate
    · simp only [hcirc]
      exact follow_spec h.nodup_guards h.mem_guards hp hstate
    · intro q hq
      obtain ⟨hlive, hmarked⟩ := h.mem_close q hq
      refine ⟨hlive, ?_⟩
      rw [circ_modify]
      split
      · rename_i heq
        subst heq
        exact hmarked
      · exact hmarked

omit [DecidableEq Chan] in
theorem Lists.circuitMarkForClose (h : Lists s) {p : ℕ} (hp : s.live p = true)
    (o : MarkOutcome) (reason : ℤ) : Lists (circuitMarkForClose o reason p s) := by
  rw [Circuitlist.circuitMarkForClose]
  split_ifs with hpadding hmarked hkeeps
  · exact h
  · exact h
  · exact h
  · have hcirc (q : ℕ) : ((s.modify p fun c => { c with markedForClose := true }).circ q).state =
        (s.circ q).state := by
      rw [circ_modify]
      split
      · rename_i heq
        rw [heq]
      · rfl
    refine h.modify (fun _ => ⟨rfl, rfl, rfl⟩) ⟨h.nodup_chans, ?_⟩ ⟨h.nodup_guards, ?_⟩ ⟨?_, ?_⟩
    · simp only [hcirc]
      exact h.mem_chans
    · simp only [hcirc]
      exact h.mem_guards
    · -- A circuit that waits for its end is marked, and `p` is not.
      rw [List.nodup_append]
      refine ⟨h.nodup_close, List.nodup_singleton p, ?_⟩
      intro q hq r hr
      rw [List.mem_singleton] at hr
      subst hr
      rintro rfl
      exact hmarked (h.mem_close q hq).2
    · intro q hq
      rw [circ_modify]
      rcases List.mem_append.mp hq with hq | hq
      · obtain ⟨hlive, hq'⟩ := h.mem_close q hq
        refine ⟨hlive, ?_⟩
        split
        · rfl
        · exact hq'
      · rw [List.mem_singleton] at hq
        subst hq
        rw [if_pos rfl]
        exact ⟨hp, rfl⟩

omit [DecidableEq Chan] in
theorem live_update_iff (s : State Chan) (p q : ℕ) :
    Function.update s.live p false q = true ↔ q ≠ p ∧ s.live q = true := by
  by_cases hq : q = p
  · subst hq
    simp
  · simp [hq]

omit [DecidableEq Chan] in
theorem Lists.origin_del (h : Lists s) {p j : ℕ}
    (hj : (s.circ p).isOrigin = true → s.globalOriginCircuitList[j]? = some p) :
    (Indexed (if (s.circ p).isOrigin then smartlistDel s.globalOriginCircuitList j
        else s.globalOriginCircuitList) fun q => if (s.circ p).isOrigin then
          if q = p then -1 else delIdx s.globalOriginCircuitList j s.originIdx q
        else s.originIdx q) ∧
      ∀ q, q ∈ (if (s.circ p).isOrigin then smartlistDel s.globalOriginCircuitList j
          else s.globalOriginCircuitList) ↔
        Function.update s.live p false q = true ∧ (s.circ q).isOrigin = true := by
  by_cases ho : (s.circ p).isOrigin = true
  · obtain ⟨hplaces, hgone⟩ := h.originPlaces.del (hj ho)
    simp only [ho, if_true]
    refine ⟨hplaces.congr fun q hq => if_neg (ne_of_mem_of_not_mem hq hgone), fun q => ?_⟩
    rw [live_update_iff]
    by_cases hqp : q = p
    · subst hqp
      exact iff_of_false hgone fun hq => hq.1.1 rfl
    · rw [mem_smartlistDel (hj ho) hqp, h.mem_origin]
      simp [hqp]
  · simp only [if_neg ho]
    refine ⟨h.originPlaces, fun q => ?_⟩
    rw [live_update_iff, h.mem_origin]
    refine ⟨fun hq => ⟨⟨?_, hq.1⟩, hq.2⟩, fun hq => ⟨hq.1.2, hq.2⟩⟩
    rintro rfl
    exact ho hq.2

omit [DecidableEq Chan] in
theorem Lists.chans_remove (h : Lists s) (p : ℕ) :
    (if (s.circ p).state = .chanWait then smartlistRemove s.circuitsPendingChans p
        else s.circuitsPendingChans).Nodup ∧
      ∀ q, q ∈ (if (s.circ p).state = .chanWait then smartlistRemove s.circuitsPendingChans p
          else s.circuitsPendingChans) ↔
        Function.update s.live p false q = true ∧ (s.circ q).state = .chanWait := by
  by_cases hchan : (s.circ p).state = .chanWait
  · rw [if_pos hchan]
    refine ⟨nodup_smartlistRemove h.nodup_chans, fun q => ?_⟩
    rw [live_update_iff, mem_smartlistRemove, h.mem_chans]
    tauto
  · rw [if_neg hchan]
    refine ⟨h.nodup_chans, fun q => ?_⟩
    rw [live_update_iff, h.mem_chans]
    refine ⟨fun hq => ⟨⟨?_, hq.1⟩, hq.2⟩, fun hq => ⟨hq.1.2, hq.2⟩⟩
    rintro rfl
    exact hchan hq.2

theorem Lists.circuitClose {p : ℕ} {l : List ℕ} (primed : CellDirection → Bool)
    (h : Lists { s with circuitsPendingClose := p :: l }) :
    Lists { circuitClose primed s p with circuitsPendingClose := l } := by
  have hp : s.live p = true := (h.mem_close p List.mem_cons_self).1
  obtain ⟨i, hi, hi'⟩ : ∃ i : ℕ, s.idx p = i ∧ s.globalCircuitlist[i]? = some p :=
    h.places.getElem? ((h.mem_global p).mpr hp)
  obtain ⟨j, hj⟩ : ∃ j : ℕ, (s.circ p).isOrigin = true →
      s.originIdx p = j ∧ s.globalOriginCircuitList[j]? = some p := by
    by_cases ho : (s.circ p).isOrigin = true
    · obtain ⟨j, hj⟩ := h.originPlaces.getElem? ((h.mem_origin p).mpr ⟨hp, ho⟩)
      exact ⟨j, fun _ => hj⟩
    · exact ⟨0, fun ho' => absurd ho' ho⟩
  rw [circuitClose_eq primed hi fun ho => (hj ho).1]
  obtain ⟨hplaces, hgone⟩ := h.places.del hi'
  obtain ⟨horiginPlaces, horigin⟩ := h.origin_del fun ho => (hj ho).2
  obtain ⟨hnodupChans, hchans⟩ := h.chans_remove p
  obtain ⟨hnotin, hnodup⟩ := List.nodup_cons.mp h.nodup_close
  refine ⟨?_, ?_, ?_, horiginPlaces, horigin, hnodupChans, hchans,
    nodup_smartlistRemove h.nodup_guards, ?_, hnodup, ?_⟩
  · intro q hq
    by_cases hqp : q = p
    · exact hqp ▸ Function.update_self ..
    · exact (Function.update_of_ne hqp ..).trans (h.fresh q hq)
  · refine hplaces.congr fun q hq => ?_
    exact if_neg (ne_of_mem_of_not_mem hq hgone)
  · intro q
    show q ∈ smartlistDel s.globalCircuitlist i ↔ Function.update s.live p false q = true
    rw [live_update_iff, ← h.mem_global]
    by_cases hqp : q = p
    · subst hqp
      simp [hgone]
    · simp [hqp, mem_smartlistDel hi' hqp]
  · -- the removal looks for `p` whether or not it waits for a guard
    intro q
    show q ∈ smartlistRemove s.circuitsPendingOtherGuards p ↔
      Function.update s.live p false q = true ∧ (s.circ q).state = .guardWait
    rw [live_update_iff, mem_smartlistRemove, h.mem_guards]
    tauto
  · intro q hq
    have hq' := h.mem_close q (List.mem_cons_of_mem p hq)
    show Function.update s.live p false q = true ∧ (s.circ q).markedForClose = true
    rw [live_update_iff]
    exact ⟨⟨ne_of_mem_of_not_mem hq hnotin, hq'.1⟩, hq'.2⟩

theorem Lists.foldl_circuitClose (primed : ℕ → CellDirection → Bool) {l : List ℕ} :
    ∀ {s : State Chan}, Lists { s with circuitsPendingClose := l } →
      Lists { l.foldl (fun s p => Circuitlist.circuitClose (primed p) s p) s with
        circuitsPendingClose := [] } := by
  induction l with
  | nil => exact fun h => h
  | cons p l ih => exact fun h => ih (h.circuitClose (primed p))

theorem Lists.circuitCloseAllMarked (h : Lists s) (primed : ℕ → CellDirection → Bool) :
    Lists (circuitCloseAllMarked primed s) :=
  Lists.foldl_circuitClose primed h

/-! ### Running out of memory, and the end -/

omit [DecidableEq Chan] in
theorem fixIndices_eq {l : List ℕ} : ∀ {n : ℕ} {s : State Chan}, l.Nodup →
    fixIndices n l s = { s with circ := fun q =>
      if q ∈ l then (s.circ q).setIdx (n + l.idxOf q : ℕ) else s.circ q } := by
  induction l with
  | nil =>
    intro n s _
    simp [fixIndices]
  | cons p l ih =>
    intro n s hnodup
    obtain ⟨hp, hl⟩ := List.nodup_cons.mp hnodup
    rw [fixIndices, ih hl]
    simp only [State.modify]
    congr 1
    funext q
    by_cases hq : q = p
    · subst hq
      simp [hp]
    · have hidx : (p :: l).idxOf q = l.idxOf q + 1 := List.idxOf_cons_ne _ fun h => hq h.symm
      simp only [List.mem_cons, hq, false_or, hidx, Function.update_of_ne hq]
      split
      · congr 1
        omega
      · rfl

omit [DecidableEq Chan] in
theorem Lists.fixIndices (h : Lists s) {sorted : List ℕ} (hperm : sorted.Perm s.globalCircuitlist) :
    Lists (fixIndices 0 sorted { s with globalCircuitlist := sorted }) := by
  -- the same circuits in another order: only their indices are new
  have hnodup : sorted.Nodup := hperm.nodup_iff.mpr h.places.nodup
  rw [fixIndices_eq hnodup]
  have hcirc (q : ℕ) : (if q ∈ sorted then (s.circ q).setIdx (0 + sorted.idxOf q : ℕ)
      else s.circ q).isOrigin = (s.circ q).isOrigin ∧
    (if q ∈ sorted then (s.circ q).setIdx (0 + sorted.idxOf q : ℕ)
      else s.circ q).state = (s.circ q).state ∧
    (if q ∈ sorted then (s.circ q).setIdx (0 + sorted.idxOf q : ℕ)
      else s.circ q).markedForClose = (s.circ q).markedForClose ∧
    (if q ∈ sorted then (s.circ q).setIdx (0 + sorted.idxOf q : ℕ)
      else s.circ q).globalOriginCircuitListIdx = (s.circ q).globalOriginCircuitListIdx := by
    split <;> exact ⟨rfl, rfl, rfl, rfl⟩
  refine ⟨h.fresh, ?_, ?_, h.originPlaces.congr fun q _ => (hcirc q).2.2.2, ?_, h.nodup_chans, ?_,
    h.nodup_guards, ?_, h.nodup_close, ?_⟩
  · intro i q hq
    obtain ⟨hi, rfl⟩ := List.getElem?_eq_some_iff.mp hq
    show (if sorted[i] ∈ sorted then (s.circ sorted[i]).setIdx (0 + sorted.idxOf sorted[i] : ℕ)
      else s.circ sorted[i]).globalCircuitlistIdx = i
    rw [if_pos (List.getElem_mem hi), hnodup.idxOf_getElem i hi, Nat.zero_add]
    rfl
  · intro q
    rw [← h.mem_global]
    exact hperm.mem_iff
  · intro q
    simp only [hcirc]
    exact h.mem_origin q
  · intro q
    simp only [hcirc]
    exact h.mem_chans q
  · intro q
    simp only [hcirc]
    exact h.mem_guards q
  · intro q hq
    simp only [hcirc]
    exact h.mem_close q hq

omit [DecidableEq Chan] in
theorem live_circuitMarkForClose (o : MarkOutcome) (reason : ℤ) (p : ℕ) (s : State Chan) :
    (circuitMarkForClose o reason p s).live = s.live := by
  rw [circuitMarkForClose]
  split_ifs <;> rfl

omit [DecidableEq Chan] in
theorem foldl_circuitMarkForClose {P : State Chan → Prop} {o : ℕ → MarkOutcome} {reason : ℤ}
    (hmark : ∀ s p, P s → s.live p = true → P (circuitMarkForClose (o p) reason p s)) {l : List ℕ} :
    ∀ {s : State Chan}, P s → (∀ p ∈ l, s.live p = true) →
      P (l.foldl (fun s p => circuitMarkForClose (o p) reason p s) s) := by
  induction l with
  | nil => exact fun h _ => h
  | cons p l ih =>
    intro s h hlive
    refine ih (hmark s p h (hlive p List.mem_cons_self)) ?_
    intro q hq
    rw [live_circuitMarkForClose]
    exact hlive q (List.mem_cons_of_mem p hq)

omit [DecidableEq Chan] in
theorem Lists.circuitsHandleOom (h : Lists s) {sorted : List ℕ}
    (hperm : sorted.Perm s.globalCircuitlist) (n : ℕ) (o : ℕ → MarkOutcome) :
    Lists (circuitsHandleOom sorted n o s) := by
  rw [Circuitlist.circuitsHandleOom]
  refine foldl_circuitMarkForClose (fun s p hs hlive => hs.circuitMarkForClose hlive (o p) _)
    (h.fixIndices hperm) fun p hp => ?_
  rw [fixIndices_eq (hperm.nodup_iff.mpr h.places.nodup)]
  exact (h.mem_global p).mp (hperm.mem_iff.mp (List.mem_of_mem_take hp))

omit [DecidableEq Chan] in
theorem live_removeFromGlobalList (p : ℕ) (s : State Chan) :
    (removeFromGlobalList p s).live = s.live ∧
      (removeFromGlobalList p s).allocated = s.allocated := by
  simp only [removeFromGlobalList]
  split <;> exact ⟨rfl, rfl⟩

omit [DecidableEq Chan] in
theorem live_circuitRemoveFromOriginCircuitList (p : ℕ) (s : State Chan) :
    (circuitRemoveFromOriginCircuitList p s).live = s.live ∧
      (circuitRemoveFromOriginCircuitList p s).allocated = s.allocated := by
  simp only [circuitRemoveFromOriginCircuitList]
  split
  · exact ⟨rfl, rfl⟩
  · split <;> exact ⟨rfl, rfl⟩

theorem live_circuitFree (p : ℕ) (s : State Chan) :
    (circuitFree p s).live = Function.update s.live p false ∧
      (circuitFree p s).allocated = s.allocated := by
  have hglobal (s' : State Chan) : (if (s'.circ p).globalCircuitlistIdx ≠ -1 then
      removeFromGlobalList p s' else s').live = s'.live ∧
      (if (s'.circ p).globalCircuitlistIdx ≠ -1 then
      removeFromGlobalList p s' else s').allocated = s'.allocated := by
    split
    · exact live_removeFromGlobalList p s'
    · exact ⟨rfl, rfl⟩
  simp only [circuitFree, hglobal]
  split
  · simp only [live_circuitRemoveFromOriginCircuitList, and_self]
  · exact ⟨rfl, rfl⟩

theorem live_foldl_circuitFree {l : List ℕ} : ∀ {s : State Chan},
    (l.foldl (fun s p =>
      circuitFree p (circuitAboutToFreeAtexit p (s.modify p (.setIdx (-1))))) s).allocated =
        s.allocated ∧
    ∀ q, (l.foldl (fun s p =>
      circuitFree p (circuitAboutToFreeAtexit p (s.modify p (.setIdx (-1))))) s).live q = true ↔
        q ∉ l ∧ s.live q = true := by
  induction l with
  | nil => simp
  | cons p l ih =>
    intro s
    obtain ⟨hallocated, hlive⟩ := ih
      (s := circuitFree p (circuitAboutToFreeAtexit p (s.modify p (.setIdx (-1)))))
    obtain ⟨hfreed, hsame⟩ :=
      live_circuitFree p (circuitAboutToFreeAtexit p (s.modify p (.setIdx (-1))))
    refine ⟨hallocated.trans hsame, fun q => ?_⟩
    rw [List.foldl_cons, hlive, hfreed, List.mem_cons]
    by_cases hq : q = p
    · subst hq
      simp
    · simp only [hq, false_or, Function.update_of_ne hq]
      rfl

theorem Lists.circuitFreeAll (h : Lists s) : Lists (circuitFreeAll s) := by
  obtain ⟨hallocated, hfreed⟩ := live_foldl_circuitFree (l := s.globalCircuitlist) (s := s)
  have hlive (q : ℕ) : (Circuitlist.circuitFreeAll s).live q = false := by
    rw [Bool.eq_false_iff]
    intro hq
    obtain ⟨hnotin, hq'⟩ := (hfreed q).mp hq
    exact hnotin ((h.mem_global q).mpr hq')
  have hnone {l : List ℕ} {c : Prop} (hl : l = []) (q : ℕ) :
      q ∈ l ↔ (Circuitlist.circuitFreeAll s).live q = true ∧ c := by
    rw [hl, hlive]
    simp
  refine ⟨fun q _ => hlive q, ?_, ?_, ?_, fun q => hnone rfl q, List.nodup_nil,
    fun q => hnone rfl q, List.nodup_nil, fun q => hnone rfl q, List.nodup_nil, ?_⟩
  · intro i q hq
    exact absurd hq (by simp [Circuitlist.circuitFreeAll])
  · intro q
    rw [hlive]
    simp [Circuitlist.circuitFreeAll]
  · intro i q hq
    exact absurd hq (by simp [Circuitlist.circuitFreeAll])
  · intro q hq
    exact absurd hq (by simp [Circuitlist.circuitFreeAll])

end

inductive Op (Chan : Type*)
  | originCircuitNew
  | orCircuitNew (pCircId : UInt32) (pChan : Chan)
  | circuitSetState (p : ℕ) (state : CircuitState)
  | circuitMarkForClose (o : MarkOutcome) (reason : ℤ) (p : ℕ)
  | circuitCloseAllMarked (primed : ℕ → CellDirection → Bool)
  | circuitsHandleOom (sorted : List ℕ) (n : ℕ) (o : ℕ → MarkOutcome)
  | circuitFreeAll

/-- The lists of circuits.  A circuit whose state is set, or that is marked, has not been
freed; and a sort leaves no circuit out. -/
def circuitlist : System (State Chan) (Op Chan) where
  init s := s = .initial
  step s op s' := match op with
    | .originCircuitNew => s' = originCircuitNew s
    | .orCircuitNew pCircId pChan => s' = orCircuitNew pCircId pChan s
    | .circuitSetState p state => s.live p = true ∧ s' = circuitSetState p state s
    | .circuitMarkForClose o reason p => s.live p = true ∧ s' = circuitMarkForClose o reason p s
    | .circuitCloseAllMarked primed => s' = circuitCloseAllMarked primed s
    | .circuitsHandleOom sorted n o =>
      sorted.Perm s.globalCircuitlist ∧ s' = circuitsHandleOom sorted n o s
    | .circuitFreeAll => s' = circuitFreeAll s

theorem lists_inductive :
    Inductive (circuitlist : System (State Chan) (Op Chan)) (fun _ _ => True) Lists where
  init s hs := hs ▸ lists_initial
  step s op s' h _ hstep := by
    cases op with
    | originCircuitNew =>
      obtain rfl : s' = _ := hstep
      rw [originCircuitNew_eq]
      exact (h.created rfl).frame _ s.onionQueue s.wire
    | orCircuitNew pCircId pChan =>
      obtain rfl : s' = _ := hstep
      rw [orCircuitNew_eq]
      exact (h.created rfl).frame s.nCircuitsAllocated s.onionQueue _
    | circuitSetState p state =>
      obtain ⟨hp, rfl⟩ := hstep
      exact h.circuitSetState hp state
    | circuitMarkForClose o reason p =>
      obtain ⟨hp, rfl⟩ := hstep
      exact h.circuitMarkForClose hp o reason
    | circuitCloseAllMarked primed =>
      obtain rfl : s' = _ := hstep
      exact h.circuitCloseAllMarked primed
    | circuitsHandleOom sorted n o =>
      obtain ⟨hperm, rfl⟩ := hstep
      exact h.circuitsHandleOom hperm n o
    | circuitFreeAll =>
      obtain rfl : s' = _ := hstep
      exact h.circuitFreeAll

/-- In every run each circuit stands in the lists at the places it knows, the lists have
no other entries and none twice, and the lists of those that wait follow the states. -/
theorem lists_agree {s : State Chan} (hr : Reached circuitlist (fun _ _ => True) s) :
    (∀ p, s.live p = true →
      ∃ i : ℕ, (s.circ p).globalCircuitlistIdx = i ∧ s.globalCircuitlist[i]? = some p) ∧
    (∀ p, s.live p = true → (s.circ p).isOrigin = true →
      ∃ i : ℕ, (s.circ p).globalOriginCircuitListIdx = i ∧
        s.globalOriginCircuitList[i]? = some p) ∧
    s.globalCircuitlist.Nodup ∧ s.globalOriginCircuitList.Nodup ∧
    (∀ p ∈ s.globalCircuitlist, s.live p = true) ∧
    (∀ p ∈ s.globalOriginCircuitList, s.live p = true ∧ (s.circ p).isOrigin = true) ∧
    s.circuitsPendingChans.Nodup ∧
    (∀ p, p ∈ s.circuitsPendingChans ↔ s.live p = true ∧ (s.circ p).state = .chanWait) ∧
    s.circuitsPendingOtherGuards.Nodup ∧
    (∀ p, p ∈ s.circuitsPendingOtherGuards ↔
      s.live p = true ∧ (s.circ p).state = .guardWait) := by
  have h : Lists s := hr.invariant lists_inductive
  refine ⟨fun p hp => ?_, fun p hp ho => ?_, h.places.nodup, h.originPlaces.nodup,
    fun p hp => (h.mem_global p).mp hp, fun p hp => (h.mem_origin p).mp hp,
    h.nodup_chans, h.mem_chans, h.nodup_guards, h.mem_guards⟩
  · exact h.places.getElem? ((h.mem_global p).mpr hp)
  · exact h.originPlaces.getElem? ((h.mem_origin p).mpr ⟨hp, ho⟩)

def sampleWaiting : State ℕ := circuitSetState 0 .chanWait (originCircuitNew .initial)

theorem lists_agree_sampleWaiting :
    0 ∈ sampleWaiting.circuitsPendingChans ∧
      ∃ i : ℕ, (sampleWaiting.circ 0).globalCircuitlistIdx = i ∧
        sampleWaiting.globalCircuitlist[i]? = some 0 := by
  have hnew : (circuitlist : System (State ℕ) (Op ℕ)).step .initial .originCircuitNew
      (originCircuitNew .initial) := rfl
  have hwait : (circuitlist : System (State ℕ) (Op ℕ)).step (originCircuitNew .initial)
      (.circuitSetState 0 .chanWait) sampleWaiting := ⟨rfl, rfl⟩
  obtain ⟨hplaces, -, -, -, -, -, -, hchans, -, -⟩ :=
    lists_agree (.step (.step (.init rfl) trivial hnew) trivial hwait)
  exact ⟨(hchans 0).mpr ⟨rfl, rfl⟩, hplaces 0 rfl⟩

end Circuitlist
