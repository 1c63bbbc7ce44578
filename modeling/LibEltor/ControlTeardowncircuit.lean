/-
TEARDOWNCIRCUIT (`feature/control/control_teardowncircuit.c`), and what else is done to
circuits (`core/or/command.c`, `core/or/relay.c`, `core/or/circuitlist.c`).

The command tells the neighbours of a circuit that it ends, marks it, and with
FORCE_IMMEDIATE takes it apart on the spot.  A marked circuit is freed the next time
`circuitCloseAllMarked` runs, if it is in the list of those that wait for that.
-/
import LibEltor.Circuitlist

open CircidMap CircuitBuild Circuitlist Smartlist Transition

namespace ControlTeardowncircuit

variable {Chan : Type*}

/-! ### The command -/

/-- The arguments for one circuit.  There is no `circuitId` if the first argument is no
number of 32 bits, and no `peerIdentity` if none is given that can be decoded. -/
structure TeardownArgs where
  circuitId : Option UInt32
  peerIdentity : Option (List UInt8)
  logOnly : Bool
  forceImmediate : Bool

def circuitIsOpenAndActive (c : Circuit) : Bool :=
  if c.markedForClose then false
  else match c.state with
    | .opened | .building | .onionskinPending => true
    | .chanWait => true
    | _ => false

def circuitGetByGlobalId (id : UInt32) (s : State Chan) : Option ℕ :=
  match s.globalCircuitlist.find?
      fun p => (s.circ p).isOrigin && (s.circ p).globalIdentifier == id with
  | some p => if (s.circ p).markedForClose then none else some p
  | none => none

/-- The test of `find_circuit_for_teardown` for a circuit that does not begin here. -/
def orCircuitMatches (identityDigest : Chan → List UInt8) (id : UInt32)
    (peerIdentity : Option (List UInt8)) (s : State Chan) (p : ℕ) : Bool :=
  !(s.circ p).isOrigin && !(s.circ p).markedForClose &&
    ((s.wire.link p .dirIn).circId == id || (s.wire.link p .dirOut).circId == id) &&
    match peerIdentity, (s.wire.link p .dirIn).chan with
    | some digest, some chan => identityDigest chan == digest
    | some _, none => false
    | none, _ => true

def findCircuitForTeardown (identityDigest : Chan → List UInt8) (args : TeardownArgs)
    (s : State Chan) : Option ℕ :=
  match args.circuitId with
  | none => none
  | some id =>
    match circuitGetByGlobalId id s with
    | some p => some p
    | none => s.globalCircuitlist.find? (orCircuitMatches identityDigest id args.peerIdentity s)

variable [DecidableEq Chan]

def sendDestroyTo (primed : Bool) (p : ℕ) (dir : CellDirection) (w : Wire Chan) : Wire Chan :=
  match (w.link p dir).chan with
  | none => w
  | some chan =>
    if (w.link p dir).circId ≠ 0 then channelSendDestroy primed chan (w.link p dir).circId w
    else w

/-- DESTROY cells to all neighbours.  A circuit that begins here has none before it. -/
def sendDestroys (primed : CellDirection → Bool) (p : ℕ) (s : State Chan) : State Chan :=
  let w := if (s.circ p).isOrigin then s.wire else sendDestroyTo (primed .dirIn) p .dirIn s.wire
  { s with wire := sendDestroyTo (primed .dirOut) p .dirOut w }

/-- The command with the argument ALL: it goes through a copy of the list. -/
def teardownAll (primed : ℕ → CellDirection → Bool) (o : ℕ → MarkOutcome) (s : State Chan) :
    State Chan :=
  s.globalCircuitlist.foldl
    (fun s p =>
      if (s.circ p).markedForClose then s
      else circuitMarkForClose (o p) endCircReasonRequested p (sendDestroys (primed p) p s)) s

/-- The mark is set, and the state written, without the functions that keep the lists. -/
def forceImmediateCircuitDestruction (o : MarkOutcome) (reason : ℤ) (p : ℕ) (s : State Chan) :
    State Chan :=
  -- From here on the circuit counts as one that has left the circuitmux.
  let s := s.modify p fun c => { c with markedForClose := true }
  let s := if (s.wire.link p .dirOut).circId ≠ 0 then
      { s with wire :=
          circuitSetCircidChan (s.circ p).markedForClose p .dirOut 0 none s.wire }
    else s
  let s := s.modify p fun c => { c with state := .building }
  -- The circuit is marked by now, so this call changes nothing.
  circuitMarkForClose o reason p s

def teardownCircuit (args : TeardownArgs) (primed : CellDirection → Bool) (o : MarkOutcome)
    (p : ℕ) (s : State Chan) : State Chan :=
  if circuitIsOpenAndActive (s.circ p) then
    if args.logOnly then s
    else
      -- The circuit stays attached, so the clean-up will send these cells once more.
      let s := sendDestroys primed p s
      let s := if (s.circ p).markedForClose then s
        else circuitMarkForClose o endCircReasonRequested p s
      if args.forceImmediate then forceImmediateCircuitDestruction o endCircReasonRequested p s
      else s
  else s

def handleControlTeardowncircuit (identityDigest : Chan → List UInt8) (args : TeardownArgs)
    (primed : CellDirection → Bool) (o : MarkOutcome) (s : State Chan) : State Chan :=
  match findCircuitForTeardown identityDigest args s with
  | none => s
  | some p => teardownCircuit args primed o p s

/-- A CREATE cell.  `refused` stands for the reasons to send a DESTROY cell back. -/
def commandProcessCreateCell (refused primed : Bool) (id : UInt32) (chan : Chan)
    (s : State Chan) : State Chan :=
  -- These are dropped: an answer would hit a circuit that has the id.
  if id = 0 then s
  else if circuitIdInUseOnChannel s.wire chan id ≠ 0 then s
  else
    let s := { s with wire := s.wire.take chan id }
    if refused then { s with wire := channelSendDestroy primed chan id s.wire }
    else circuitSetState s.allocated .onionskinPending (orCircuitNew id chan s)

def commandProcessDestroyCell (o : MarkOutcome) (reason : UInt8) (id : UInt32) (chan : Chan)
    (s : State Chan) : State Chan :=
  match circuitGetByCircidChannel s.wire chan id with
  | none => s
  | some p =>
    if (s.circ p).markedForClose then s
    -- From behind if the circuit has the id there, from ahead otherwise.
    else if (s.circ p).isOrigin = false ∧ (s.wire.link p .dirIn).chan = some chan ∧
        (s.wire.link p .dirIn).circId = id then
      circuitMarkForClose o endCircReasonDestroyed p
        { s with wire := circuitSetCircidChan false p .dirIn 0 none s.wire }
    else
      circuitMarkForClose o
        (if (s.circ p).isOrigin then (reason.toNat : ℤ) + endCircReasonFlagRemote
          else endCircReasonDestroyed) p
        { s with wire := circuitSetCircidChan false p .dirOut 0 none s.wire }

/-- A TRUNCATE cell.  `nHop` says that the circuit waits for a channel. -/
def processTruncate (nHop primed : Bool) (p : ℕ) (s : State Chan) : State Chan :=
  let s := if nHop then circuitSetState p .opened s else s
  match (s.wire.link p .dirOut).chan with
  | none => s
  | some chan =>
    let w := channelSendDestroy primed chan (s.wire.link p .dirOut).circId s.wire
    { s with wire := circuitSetCircidChan false p .dirOut 0 none w }

def circuitDeliverCreateCell (p : ℕ) (id : UInt32) (chan : Chan) (s : State Chan) : State Chan :=
  let w := setNChan p (some chan) (s.wire.take chan id)
  { s with wire := circuitSetCircidChan false p .dirOut id (some chan) w }

inductive Op (Chan : Type*)
  | originCircuitNew
  | createCell (refused primed : Bool) (id : UInt32) (chan : Chan)
  | destroyCell (o : MarkOutcome) (reason : UInt8) (id : UInt32) (chan : Chan)
  | truncateCell (nHop primed : Bool) (p : ℕ)
  | deliverCreateCell (p : ℕ) (id : UInt32) (chan : Chan)
  | circuitSetState (p : ℕ) (state : CircuitState)
  | setPathState (p : ℕ) (state : PathState)
  | onionPendingAdd (p : ℕ)
  | onionNextTask (p : ℕ)
  | circuitMarkForClose (o : MarkOutcome) (reason : ℤ) (p : ℕ)
  | circuitsHandleOom (sorted : List ℕ) (n : ℕ) (o : ℕ → MarkOutcome)
  | circuitCloseAllMarked (primed : ℕ → CellDirection → Bool)
  | flushDestroy (chan : Chan)
  | teardownAll (primed : ℕ → CellDirection → Bool) (o : ℕ → MarkOutcome)
  | teardown (args : TeardownArgs) (primed : CellDirection → Bool) (o : MarkOutcome)
  | eltorForceImmediateCircuitDestruction (o : MarkOutcome) (reason : ℤ) (p : ℕ)

/-- What the callers see to: the circuit has not been freed; cells are relayed only on
circuits that are not marked; a circuit gets a next hop once, under an id that is free,
and not on the channel that it came from. -/
def Op.enabled (s : State Chan) : Op Chan → Prop
  | .truncateCell _ _ p =>
    s.live p = true ∧ (s.circ p).markedForClose = false ∧ (s.circ p).isOrigin = false
  | .deliverCreateCell p id chan =>
    s.live p = true ∧ (s.circ p).markedForClose = false ∧ (s.wire.link p .dirOut).chan = none ∧
      (s.wire.link p .dirIn).chan ≠ some chan ∧ id ≠ 0 ∧
      circuitIdInUseOnChannel s.wire chan id = 0
  | .circuitSetState p _ => s.live p = true
  | .setPathState p _ => s.live p = true
  | .onionPendingAdd p => s.live p = true
  | .circuitMarkForClose _ _ p => s.live p = true
  | .circuitsHandleOom sorted _ _ => sorted.Perm s.globalCircuitlist
  | .eltorForceImmediateCircuitDestruction _ _ p => s.live p = true
  | _ => True

def Op.apply (identityDigest : Chan → List UInt8) (s : State Chan) : Op Chan → State Chan
  | .originCircuitNew => Circuitlist.originCircuitNew s
  | .createCell refused primed id chan => commandProcessCreateCell refused primed id chan s
  | .destroyCell o reason id chan => commandProcessDestroyCell o reason id chan s
  | .truncateCell nHop primed p => processTruncate nHop primed p s
  | .deliverCreateCell p id chan => circuitDeliverCreateCell p id chan s
  | .circuitSetState p state => Circuitlist.circuitSetState p state s
  | .setPathState p state => s.modify p fun c => { c with pathState := state }
  | .onionPendingAdd p => { s with onionQueue := s.onionQueue ++ [p] }
  | .onionNextTask p => { s with onionQueue := s.onionQueue.filter (· ≠ p) }
  | .circuitMarkForClose o reason p => Circuitlist.circuitMarkForClose o reason p s
  | .circuitsHandleOom sorted n o => Circuitlist.circuitsHandleOom sorted n o s
  | .circuitCloseAllMarked primed => Circuitlist.circuitCloseAllMarked primed s
  | .flushDestroy chan => { s with wire := CircidMap.flushDestroy chan s.wire }
  | .teardownAll primed o => ControlTeardowncircuit.teardownAll primed o s
  | .teardown args primed o => handleControlTeardowncircuit identityDigest args primed o s
  | .eltorForceImmediateCircuitDestruction o reason p =>
    forceImmediateCircuitDestruction o reason p s

def circuits (identityDigest : Chan → List UInt8) : System (State Chan) (Op Chan) where
  init s := s = .initial
  step s op s' := op.enabled s ∧ s' = op.apply identityDigest s

/-! ### The lists, but for those of the circuits that wait -/

section
omit [DecidableEq Chan]

variable {s : State Chan}

/-- Other circuits wait for a channel, and for a verdict on another guard. -/
def withWaiting (chans guards : List ℕ) (s : State Chan) : State Chan :=
  { s with circuitsPendingChans := chans, circuitsPendingOtherGuards := guards }

/-- A forced end does not take a circuit off the list that goes with its state, so only
the other lists are right, and with them some lists of those that wait. -/
def Listed (s : State Chan) : Prop := ∃ chans guards, Lists (withWaiting chans guards s)

theorem listed_initial : Listed (State.initial : State Chan) := ⟨[], [], lists_initial⟩

theorem Listed.fresh (h : Listed s) : ∀ p, s.allocated ≤ p → s.live p = false := by
  obtain ⟨_, _, h⟩ := h
  exact h.fresh

theorem Listed.mem_global (h : Listed s) (p : ℕ) :
    p ∈ s.globalCircuitlist ↔ s.live p = true := by
  obtain ⟨_, _, h⟩ := h
  exact h.mem_global p

theorem Listed.nodup_close (h : Listed s) : s.circuitsPendingClose.Nodup := by
  obtain ⟨_, _, h⟩ := h
  exact h.nodup_close

theorem Listed.mem_close (h : Listed s) :
    ∀ p ∈ s.circuitsPendingClose, s.live p = true ∧ (s.circ p).markedForClose = true := by
  obtain ⟨_, _, h⟩ := h
  exact h.mem_close

theorem Listed.frame (h : Listed s) (n : UInt32) (onionQueue : List ℕ) (wire : Wire Chan) :
    Listed { s with nCircuitsAllocated := n, onionQueue := onionQueue, wire := wire } := by
  obtain ⟨chans, guards, h⟩ := h
  exact ⟨chans, guards, h.frame n onionQueue wire⟩

theorem created_self (c : Circuit) (s : State Chan) :
    (created c s).live s.allocated = true ∧
      ((created c s).circ s.allocated).state = c.state ∧
      ((created c s).circ s.allocated).markedForClose = c.markedForClose ∧
      ((created c s).circ s.allocated).isOrigin = c.isOrigin := by
  simp [created, Circuit.setIdx, Circuit.setOriginIdx]

theorem created_of_ne (c : Circuit) {q : ℕ} (hq : q ≠ s.allocated) :
    (created c s).live q = s.live q ∧ (created c s).circ q = s.circ q := by
  simp [created, hq]

theorem Listed.created (h : Listed s) {c : Circuit} (hstate : c.state = .building) :
    Listed (created c s) := by
  obtain ⟨chans, guards, h⟩ := h
  exact ⟨chans, guards, h.created hstate⟩

theorem Listed.circuitSetState (h : Listed s) {p : ℕ} (hp : s.live p = true)
    (state : CircuitState) : Listed (circuitSetState p state s) := by
  obtain ⟨chans, guards, h⟩ := h
  have hset := h.circuitSetState hp state
  have hcirc : (withWaiting chans guards s).circ = s.circ := rfl
  rw [Circuitlist.circuitSetState] at hset ⊢
  rw [hcirc] at hset
  by_cases hstate : state = (s.circ p).state
  · rw [if_pos hstate] at hset ⊢
    exact ⟨chans, guards, hset⟩
  · rw [if_neg hstate] at hset ⊢
    exact ⟨_, _, hset⟩

theorem Listed.circuitMarkForClose (h : Listed s) {p : ℕ} (hp : s.live p = true)
    (o : MarkOutcome) (reason : ℤ) : Listed (circuitMarkForClose o reason p s) := by
  obtain ⟨chans, guards, h⟩ := h
  have hmark := h.circuitMarkForClose hp o reason
  have hcirc : (withWaiting chans guards s).circ = s.circ := rfl
  refine ⟨chans, guards, ?_⟩
  rw [Circuitlist.circuitMarkForClose] at hmark ⊢
  rw [hcirc] at hmark
  split_ifs at hmark ⊢ with hpadding hmarked hkeeps
  · exact hmark
  · exact hmark
  · exact hmark
  · exact hmark

theorem Listed.fixIndices (h : Listed s) {sorted : List ℕ}
    (hperm : sorted.Perm s.globalCircuitlist) :
    Listed (fixIndices 0 sorted { s with globalCircuitlist := sorted }) := by
  obtain ⟨chans, guards, h⟩ := h
  have hfix := h.fixIndices hperm
  have hnodup : sorted.Nodup := hperm.nodup_iff.mpr h.places.nodup
  rw [fixIndices_eq hnodup] at hfix ⊢
  exact ⟨chans, guards, hfix⟩

def Circuit.forced (c : Circuit) : Circuit := { c with markedForClose := true, state := .building }

theorem circuitMarkForClose_of_marked {o : MarkOutcome} {reason : ℤ} {p : ℕ}
    (hmarked : (s.circ p).markedForClose = true) :
    circuitMarkForClose o reason p s = s := by
  rw [Circuitlist.circuitMarkForClose, if_pos hmarked, ite_self]

theorem Listed.forced (h : Listed s) (p : ℕ) :
    Listed (s.modify p Circuit.forced) := by
  obtain ⟨chans, guards, h⟩ := h
  -- `building` goes with no list, so `p` leaves both.
  have hcirc (q : ℕ) (state : CircuitState) (hne : state ≠ .building) :
      (((withWaiting chans guards s).modify p Circuit.forced).circ q).state = state ↔
        q ≠ p ∧ (s.circ q).state = state := by
    rw [circ_modify]
    by_cases hq : q = p
    · rw [if_pos hq]
      exact iff_of_false (fun hstate => hne hstate.symm) fun hne => hne.1 hq
    · rw [if_neg hq]
      exact (and_iff_right hq).symm
  refine ⟨smartlistRemove chans p, smartlistRemove guards p,
    h.modify (f := Circuit.forced) (fun _ => ⟨rfl, rfl, rfl⟩) ⟨nodup_smartlistRemove h.nodup_chans, ?_⟩
      ⟨nodup_smartlistRemove h.nodup_guards, ?_⟩ ⟨h.nodup_close, ?_⟩⟩
  · intro q
    have hmem : q ∈ chans ↔ s.live q = true ∧ (s.circ q).state = .chanWait := h.mem_chans q
    rw [hcirc q _ (by decide), mem_smartlistRemove, hmem]
    exact ⟨fun hq => ⟨hq.1.1, hq.2, hq.1.2⟩, fun hq => ⟨⟨hq.1, hq.2.2⟩, hq.2.1⟩⟩
  · intro q
    have hmem : q ∈ guards ↔ s.live q = true ∧ (s.circ q).state = .guardWait := h.mem_guards q
    rw [hcirc q _ (by decide), mem_smartlistRemove, hmem]
    exact ⟨fun hq => ⟨hq.1.1, hq.2, hq.1.2⟩, fun hq => ⟨⟨hq.1, hq.2.2⟩, hq.2.1⟩⟩
  · intro q hq
    obtain ⟨hlive, hmarked⟩ := h.mem_close q hq
    refine ⟨hlive, ?_⟩
    rw [circ_modify]
    split
    · rfl
    · exact hmarked

end

section
variable {s : State Chan}

theorem forceImmediateCircuitDestruction_eq (o : MarkOutcome) (reason : ℤ) (p : ℕ)
    (s : State Chan) :
    forceImmediateCircuitDestruction o reason p s =
      { s.modify p Circuit.forced with wire :=
          if (s.wire.link p .dirOut).circId ≠ 0 then circuitSetCircidChan true p .dirOut 0 none s.wire
          else s.wire } := by
  simp only [forceImmediateCircuitDestruction]
  rw [circuitMarkForClose_of_marked]
  · simp only [State.modify, Function.update_self]
    split <;> simp [Circuit.forced]
  · split <;> simp [State.modify]

theorem Listed.circuitClose {p : ℕ} {l : List ℕ} (primed : CellDirection → Bool)
    (h : Listed { s with circuitsPendingClose := p :: l }) :
    ∃ i j, Circuitlist.circuitClose primed s p = closed primed p i j s ∧
      Listed { closed primed p i j s with circuitsPendingClose := l } := by
  have hp : s.live p = true := (h.mem_close p List.mem_cons_self).1
  obtain ⟨chans, guards, h⟩ := h
  obtain ⟨i, hi, -⟩ : ∃ i : ℕ, s.idx p = i ∧ s.globalCircuitlist[i]? = some p :=
    h.places.getElem? ((h.mem_global p).mpr hp)
  obtain ⟨j, hj⟩ : ∃ j : ℕ, (s.circ p).isOrigin = true → s.originIdx p = j := by
    by_cases ho : (s.circ p).isOrigin = true
    · obtain ⟨j, hj, -⟩ := h.originPlaces.getElem? ((h.mem_origin p).mpr ⟨hp, ho⟩)
      exact ⟨j, fun _ => hj⟩
    · exact ⟨0, fun ho' => absurd ho' ho⟩
  refine ⟨i, j, circuitClose_eq primed hi hj, ?_⟩
  -- Closing does not look at the lists that were put aside.
  have hclose := Lists.circuitClose (s := withWaiting chans guards s) primed h
  rw [circuitClose_eq primed (s := withWaiting chans guards s) hi hj] at hclose
  exact ⟨_, _, hclose⟩

theorem live_closed {primed : CellDirection → Bool} {p i j q : ℕ} :
    (closed primed p i j s).live q = true ↔ q ≠ p ∧ s.live q = true :=
  live_update_iff s p q

theorem Listed.foldl_circuitClose {P : List ℕ → State Chan → Prop}
    (primed : ℕ → CellDirection → Bool)
    (hstep : ∀ p l i j s, Listed { s with circuitsPendingClose := p :: l } → P (p :: l) s →
      P l (closed (primed p) p i j s)) {l : List ℕ} :
    ∀ {s : State Chan}, Listed { s with circuitsPendingClose := l } → P l s →
      Listed { l.foldl (fun s p => Circuitlist.circuitClose (primed p) s p) s with
        circuitsPendingClose := [] } ∧
      P [] (l.foldl (fun s p => Circuitlist.circuitClose (primed p) s p) s) := by
  induction l with
  | nil => exact fun h hP => ⟨h, hP⟩
  | cons p l ih =>
    intro s h hP
    obtain ⟨i, j, heq, hclosed⟩ := h.circuitClose (primed p)
    rw [List.foldl_cons, heq]
    exact ih hclosed (hstep p l i j s h hP)

theorem Listed.circuitCloseAllMarked {P : List ℕ → State Chan → Prop} (h : Listed s)
    (primed : ℕ → CellDirection → Bool)
    (hstep : ∀ p l i j s, Listed { s with circuitsPendingClose := p :: l } → P (p :: l) s →
      P l (closed (primed p) p i j s)) (hP : P s.circuitsPendingClose s) :
    ∃ s', P [] s' ∧ Circuitlist.circuitCloseAllMarked primed s =
        { s' with circuitsPendingClose := [] } ∧
      Listed (Circuitlist.circuitCloseAllMarked primed s) := by
  obtain ⟨hlisted, hP⟩ := Listed.foldl_circuitClose primed hstep h hP
  exact ⟨_, hP, rfl, hlisted⟩

/-! ### Marked circuits -/

/-- Every circuit that is marked waits for its end, unless some may have been `lost`. -/
structure Waiting (lost : Prop) (s : State Chan) : Prop where
  listed : Listed s
  waits : ∀ p, s.live p = true → (s.circ p).markedForClose = true →
    lost ∨ p ∈ s.circuitsPendingClose

variable {lost : Prop}

omit [DecidableEq Chan] in
theorem Waiting.frame (h : Waiting lost s) (n : UInt32) (onionQueue : List ℕ) (wire : Wire Chan) :
    Waiting lost { s with nCircuitsAllocated := n, onionQueue := onionQueue, wire := wire } where
  listed := h.listed.frame n onionQueue wire
  waits := h.waits

omit [DecidableEq Chan] in
theorem Waiting.created (h : Waiting lost s) {c : Circuit} (hstate : c.state = .building)
    (hmarked : c.markedForClose = false) : Waiting lost (created c s) where
  listed := h.listed.created hstate
  waits q hq hq' := by
    by_cases hnew : q = s.allocated
    · rw [hnew, (created_self c s).2.2.1, hmarked] at hq'
      exact absurd hq' (by decide)
    · rw [(created_of_ne c hnew).1] at hq
      rw [(created_of_ne c hnew).2] at hq'
      exact h.waits q hq hq'

omit [DecidableEq Chan] in
theorem Waiting.circuitSetState (h : Waiting lost s) {p : ℕ} (hp : s.live p = true)
    (state : CircuitState) : Waiting lost (circuitSetState p state s) := by
  refine ⟨h.listed.circuitSetState hp state, fun q => ?_⟩
  rw [Circuitlist.circuitSetState]
  split
  · exact h.waits q
  · intro hq hq'
    refine h.waits q hq ?_
    rw [circ_modify] at hq'
    split at hq'
    · rename_i heq
      rwa [heq]
    · exact hq'

omit [DecidableEq Chan] in
theorem Waiting.circuitMarkForClose (h : Waiting lost s) {p : ℕ} (hp : s.live p = true)
    (o : MarkOutcome) (reason : ℤ) : Waiting lost (circuitMarkForClose o reason p s) := by
  refine ⟨h.listed.circuitMarkForClose hp o reason, fun q => ?_⟩
  rw [Circuitlist.circuitMarkForClose]
  split_ifs
  · exact h.waits q
  · exact h.waits q
  · exact h.waits q
  · intro hq hq'
    by_cases hqp : q = p
    · exact .inr (List.mem_append_right _ (List.mem_singleton.mpr hqp))
    · refine (h.waits q hq ?_).imp_right (List.mem_append_left _)
      rwa [circ_modify, if_neg hqp] at hq'

omit [DecidableEq Chan] in
theorem Waiting.circuitsHandleOom (h : Waiting lost s) {sorted : List ℕ}
    (hperm : sorted.Perm s.globalCircuitlist) (n : ℕ) (o : ℕ → MarkOutcome) :
    Waiting lost (circuitsHandleOom sorted n o s) := by
  have hnodup : sorted.Nodup := by
    obtain ⟨_, _, hlists⟩ := h.listed
    exact hperm.nodup_iff.mpr hlists.places.nodup
  -- The sort moves circuits in the global list, and marks none.
  have hfix : Waiting lost (fixIndices 0 sorted { s with globalCircuitlist := sorted }) := by
    refine ⟨h.listed.fixIndices hperm, ?_⟩
    rw [fixIndices_eq hnodup]
    intro q hq hq'
    refine h.waits q hq ?_
    dsimp only at hq'
    split at hq' <;> exact hq'
  refine foldl_circuitMarkForClose (fun s p hs hlive => hs.circuitMarkForClose hlive (o p) _)
    hfix fun p hp => ?_
  rw [fixIndices_eq hnodup]
  exact (h.listed.mem_global p).mp (hperm.mem_iff.mp (List.mem_of_mem_take hp))

theorem Waiting.circuitCloseAllMarked (h : Waiting lost s) (primed : ℕ → CellDirection → Bool) :
    Waiting lost (circuitCloseAllMarked primed s) ∧
      ∀ p ∈ s.circuitsPendingClose, (circuitCloseAllMarked primed s).live p = false := by
  obtain ⟨s', ⟨hs', hgone⟩, heq, hlisted⟩ := h.listed.circuitCloseAllMarked primed
    (P := fun l s' =>
      (∀ p, s'.live p = true → (s'.circ p).markedForClose = true → lost ∨ p ∈ l) ∧
      ∀ p ∈ s.circuitsPendingClose, s'.live p = true → p ∈ l)
    (fun p l i j s' _ ⟨hP, hgone⟩ => by
      refine ⟨fun q hq hq' => ?_, fun q hmem hq => ?_⟩
      · obtain ⟨hqp, hq⟩ := live_closed.mp hq
        exact (hP q hq hq').imp_right (List.mem_of_ne_of_mem hqp)
      · obtain ⟨hqp, hq⟩ := live_closed.mp hq
        exact List.mem_of_ne_of_mem hqp (hgone q hmem hq))
    ⟨h.waits, fun p hp _ => hp⟩
  refine ⟨⟨hlisted, fun p hp hp' => ?_⟩, fun p hp => ?_⟩
  · rw [heq] at hp hp' ⊢
    exact hs' p hp hp'
  · rw [heq, Bool.eq_false_iff]
    exact fun hlive => List.not_mem_nil (hgone p hp hlive)

omit [DecidableEq Chan] in
theorem Waiting.setPathState (h : Waiting lost s) (p : ℕ) (state : PathState) :
    Waiting lost (s.modify p fun c => { c with pathState := state }) := by
  have hcirc (q : ℕ) (s : State Chan) :
      ((s.modify p fun c => { c with pathState := state }).circ q).state = (s.circ q).state ∧
      ((s.modify p fun c => { c with pathState := state }).circ q).markedForClose =
        (s.circ q).markedForClose := by
    rw [circ_modify]
    split
    · rename_i hq
      rw [hq]
      exact ⟨rfl, rfl⟩
    · exact ⟨rfl, rfl⟩
  obtain ⟨⟨chans, guards, h⟩, hwaits⟩ := h
  refine ⟨⟨chans, guards, h.modify (p := p) (f := fun c => { c with pathState := state })
    (fun _ => ⟨rfl, rfl, rfl⟩) ⟨h.nodup_chans, ?_⟩ ⟨h.nodup_guards, ?_⟩ ⟨h.nodup_close, ?_⟩⟩, ?_⟩
  · intro q
    rw [(hcirc q _).1]
    exact h.mem_chans q
  · intro q
    rw [(hcirc q _).1]
    exact h.mem_guards q
  · intro q hq
    rw [(hcirc q _).2]
    exact h.mem_close q hq
  · intro q hq hq'
    rw [(hcirc q _).2] at hq'
    exact hwaits q hq hq'

omit [DecidableEq Chan] in
theorem findCircuitForTeardown_spec {identityDigest : Chan → List UInt8} {args : TeardownArgs}
    {p : ℕ} (hfind : findCircuitForTeardown identityDigest args s = some p) :
    p ∈ s.globalCircuitlist ∧ (s.circ p).markedForClose = false := by
  rw [findCircuitForTeardown] at hfind
  split at hfind
  · cases hfind
  · split at hfind
    · -- The circuit begins here.
      rename_i id _ q hq
      cases hfind
      rw [circuitGetByGlobalId] at hq
      split at hq
      · rename_i r hr
        split at hq
        · cases hq
        · rename_i hmarked
          cases hq
          exact ⟨List.mem_of_find?_eq_some hr, Bool.eq_false_iff.mpr hmarked⟩
      · cases hq
    · have hmatch := List.find?_some hfind
      simp only [orCircuitMatches, Bool.and_eq_true, Bool.not_eq_true'] at hmatch
      exact ⟨List.mem_of_find?_eq_some hfind, hmatch.1.1.2⟩

omit [DecidableEq Chan] in
theorem circuitMarkForClose_requested {o : MarkOutcome} {p : ℕ}
    (hkeeps : pathbiasKeeps o (s.circ p) = false) :
    ((circuitMarkForClose o endCircReasonRequested p s).circ p).markedForClose = true := by
  have hpadding : circpadMarkedCircuitForPadding o endCircReasonRequested = false := rfl
  rw [Circuitlist.circuitMarkForClose, hpadding, if_neg (by decide), hkeeps]
  split
  · assumption
  · rw [if_neg (by decide), circ_modify, if_pos rfl]

theorem Waiting.sendDestroys (h : Waiting lost s) (primed : CellDirection → Bool) (p : ℕ) :
    Waiting lost (sendDestroys primed p s) :=
  h.frame s.nCircuitsAllocated s.onionQueue _

theorem Waiting.force (h : Waiting lost s) {p : ℕ} (hp : s.live p = true)
    (hmarked : lost ∨ (s.circ p).markedForClose = true) (o : MarkOutcome) (reason : ℤ) :
    Waiting lost (forceImmediateCircuitDestruction o reason p s) := by
  rw [forceImmediateCircuitDestruction_eq]
  -- The mark is written without the list, so it must have been there.
  have hforced : Waiting lost (s.modify p Circuit.forced) := by
    refine ⟨h.listed.forced p, fun q hq hq' => ?_⟩
    by_cases hqp : q = p
    · rw [hqp]
      rcases hmarked with hlost | hmarked
      · exact .inl hlost
      · exact h.waits p hp hmarked
    · rw [circ_modify, if_neg hqp] at hq'
      exact h.waits q hq hq'
  exact hforced.frame s.nCircuitsAllocated s.onionQueue _

theorem Waiting.teardownCircuit (h : Waiting lost s) {args : TeardownArgs} {o : MarkOutcome} {p : ℕ}
    (hp : s.live p = true) (primed : CellDirection → Bool)
    (hkeeps : circuitIsOpenAndActive (s.circ p) = true → args.logOnly = false →
      args.forceImmediate = true → lost ∨ pathbiasKeeps o (s.circ p) = false) :
    Waiting lost (teardownCircuit args primed o p s) := by
  have hsent := h.sendDestroys primed p
  have hmark := hsent.circuitMarkForClose hp o endCircReasonRequested
  rw [ControlTeardowncircuit.teardownCircuit]
  split
  · rename_i hactive
    split
    · exact h
    · rename_i hlog
      dsimp only
      -- The mark is set by the command itself, unless it is put off for a probe.
      have hlive : (Circuitlist.circuitMarkForClose o endCircReasonRequested p
          (ControlTeardowncircuit.sendDestroys primed p s)).live p = true := by
        rw [live_circuitMarkForClose]
        exact hp
      split
      · rename_i hforce
        split
        · rename_i hmarked
          exact hsent.force hp (.inr hmarked) o _
        · have hkeeps := hkeeps hactive (Bool.eq_false_iff.mpr hlog) hforce
          exact hmark.force hlive (hkeeps.imp_right circuitMarkForClose_requested) o _
      · split
        · exact hsent
        · exact hmark
  · exact h

theorem Waiting.teardownAll (h : Waiting lost s) (primed : ℕ → CellDirection → Bool)
    (o : ℕ → MarkOutcome) : Waiting lost (teardownAll primed o s) := by
  -- Induction on the copy; that the circuits are there is kept with it.
  have hfold {l : List ℕ} : ∀ {s : State Chan}, Waiting lost s → (∀ p ∈ l, s.live p = true) →
      Waiting lost (l.foldl (fun s p => if (s.circ p).markedForClose then s
        else Circuitlist.circuitMarkForClose (o p) endCircReasonRequested p
          (ControlTeardowncircuit.sendDestroys (primed p) p s)) s) := by
    induction l with
    | nil => exact fun h _ => h
    | cons p l ih =>
      intro s h hlive
      rw [List.foldl_cons]
      split
      · exact ih h fun q hq => hlive q (List.mem_cons_of_mem p hq)
      · have hp := hlive p List.mem_cons_self
        refine ih ((h.sendDestroys (primed p) p).circuitMarkForClose hp (o p) _) fun q hq => ?_
        rw [live_circuitMarkForClose]
        exact hlive q (List.mem_cons_of_mem p hq)
  exact hfold h fun p hp => (h.listed.mem_global p).mp hp

/-! ### What leaves the channels alone -/

structure SameWire (s s' : State Chan) : Prop where
  live : s'.live = s.live
  isOrigin : ∀ p, (s'.circ p).isOrigin = (s.circ p).isOrigin
  wire : s'.wire = s.wire

omit [DecidableEq Chan] in
theorem SameWire.refl (s : State Chan) : SameWire s s := ⟨rfl, fun _ => rfl, rfl⟩

omit [DecidableEq Chan] in
theorem SameWire.trans {s₁ s₂ s₃ : State Chan} (h : SameWire s₁ s₂) (h' : SameWire s₂ s₃) :
    SameWire s₁ s₃ :=
  ⟨h'.live.trans h.live, fun p => (h'.isOrigin p).trans (h.isOrigin p), h'.wire.trans h.wire⟩

omit [DecidableEq Chan] in
theorem sameWire_modify (s : State Chan) (p : ℕ) {f : Circuit → Circuit}
    (hf : ∀ c, (f c).isOrigin = c.isOrigin) : SameWire s (s.modify p f) := by
  refine ⟨rfl, fun q => ?_, rfl⟩
  rw [circ_modify]
  split
  · rename_i hq
    rw [hq, hf]
  · rfl

omit [DecidableEq Chan] in
theorem sameWire_circuitSetState (p : ℕ) (state : CircuitState) (s : State Chan) :
    SameWire s (circuitSetState p state s) := by
  have hmodify := sameWire_modify s p (f := fun c => { c with state := state }) fun _ => rfl
  rw [Circuitlist.circuitSetState]
  split
  · exact .refl s
  · exact ⟨hmodify.live, hmodify.isOrigin, hmodify.wire⟩

omit [DecidableEq Chan] in
theorem sameWire_circuitMarkForClose (o : MarkOutcome) (reason : ℤ) (p : ℕ) (s : State Chan) :
    SameWire s (Circuitlist.circuitMarkForClose o reason p s) := by
  have hmodify := sameWire_modify s p (f := fun c => { c with markedForClose := true }) fun _ => rfl
  rw [Circuitlist.circuitMarkForClose]
  split_ifs
  · exact .refl s
  · exact .refl s
  · exact .refl s
  · exact ⟨hmodify.live, hmodify.isOrigin, hmodify.wire⟩

omit [DecidableEq Chan] in
theorem sameWire_circuitsHandleOom {sorted : List ℕ} (hnodup : sorted.Nodup) (n : ℕ)
    (o : ℕ → MarkOutcome) (s : State Chan) : SameWire s (circuitsHandleOom sorted n o s) := by
  have hmark {l : List ℕ} : ∀ {s : State Chan}, SameWire s
      (l.foldl (fun s p => Circuitlist.circuitMarkForClose (o p) endCircReasonResourcelimit p s)
        s) := by
    induction l with
    | nil => exact .refl _
    | cons p l ih => exact (sameWire_circuitMarkForClose _ _ p _).trans ih
  refine SameWire.trans ?_ hmark
  rw [fixIndices_eq hnodup]
  refine ⟨rfl, fun p => ?_, rfl⟩
  dsimp only
  split <;> rfl

theorem teardownCircuit_wire (args : TeardownArgs) (primed : CellDirection → Bool)
    (o : MarkOutcome) (p : ℕ) (s : State Chan) :
    (teardownCircuit args primed o p s).live = s.live ∧
    (∀ q, ((teardownCircuit args primed o p s).circ q).isOrigin = (s.circ q).isOrigin) ∧
    (teardownCircuit args primed o p s).wire =
      if circuitIsOpenAndActive (s.circ p) = true ∧ args.logOnly = false then
        if args.forceImmediate = true ∧
            ((sendDestroys primed p s).wire.link p .dirOut).circId ≠ 0 then
          circuitSetCircidChan true p .dirOut 0 none (sendDestroys primed p s).wire
        else (sendDestroys primed p s).wire
      else s.wire := by
  rw [ControlTeardowncircuit.teardownCircuit]
  by_cases hactive : circuitIsOpenAndActive (s.circ p) = true
  · rw [if_pos hactive]
    by_cases hlog : args.logOnly = true
    · rw [if_pos hlog, if_neg (by simp [hlog])]
      exact ⟨rfl, fun _ => rfl, rfl⟩
    · have hlog' : args.logOnly = false := Bool.eq_false_iff.mpr hlog
      rw [if_neg hlog, if_pos (And.intro hactive hlog')]
      dsimp only
      have hmark : SameWire (sendDestroys primed p s)
          (if ((sendDestroys primed p s).circ p).markedForClose = true then
            sendDestroys primed p s
          else Circuitlist.circuitMarkForClose o endCircReasonRequested p
            (sendDestroys primed p s)) := by
        split
        · exact .refl _
        · exact sameWire_circuitMarkForClose ..
      generalize (if ((sendDestroys primed p s).circ p).markedForClose = true then
          sendDestroys primed p s
        else Circuitlist.circuitMarkForClose o endCircReasonRequested p
          (sendDestroys primed p s)) = s' at hmark
      by_cases hforce : args.forceImmediate = true
      · rw [if_pos hforce, forceImmediateCircuitDestruction_eq, hmark.wire]
        have hforced := sameWire_modify s' p (f := Circuit.forced) fun _ => rfl
        refine ⟨hmark.live, fun q => (hforced.isOrigin q).trans (hmark.isOrigin q), ?_⟩
        simp only [hforce, true_and]
      · rw [if_neg hforce, if_neg (by simp [hforce])]
        exact ⟨hmark.live, hmark.isOrigin, hmark.wire⟩
  · rw [if_neg hactive, if_neg (by simp [hactive])]
    exact ⟨rfl, fun _ => rfl, rfl⟩

/-! ### Where circuits are attached -/

/-- A circuit that is attached has not been freed; one that begins here has no channel
before it; and no circuit goes on to the channel it came from. -/
structure Homed (live isOrigin : ℕ → Bool) (w : Wire Chan) : Prop where
  linked : Linked w
  live : ∀ p dir, (w.link p dir).chan ≠ none → live p = true
  origin : ∀ p, isOrigin p = true → (w.link p .dirIn).chan = none
  distinct : ∀ p chan, (w.link p .dirIn).chan = some chan → (w.link p .dirOut).chan ≠ some chan

variable {live isOrigin : ℕ → Bool} {w w' : Wire Chan}

omit [DecidableEq Chan] in
theorem Homed.congr (h : Homed live isOrigin w) (hsame : SameLinks w w') :
    Homed live isOrigin w' where
  linked := h.linked.congr hsame
  live p dir hchan := h.live p dir (by rwa [hsame.chan] at hchan)
  origin p hp := by
    rw [hsame.chan]
    exact h.origin p hp
  distinct p chan := by
    rw [hsame.chan, hsame.chan]
    exact h.distinct p chan

theorem link_clear (hw : Linked w) (markedForClose : Bool) (p : ℕ) (dir : CellDirection) :
    (circuitSetCircidChan markedForClose p dir 0 none w).link =
      updateAt w.link p dir ⟨none, 0, false⟩ := by
  rcases hchan : (w.link p dir).chan with _ | chan
  · rw [circuitSetCircidChan_of_none markedForClose (hw.bare hchan),
      updateAt_eq_self (hw.bare hchan)]
  · exact (cleared markedForClose hw ⟨hchan, rfl⟩).link

theorem chan_clear (hw : Linked w) (markedForClose : Bool) (p q : ℕ) (dir dir' : CellDirection) :
    ((circuitSetCircidChan markedForClose p dir 0 none w).link q dir').chan =
      if q = p ∧ dir' = dir then none else (w.link q dir').chan := by
  rw [link_clear hw, updateAt]
  split <;> rfl

theorem attached_clear (hw : Linked w) {markedForClose : Bool} {p : ℕ} {dir : CellDirection}
    {q : ℕ} {dir' : CellDirection} {chan : Chan} {id : UInt32} :
    Attached (circuitSetCircidChan markedForClose p dir 0 none w) q dir' chan id ↔
      Attached w q dir' chan id ∧ ¬ (q = p ∧ dir' = dir) := by
  rw [attached_updateAt (link_clear hw markedForClose p dir)]
  by_cases hq : q = p ∧ dir' = dir
  · simp [hq]
  · simp [hq]

theorem Homed.clear (h : Homed live isOrigin w) (markedForClose : Bool) (p : ℕ)
    (dir : CellDirection) :
    Homed live isOrigin (circuitSetCircidChan markedForClose p dir 0 none w) where
  linked := h.linked.clear markedForClose p dir
  live q dir' hchan := by
    rw [chan_clear h.linked] at hchan
    split at hchan
    · exact absurd rfl hchan
    · exact h.live q dir' hchan
  origin q hq := by
    rw [chan_clear h.linked]
    split
    · rfl
    · exact h.origin q hq
  distinct q chan hin := by
    rw [chan_clear h.linked] at hin ⊢
    split at hin
    · cases hin
    · split
      · simp
      · exact h.distinct q chan hin

theorem Homed.opened {p : ℕ} {dir : CellDirection} {chan : Chan} {id : UInt32}
    (h : Homed live isOrigin w) (hopened : Opened false p dir chan id w w') (hid : id ≠ 0)
    (hnone : (w.link p dir).chan = none) (hfree : w.chanCircidMap chan id = none)
    (hp : live p = true) (horigin : dir = .dirIn → isOrigin p = false)
    (hother : ∀ dir', dir' ≠ dir → (w.link p dir').chan ≠ some chan) :
    Homed live isOrigin w' := by
  have hchan (q : ℕ) (dir' : CellDirection) : (w'.link q dir').chan =
      if q = p ∧ dir' = dir then some chan else (w.link q dir').chan := by
    rw [hopened.link, updateAt]
    split <;> rfl
  have hget : circuitGetByCircidChannel w chan id = none := by
    rw [circuitGetByCircidChannel, hfree]
    rfl
  refine ⟨hopened.linked h.linked hid hnone hget, fun q dir' hq => ?_, fun q hq => ?_,
    fun q chan' hin => ?_⟩
  · rw [hchan] at hq
    split at hq
    · rename_i heq
      rwa [heq.1]
    · exact h.live q dir' hq
  · rw [hchan, if_neg]
    · exact h.origin q hq
    · rintro ⟨rfl, hdir⟩
      rw [horigin hdir.symm] at hq
      exact absurd hq (by decide)
  · rw [hchan] at hin ⊢
    split at hin
    · rename_i heq
      obtain ⟨rfl, rfl⟩ := heq
      cases hin
      rw [if_neg (by simp)]
      exact hother .dirOut (by simp)
    · split
      · rename_i heq
        obtain ⟨rfl, rfl⟩ := heq
        intro hchan'
        cases hchan'
        exact hother .dirIn (by simp) hin
      · exact h.distinct q chan' hin

omit [DecidableEq Chan] in
theorem Homed.allocate {n : ℕ} (h : Homed live isOrigin w) (hn : live n = false) (b : Bool) :
    Homed (Function.update live n true) (Function.update isOrigin n b) w := by
  have hnone (dir : CellDirection) : (w.link n dir).chan = none := by
    by_contra hchan
    rw [h.live n dir hchan] at hn
    exact absurd hn (by decide)
  refine ⟨h.linked, fun p dir hchan => ?_, fun p hp => ?_, h.distinct⟩
  · by_cases hpn : p = n
    · rw [hpn]
      exact Function.update_self ..
    · rw [Function.update_of_ne hpn]
      exact h.live p dir hchan
  · by_cases hpn : p = n
    · rw [hpn]
      exact hnone .dirIn
    · rw [Function.update_of_ne hpn] at hp
      exact h.origin p hp

omit [DecidableEq Chan] in
theorem Homed.free {n : ℕ} (h : Homed live isOrigin w)
    (hnone : ∀ dir, (w.link n dir).chan = none) :
    Homed (Function.update live n false) isOrigin w := by
  refine ⟨h.linked, fun p dir hchan => ?_, h.origin, h.distinct⟩
  by_cases hpn : p = n
  · rw [hpn] at hchan
    exact absurd (hnone dir) hchan
  · rw [Function.update_of_ne hpn]
    exact h.live p dir hchan

/-! ### Runs keep both -/

theorem sameLinks_sendDestroyTo (primed : Bool) (p : ℕ) (dir : CellDirection) (w : Wire Chan) :
    SameLinks w (sendDestroyTo primed p dir w) := by
  rw [sendDestroyTo]
  split
  · exact .refl w
  · split
    · exact sameLinks_sendDestroy ..
    · exact .refl w

theorem sameLinks_sendDestroys (primed : CellDirection → Bool) (p : ℕ) (s : State Chan) :
    SameLinks s.wire (sendDestroys primed p s).wire := by
  rw [ControlTeardowncircuit.sendDestroys]
  dsimp only
  split
  · exact sameLinks_sendDestroyTo ..
  · exact (sameLinks_sendDestroyTo ..).trans (sameLinks_sendDestroyTo ..)

theorem leaveChannel_eq (markedForClose primed : Bool) (p : ℕ) (dir : CellDirection)
    (hw : Linked w) :
    ∃ v, SameLinks w v ∧ leaveChannel markedForClose primed p dir w =
      circuitSetCircidChan markedForClose p dir 0 none v := by
  rw [leaveChannel]
  split
  · rename_i hchan
    exact ⟨w, .refl w, (circuitSetCircidChan_of_none markedForClose (hw.bare hchan)).symm⟩
  · refine ⟨_, ?_, rfl⟩
    refine SameLinks.trans ?_ (sameLinks_cmux _ _)
    split
    · exact .refl w
    · exact sameLinks_sendDestroy ..

theorem Homed.leaveChannel (h : Homed live isOrigin w) (markedForClose primed : Bool) (p : ℕ)
    (dir : CellDirection) :
    Homed live isOrigin (leaveChannel markedForClose primed p dir w) ∧
      ∀ q dir', ((leaveChannel markedForClose primed p dir w).link q dir').chan =
        if q = p ∧ dir' = dir then none else (w.link q dir').chan := by
  obtain ⟨v, hsame, heq⟩ := leaveChannel_eq markedForClose primed p dir h.linked
  have hv := h.congr hsame
  rw [heq]
  refine ⟨hv.clear markedForClose p dir, fun q dir' => ?_⟩
  rw [chan_clear hv.linked, hsame.chan]

theorem Homed.closedWire {c : Circuit} {p : ℕ} (h : Homed live isOrigin w)
    (hc : isOrigin p = c.isOrigin) (primed : CellDirection → Bool) :
    Homed (Function.update live p false) isOrigin (closedWire c primed p w) := by
  obtain ⟨hout, hchan⟩ := h.leaveChannel c.markedForClose (primed .dirOut) p .dirOut
  rw [Circuitlist.closedWire]
  generalize Circuitlist.leaveChannel c.markedForClose (primed .dirOut) p .dirOut w = w₁ at hout hchan
  -- Once the side of the next hop is clear, nothing attaches the circuit there again.
  have hpout : (w₁.link p .dirOut).chan = none := by
    rw [hchan, if_pos ⟨rfl, rfl⟩]
  cases horigin : c.isOrigin with
  | true =>
    simp only [if_true]
    rw [circuitSetCircidChan_of_none _ (hout.linked.bare hpout)]
    refine hout.free fun dir => ?_
    cases dir with
    | dirOut => exact hpout
    | dirIn => exact hout.origin p (hc.trans horigin)
  | false =>
    obtain ⟨hin, hchan'⟩ := hout.leaveChannel c.markedForClose (primed .dirIn) p .dirIn
    simp only [Bool.false_eq_true, if_false]
    generalize Circuitlist.leaveChannel c.markedForClose (primed .dirIn) p .dirIn w₁ = w₂ at hin hchan'
    have hnone (dir : CellDirection) : (w₂.link p dir).chan = none := by
      rw [hchan']
      cases dir with
      | dirOut => rw [if_neg (by simp), hpout]
      | dirIn => rw [if_pos ⟨rfl, rfl⟩]
    rw [circuitSetCircidChan_of_none _ (hin.linked.bare (hnone .dirIn)),
      circuitSetCircidChan_of_none _ (hin.linked.bare (hnone .dirOut))]
    exact hin.free hnone

/-- What holds of the lists and of the links, in every run if circuits may be `lost`. -/
structure Sound (lost : Prop) (s : State Chan) : Prop where
  waiting : Waiting lost s
  homed : Homed s.live (fun p => (s.circ p).isOrigin) s.wire

omit [DecidableEq Chan] in
theorem SameWire.homed {s' : State Chan} (hsame : SameWire s s')
    (h : Homed s.live (fun p => (s.circ p).isOrigin) s.wire) :
    Homed s'.live (fun p => (s'.circ p).isOrigin) s'.wire := by
  rw [hsame.live, hsame.wire, funext hsame.isOrigin]
  exact h

theorem Sound.of_sameWire {s' : State Chan} (h : Sound lost s) (hsame : SameWire s s')
    (hwaiting : Waiting lost s') : Sound lost s' := ⟨hwaiting, hsame.homed h.homed⟩

theorem Sound.created {c : Circuit} (h : Sound lost s) (hstate : c.state = .building)
    (hmarked : c.markedForClose = false) : Sound lost (created c s) where
  waiting := h.waiting.created hstate hmarked
  homed := by
    have horigin : (fun p => ((Circuitlist.created c s).circ p).isOrigin) =
        Function.update (fun p => (s.circ p).isOrigin) s.allocated c.isOrigin := by
      funext q
      by_cases hq : q = s.allocated
      · rw [hq, (created_self c s).2.2.2, Function.update_self]
      · rw [(created_of_ne c hq).2, Function.update_of_ne hq]
    rw [horigin]
    exact h.homed.allocate (h.waiting.listed.fresh _ (Nat.le_refl _)) c.isOrigin

theorem Sound.frame (h : Sound lost s) (onionQueue : List ℕ)
    (hw : Homed s.live (fun p => (s.circ p).isOrigin) w) :
    Sound lost { s with onionQueue := onionQueue, wire := w } :=
  ⟨h.waiting.frame s.nCircuitsAllocated onionQueue w, hw⟩

theorem Sound.originCircuitNew (h : Sound lost s) : Sound lost (originCircuitNew s) := by
  have hcreated := h.created (c := .zero true s.nCircuitsAllocated) rfl rfl
  rw [originCircuitNew_eq]
  exact ⟨hcreated.waiting.frame _ s.onionQueue s.wire, hcreated.homed⟩

theorem sameLinks_take (w : Wire Chan) (chan : Chan) (id : UInt32) : SameLinks w (w.take chan id) :=
  ⟨fun _ _ => rfl, fun _ _ => rfl, fun _ _ _ => rfl, fun _ _ => rfl, fun _ h => h, rfl⟩

theorem Sound.commandProcessCreateCell (h : Sound lost s) (refused primed : Bool) (id : UInt32)
    (chan : Chan) : Sound lost (commandProcessCreateCell refused primed id chan s) := by
  rw [ControlTeardowncircuit.commandProcessCreateCell]
  by_cases hid : id = 0
  · rw [if_pos hid]
    exact h
  rw [if_neg hid]
  by_cases hused : circuitIdInUseOnChannel s.wire chan id ≠ 0
  · rw [if_pos hused]
    exact h
  rw [if_neg hused]
  have hfree : s.wire.chanCircidMap chan id = none := get_eq_none_of_free (not_not.mp hused)
  have htake : Sound lost { s with wire := s.wire.take chan id } :=
    h.frame s.onionQueue (h.homed.congr (sameLinks_take s.wire chan id))
  dsimp only
  cases refused with
  | true => exact htake.frame s.onionQueue (htake.homed.congr (sameLinks_sendDestroy ..))
  | false =>
    rw [if_neg (by decide), orCircuitNew_eq]
    have hnew := htake.created (c := .zero false 0) rfl rfl
    have hdead := h.waiting.listed.fresh s.allocated (Nat.le_refl _)
    -- The number of the new circuit is attached nowhere yet.
    have hnone (dir : CellDirection) : (s.wire.link s.allocated dir).chan = none := by
      by_contra hchan
      rw [h.homed.live _ dir hchan] at hdead
      exact absurd hdead (by decide)
    obtain ⟨hlive, -, -, horigin⟩ := created_self (.zero false 0)
      { s with wire := s.wire.take chan id }
    have hopened := hnew.homed.opened
      (opened false hid (hnew.homed.linked.bare (hnone .dirIn))) hid (hnone .dirIn) hfree
      hlive (fun _ => horigin) fun dir' _ hchan => by cases (hnone dir').symm.trans hchan
    have hsound := hnew.frame s.onionQueue hopened
    exact hsound.of_sameWire (sameWire_circuitSetState ..)
      (hsound.waiting.circuitSetState hlive _)

theorem Sound.commandProcessDestroyCell (h : Sound lost s) (o : MarkOutcome) (reason : UInt8)
    (id : UInt32) (chan : Chan) : Sound lost (commandProcessDestroyCell o reason id chan s) := by
  rw [ControlTeardowncircuit.commandProcessDestroyCell]
  split
  · exact h
  · rename_i p hget
    have hp : s.live p = true := by
      obtain ⟨dir, hchan, -⟩ := (h.homed.linked.entry chan id p).mp hget
      exact h.homed.live p dir (by rw [hchan]; simp)
    have hclear (dir : CellDirection) (reason : ℤ) : Sound lost
        (Circuitlist.circuitMarkForClose o reason p
          { s with wire := circuitSetCircidChan false p dir 0 none s.wire }) := by
      have hclear := h.frame s.onionQueue (h.homed.clear false p dir)
      exact hclear.of_sameWire (sameWire_circuitMarkForClose ..)
        (hclear.waiting.circuitMarkForClose hp o reason)
    split
    · exact h
    · split
      · exact hclear .dirIn _
      · exact hclear .dirOut _

theorem Sound.processTruncate (h : Sound lost s) {p : ℕ} (hp : s.live p = true)
    (nHop primed : Bool) : Sound lost (processTruncate nHop primed p s) := by
  have hset : Sound lost (if nHop then Circuitlist.circuitSetState p .opened s else s) := by
    split
    · exact h.of_sameWire (sameWire_circuitSetState ..) (h.waiting.circuitSetState hp _)
    · exact h
  rw [ControlTeardowncircuit.processTruncate]
  generalize (if nHop then Circuitlist.circuitSetState p .opened s else s) = s' at hset
  dsimp only
  split
  · exact hset
  · exact hset.frame s'.onionQueue
      ((hset.homed.congr (sameLinks_sendDestroy ..)).clear false p .dirOut)

theorem Sound.circuitDeliverCreateCell (h : Sound lost s) {p : ℕ} {id : UInt32} {chan : Chan}
    (henabled : (Op.deliverCreateCell p id chan).enabled s) :
    Sound lost (circuitDeliverCreateCell p id chan s) := by
  obtain ⟨hp, -, hout, hin, hid, hused⟩ := henabled
  have htake := h.homed.congr (sameLinks_take s.wire chan id)
  refine h.frame s.onionQueue (htake.opened (opened_deliver htake.linked hid
    (htake.linked.bare hout)) hid hout (get_eq_none_of_free hused) hp (by simp) ?_)
  intro dir' hdir
  cases dir' with
  | dirOut => exact absurd rfl hdir
  | dirIn => exact hin

theorem Sound.circuitCloseAllMarked (h : Sound lost s) (primed : ℕ → CellDirection → Bool) :
    Sound lost (circuitCloseAllMarked primed s) := by
  obtain ⟨s', hs', heq, -⟩ := h.waiting.listed.circuitCloseAllMarked primed
    (P := fun _ s' => Homed s'.live (fun p => (s'.circ p).isOrigin) s'.wire)
    (fun p _ i j s' _ hP => hP.closedWire rfl (primed p)) h.homed
  have hwaiting := (h.waiting.circuitCloseAllMarked primed).1
  rw [heq] at hwaiting ⊢
  exact ⟨hwaiting, hs'⟩

theorem Sound.sendDestroys (h : Sound lost s) (primed : CellDirection → Bool) (p : ℕ) :
    Sound lost (sendDestroys primed p s) :=
  ⟨h.waiting.sendDestroys primed p, h.homed.congr (sameLinks_sendDestroys primed p s)⟩

theorem Sound.teardownCircuit (h : Sound lost s) {args : TeardownArgs} {o : MarkOutcome} {p : ℕ}
    (hp : s.live p = true) (primed : CellDirection → Bool)
    (hkeeps : circuitIsOpenAndActive (s.circ p) = true → args.logOnly = false →
      args.forceImmediate = true → lost ∨ pathbiasKeeps o (s.circ p) = false) :
    Sound lost (teardownCircuit args primed o p s) := by
  refine ⟨h.waiting.teardownCircuit hp primed hkeeps, ?_⟩
  obtain ⟨hlive, horigin, hwire⟩ := teardownCircuit_wire args primed o p s
  have hsent := h.homed.congr (sameLinks_sendDestroys primed p s)
  rw [hlive, hwire, funext horigin]
  split
  · split
    · exact hsent.clear true p .dirOut
    · exact hsent
  · exact h.homed

theorem sameLinks_teardownAll (primed : ℕ → CellDirection → Bool) (o : ℕ → MarkOutcome)
    (s : State Chan) :
    (teardownAll primed o s).live = s.live ∧
      (∀ p, ((teardownAll primed o s).circ p).isOrigin = (s.circ p).isOrigin) ∧
      SameLinks s.wire (teardownAll primed o s).wire := by
  have hfold {l : List ℕ} : ∀ {s s' : State Chan},
      l.foldl (fun s p => if (s.circ p).markedForClose then s
        else Circuitlist.circuitMarkForClose (o p) endCircReasonRequested p
          (ControlTeardowncircuit.sendDestroys (primed p) p s)) s = s' →
      s'.live = s.live ∧ (∀ p, (s'.circ p).isOrigin = (s.circ p).isOrigin) ∧
        SameLinks s.wire s'.wire := by
    induction l with
    | nil =>
      rintro s s' rfl
      exact ⟨rfl, fun _ => rfl, .refl _⟩
    | cons p l ih =>
      intro s s' hs'
      rw [List.foldl_cons] at hs'
      obtain ⟨hlive, horigin, hlinks⟩ := ih hs'
      split at hlive
      · rename_i hmarked
        rw [if_pos hmarked] at hlinks
        simp only [if_pos hmarked] at horigin
        exact ⟨hlive, horigin, hlinks⟩
      · rename_i hmarked
        rw [if_neg hmarked] at hlinks
        simp only [if_neg hmarked] at horigin
        have hmark := sameWire_circuitMarkForClose (o p) endCircReasonRequested p
          (ControlTeardowncircuit.sendDestroys (primed p) p s)
        rw [hmark.wire] at hlinks
        exact ⟨hlive.trans hmark.live, fun q => (horigin q).trans (hmark.isOrigin q),
          (sameLinks_sendDestroys (primed p) p s).trans hlinks⟩
  exact hfold rfl

theorem Sound.teardownAll (h : Sound lost s) (primed : ℕ → CellDirection → Bool)
    (o : ℕ → MarkOutcome) : Sound lost (teardownAll primed o s) := by
  obtain ⟨hlive, horigin, hlinks⟩ := sameLinks_teardownAll primed o s
  refine ⟨h.waiting.teardownAll primed o, ?_⟩
  rw [hlive, funext horigin]
  exact h.homed.congr hlinks

theorem Sound.force (h : Sound lost s) {p : ℕ} (hp : s.live p = true)
    (hmarked : lost ∨ (s.circ p).markedForClose = true) (o : MarkOutcome) (reason : ℤ) :
    Sound lost (forceImmediateCircuitDestruction o reason p s) := by
  refine ⟨h.waiting.force hp hmarked o reason, ?_⟩
  have hforced := (sameWire_modify s p (f := Circuit.forced) fun _ => rfl).homed h.homed
  rw [forceImmediateCircuitDestruction_eq]
  dsimp only
  split
  · exact hforced.clear true p .dirOut
  · exact hforced

def markedWhenForced (identityDigest : Chan → List UInt8) (s : State Chan) : Op Chan → Prop
  | .teardown args _ o => ∀ p, findCircuitForTeardown identityDigest args s = some p →
    circuitIsOpenAndActive (s.circ p) = true → args.logOnly = false →
      args.forceImmediate = true → pathbiasKeeps o (s.circ p) = false
  | .eltorForceImmediateCircuitDestruction _ _ p => (s.circ p).markedForClose = true
  | _ => True

theorem sound_initial : Sound lost (State.initial : State Chan) :=
  ⟨⟨listed_initial, fun p hp => absurd hp (by simp [State.initial])⟩, .initial,
    fun p dir hchan => absurd rfl hchan, fun _ _ => rfl, fun _ _ hchan => by cases hchan⟩

theorem sound_inductive (identityDigest : Chan → List UInt8) :
    Inductive (circuits identityDigest)
      (fun s op => lost ∨ markedWhenForced identityDigest s op) (Sound lost) where
  init s hs := hs ▸ sound_initial
  step s op s' h hok hstep := by
    obtain ⟨henabled, rfl⟩ := hstep
    cases op with
    | originCircuitNew => exact h.originCircuitNew
    | createCell refused primed id chan => exact h.commandProcessCreateCell refused primed id chan
    | destroyCell o reason id chan => exact h.commandProcessDestroyCell o reason id chan
    | truncateCell nHop primed p => exact h.processTruncate henabled.1 nHop primed
    | deliverCreateCell p id chan => exact h.circuitDeliverCreateCell henabled
    | circuitSetState p state =>
      exact h.of_sameWire (sameWire_circuitSetState ..) (h.waiting.circuitSetState henabled state)
    | setPathState p state =>
      have hsame := sameWire_modify s p (f := fun c => { c with pathState := state }) fun _ => rfl
      exact h.of_sameWire hsame (h.waiting.setPathState p state)
    | onionPendingAdd p => exact h.frame _ h.homed
    | onionNextTask p => exact h.frame _ h.homed
    | circuitMarkForClose o reason p =>
      exact h.of_sameWire (sameWire_circuitMarkForClose ..)
        (h.waiting.circuitMarkForClose henabled o reason)
    | circuitsHandleOom sorted n o =>
      have hnodup : sorted.Nodup := by
        obtain ⟨_, _, hlists⟩ := h.waiting.listed
        exact henabled.nodup_iff.mpr hlists.places.nodup
      exact h.of_sameWire (sameWire_circuitsHandleOom hnodup n o s)
        (h.waiting.circuitsHandleOom henabled n o)
    | circuitCloseAllMarked primed => exact h.circuitCloseAllMarked primed
    | flushDestroy chan =>
      exact h.frame s.onionQueue (h.homed.congr (sameLinks_flushDestroy chan s.wire))
    | teardownAll primed o => exact h.teardownAll primed o
    | teardown args primed o =>
      show Sound lost (handleControlTeardowncircuit identityDigest args primed o s)
      rw [handleControlTeardowncircuit]
      split
      · exact h
      · rename_i p hfind
        have hp := (h.waiting.listed.mem_global p).mp (findCircuitForTeardown_spec hfind).1
        exact h.teardownCircuit hp primed fun hactive hlog hforce =>
          hok.imp_right fun hok => hok p hfind hactive hlog hforce
    | eltorForceImmediateCircuitDestruction o reason p => exact h.force henabled hok o reason

/-- An open circuit with a next hop, whose path is to be probed before it ends. -/
def sampleUsed : State ℕ :=
  (((circuitDeliverCreateCell 0 5 7 (originCircuitNew .initial)).modify 0
    fun c => { c with pathState := .useAttempted }))

/-- `TEARDOWNCIRCUIT 1 FORCE_IMMEDIATE` -/
def sampleArgs : TeardownArgs := ⟨some 1, none, false, true⟩

def sampleForced (probeSent : Bool) : State ℕ :=
  handleControlTeardowncircuit (fun _ => []) sampleArgs (fun _ => false) ⟨false, probeSent⟩
    sampleUsed

theorem reached_sampleUsed (ok : State ℕ → Op ℕ → Prop)
    (hok : ∀ s, ok s .originCircuitNew ∧ ok s (.deliverCreateCell 0 5 7) ∧
      ok s (.setPathState 0 .useAttempted)) :
    Reached (circuits fun _ => []) ok sampleUsed := by
  have hnew : (circuits fun _ : ℕ => []).step .initial .originCircuitNew
      (originCircuitNew .initial) := ⟨trivial, rfl⟩
  have hdeliver : (circuits fun _ : ℕ => []).step (originCircuitNew .initial)
      (.deliverCreateCell 0 5 7) (circuitDeliverCreateCell 0 5 7 (originCircuitNew .initial)) :=
    ⟨⟨rfl, rfl, rfl, by decide, by decide, rfl⟩, rfl⟩
  have huse : (circuits fun _ : ℕ => []).step
      (circuitDeliverCreateCell 0 5 7 (originCircuitNew .initial))
      (.setPathState 0 .useAttempted) sampleUsed := ⟨rfl, rfl⟩
  exact .step (.step (.step (.init rfl) (hok _).1 hnew) (hok _).2.1 hdeliver) (hok _).2.2 huse

end

end ControlTeardowncircuit
