/-
The pools of conflux sets over the lives of their circuits (`core/or/conflux_pool.c`).

A conflux object is allocated with an unlinked set, moves to the linked pool when the
legs of the set have linked, and is freed with the last circuit that refers to it.  It is
removed from the pool before that, when its last leg closes, and both times it is looked
for by its nonce.  Closing one leg may close the others, and may launch new ones; the
calls are the last thing their callers do, so what is still to be done is a list.
-/
import LibEltor.ConfluxLink
import LibEltor.Transition

open Word CongestionControl Smartlist Transition

namespace Conflux

variable {κ : Type}

/-! ### The pools -/

/-- A pointer to a `conflux_t`. -/
abbrev CfxRef := ℕ

/-- `leg_t`; `circFreed` is set where its pointer to the circuit has been cleared. -/
structure PoolLeg extends Leg where
  circFreed : Bool

/-- `unlinked_circuits_t`, its conflux object by reference. -/
structure UnlinkedSet where
  isForLinkedSet : Bool
  cfx : CfxRef
  legs : List PoolLeg

/-- The pools and the circuits of one side.  The fields of a circuit are maps from circuits, and
an object or a circuit that is not allocated, or has been freed, is mapped to nothing. -/
structure Pools (κ : Type) where
  linkedPool : Nonce → Option CfxRef
  unlinkedPool : Nonce → Option UnlinkedSet
  objs : CfxRef → Option (Conflux κ)
  nextObj : CfxRef
  live : Circ → Bool
  nextCirc : Circ
  confluxPendingNonce : Circ → Option Nonce
  conflux : Circ → Option CfxRef
  markedForClose : Circ → Bool
  shuttingDown : Bool

/-- Which side it is, the limits, and what a client asks for. -/
structure PoolParams where
  isClient : Bool
  maxLegsSet : ℕ
  maxNumLaunch : ℕ
  circuitBuildTimeoutUsec : ℕ
  clientUx : UInt8

/-- Ways for the process to end: an object that has been freed is used or freed again, the assertion
in `linked_circuit_free` fails, a cleared circuit pointer is followed, the assertion in
`cfx_add_leg` fails. -/
inductive Fault
  | useAfterFree | notForLinkedSet | nullCirc | wrongSet
  deriving DecidableEq

/-- A call that is still to be made.  The middle two are the two halves of
`conflux_mark_all_for_close`. -/
inductive Task
  | circuitMarkForClose (circ : Option Circ)
  | markAllForClose (nonce : Nonce)
  | markLinkedForClose (nonce : Nonce)
  | confluxLaunchLeg (nonce : Nonce)

abbrev Outcome (κ : Type) := Except Fault (Pools κ × List Task)

/-- `link_circ_err_t`, those that occur here. -/
inductive LinkCircErr
  | ok | missingLeg | invalidLeg
  deriving DecidableEq

variable (p : PoolParams) (ccontrol : CongestionControl) (s : Pools κ) (circ : Circ)

def PoolLeg.isOf (circ : Circ) (leg : PoolLeg) : Bool := !leg.circFreed && decide (leg.circ = circ)

def confluxFree (i : CfxRef) : Except Fault (Pools κ) :=
  match s.objs i with
  | none => .error .useAfterFree
  | some _ => .ok { s with objs := Function.update s.objs i none }

/-- `unlinked_pool_del_and_free`, of a set that has no legs. -/
def unlinkedPoolDelAndFree (unlinked : UnlinkedSet) : Except Fault (Pools κ) :=
  match s.objs unlinked.cfx with
  | none => .error .useAfterFree
  | some cfx =>
    let s := { s with unlinkedPool := Function.update s.unlinkedPool cfx.nonce none }
    if unlinked.isForLinkedSet then .ok s else confluxFree s unlinked.cfx

def unlinkedGetOrCreate (nonce : Nonce) : Pools κ × UnlinkedSet :=
  match s.unlinkedPool nonce with
  | some unlinked => (s, unlinked)
  | none =>
    match s.linkedPool nonce with
    | some cfx =>
      let unlinked := { isForLinkedSet := true, cfx := cfx, legs := [] }
      ({ s with unlinkedPool := Function.update s.unlinkedPool nonce (some unlinked) }, unlinked)
    | none =>
      let unlinked := { isForLinkedSet := false, cfx := s.nextObj, legs := [] }
      ({ s with
          unlinkedPool := Function.update s.unlinkedPool nonce (some unlinked)
          objs := Function.update s.objs s.nextObj (some (confluxNew κ nonce))
          nextObj := s.nextObj + 1 }, unlinked)

def unlinkedCircuitClosed (nonce : Nonce) : Outcome κ :=
  match s.unlinkedPool nonce with
  | none => .ok (s, [])
  | some unlinked =>
    let remaining := { unlinked with legs := unlinked.legs.eraseP (·.isOf circ) }
    -- the leg is freed with the circuit's pending nonce, if there is a leg
    let s := { s with
      unlinkedPool := Function.update s.unlinkedPool nonce (some remaining)
      confluxPendingNonce :=
        if unlinked.legs.any (·.isOf circ) then Function.update s.confluxPendingNonce circ none
        else s.confluxPendingNonce }
    if remaining.legs.length = 0 then (unlinkedPoolDelAndFree s remaining).map (·, [])
    else if !s.shuttingDown && p.isClient then .ok (s, [.confluxLaunchLeg nonce])
    else .ok (s, [])

def linkedCircuitClosed (i : CfxRef) : Outcome κ :=
  match s.objs i with
  | none => .error .useAfterFree
  | some cfx =>
    let (cfx, fullTeardown) := cfxDelLeg ccontrol cfx circ
    let s := { s with objs := Function.update s.objs i (some cfx) }
    -- the last leg keeps the object, to free it with the circuit
    let s :=
      if cfx.legs.length = 0 then
        { s with linkedPool := Function.update s.linkedPool cfx.nonce none }
      else { s with conflux := Function.update s.conflux circ none }
    .ok (s, if fullTeardown then [.markAllForClose cfx.nonce] else [])

def circuitMarkForClose : Outcome κ :=
  if s.markedForClose circ || !s.live circ then .ok (s, [])
  else
    let s := { s with markedForClose := Function.update s.markedForClose circ true }
    match s.confluxPendingNonce circ with
    | some nonce => unlinkedCircuitClosed p s circ nonce
    | none =>
      match s.conflux circ with
      | some i => linkedCircuitClosed ccontrol s circ i
      | none => .ok (s, [])

def PoolLeg.circPtr (leg : PoolLeg) : Option Circ := if leg.circFreed then none else some leg.circ

/-- The first half of `conflux_mark_all_for_close`: `unlinked_close_or_free`. -/
def markAllForClose (nonce : Nonce) : Outcome κ :=
  match s.unlinkedPool nonce with
  | none => .ok (s, [.markLinkedForClose nonce])
  | some unlinked =>
    if unlinked.legs.length > 0 then
      .ok (s, unlinked.legs.map (fun leg => .circuitMarkForClose leg.circPtr) ++
        [.markLinkedForClose nonce])
    else (unlinkedPoolDelAndFree s unlinked).map (·, [.markLinkedForClose nonce])

def markLinkedForClose (nonce : Nonce) : Outcome κ :=
  match s.linkedPool nonce with
  | none => .ok (s, [])
  | some i =>
    match s.objs i with
    | none => .error .useAfterFree
    | some linked =>
      if linked.inFullTeardown then .ok (s, [])
      else
        .ok ({ s with objs := Function.update s.objs i (some { linked with inFullTeardown := true }) },
          linked.legs.map fun leg => .circuitMarkForClose (some leg.circ))

/-! ### Launching and linking -/

/-- `conflux_launch_leg`; `established` is whether `circuit_establish_circuit_conflux` succeeds,
which closes the circuit where it does not. -/
def launchLegInPools (established : Bool) (nonce : Nonce) : Outcome κ :=
  let (s, unlinked) := unlinkedGetOrCreate s nonce
  match s.objs unlinked.cfx with
  | none => .error .useAfterFree
  | some cfx =>
    if cfx.numLegLaunch ≥ p.maxNumLaunch then .ok (s, [])
    else
      let circ := s.nextCirc
      let s := { s with
        objs := Function.update s.objs unlinked.cfx
          (some { cfx with numLegLaunch := cfx.numLegLaunch + 1 })
        live := Function.update s.live circ true
        nextCirc := circ + 1
        confluxPendingNonce := Function.update s.confluxPendingNonce circ (some nonce)
        conflux := Function.update s.conflux circ none
        markedForClose := Function.update s.markedForClose circ false }
      if !established then .ok (s, [.circuitMarkForClose (some circ)])
      else
        let leg := {
          circ := circ
          link := {
            version := 1
            desiredUx := p.clientUx
            nonce := nonce
            lastSeqnoSent := confluxGetMaxSeqSent cfx
            lastSeqnoRecv := cfx.lastSeqDelivered }
          linked := false
          linkSentUsec := 0
          rttUsec := 0
          circFreed := false }
        .ok ({ s with unlinkedPool := Function.update s.unlinkedPool nonce
                        (some { unlinked with legs := unlinked.legs ++ [leg] }) }, [])

def UnlinkedSet.waiting (unlinked : UnlinkedSet) : List Circ :=
  (unlinked.legs.filter fun leg => !leg.circFreed).map fun leg => leg.circ

/-- The end of `try_finalize_set`: the set's object, with the legs added, is that of their circuits
and is put in the linked pool. -/
def completeSet (unlinked : UnlinkedSet) (cfx : Conflux κ) : Pools κ :=
  { s with
    objs := Function.update s.objs unlinked.cfx (some cfx)
    conflux := fun c => if c ∈ unlinked.waiting then some unlinked.cfx else s.conflux c
    confluxPendingNonce := fun c => if c ∈ unlinked.waiting then none else s.confluxPendingNonce c
    linkedPool := Function.update s.linkedPool cfx.nonce (some unlinked.cfx)
    unlinkedPool := Function.update s.unlinkedPool cfx.nonce none }

/-- `try_finalize_set`.  Validating follows the circuit pointer of every leg. -/
def tryFinalizeInPools (unlinked : UnlinkedSet) : Except Fault ((Pools κ × List Task) × LinkCircErr) :=
  match s.objs unlinked.cfx with
  | none => .error .useAfterFree
  | some cfx =>
    match tryFinalizeSet p.maxLegsSet {
        isClient := p.isClient
        isForLinkedSet := unlinked.isForLinkedSet
        cfx := cfx
        legs := unlinked.legs.map PoolLeg.toLeg } with
    | some .missingLeg => .ok ((s, []), .missingLeg)
    | some .tooManyLegs => .ok ((s, []), .invalidLeg)
    | finalized =>
      if unlinked.legs.any (·.circFreed) then .error .nullCirc
      else
        match finalized with
        | none => .error .wrongSet
        | some .notValid => .ok ((s, [.markAllForClose cfx.nonce]), .invalidLeg)
        | some (.linked cfx) => .ok ((completeSet s unlinked cfx, []), .ok)
        | some _ => .ok ((s, []), .ok)

/-- `conflux_circuit_has_opened`: the LINK cell is sent, which closes the circuit where it fails. -/
def confluxCircuitHasOpened (confluxIsEnabled sent : Bool) (now : ℕ) : Outcome κ :=
  if !confluxIsEnabled then .ok (s, [.circuitMarkForClose (some circ)])
  else
    match s.confluxPendingNonce circ with
    | none => .ok (s, [])
    | some nonce =>
      match s.unlinkedPool nonce with
      | none => .ok (s, [])
      | some unlinked =>
        if !unlinked.legs.any (·.isOf circ) then .ok (s, [])
        else if !sent then .ok (s, [.circuitMarkForClose (some circ)])
        else
          .ok ({ s with unlinkedPool := Function.update s.unlinkedPool nonce (some { unlinked with
              legs := unlinked.legs.map fun leg =>
                if leg.isOf circ then { leg with linkSentUsec := now } else leg }) }, [])

structure CellArrival where
  confluxIsEnabled : Bool
  sourceHop : Bool
  link : Option ConfluxCellLink
  now : ℕ

/-- The checks of `conflux_process_link`: the cell's content where the circuit becomes a leg. -/
def acceptsLink (cell : CellArrival) : Option ConfluxCellLink :=
  if !cell.confluxIsEnabled || p.isClient || !cell.sourceHop then none
  else if (s.confluxPendingNonce circ).isSome || (s.conflux circ).isSome then none
  else cell.link

/-- `conflux_process_link`; the leg counts as linked from `link_circuit` on. -/
def processLinkInPools (cell : CellArrival) : Outcome κ :=
  match acceptsLink p s circ cell with
  | none => .ok (s, [.circuitMarkForClose (some circ)])
  | some link =>
    let leg := {
      circ := circ
      link := link
      linked := true
      linkSentUsec := cell.now
      rttUsec := 0
      circFreed := false }
    let (s, unlinked) := unlinkedGetOrCreate s link.nonce
    let unlinked := { unlinked with legs := unlinked.legs ++ [leg] }
    let s := { s with
      unlinkedPool := Function.update s.unlinkedPool link.nonce (some unlinked)
      confluxPendingNonce := Function.update s.confluxPendingNonce circ (some link.nonce) }
    (tryFinalizeInPools p s unlinked).map fun
      | (done, .ok) => done
      | ((s, tasks), _) => (s, tasks ++ [.circuitMarkForClose (some circ)])

/-- The checks of `conflux_process_linked`: the cell's content and the circuit's nonce. -/
def acceptsLinked (cell : CellArrival) : Option (ConfluxCellLink × Nonce) :=
  if !cell.confluxIsEnabled || !p.isClient then none
  else
    match s.confluxPendingNonce circ, cell.link with
    | some nonce, some link =>
      if (s.conflux circ).isSome || !cell.sourceHop ||
          !torMemeq link.nonce nonce sizeofNonceElem then none
      else some (link, nonce)
    | _, _ => none

def processLinkedInPools (cell : CellArrival) : Outcome κ :=
  let close : Pools κ → Outcome κ := fun s => .ok (s, [.circuitMarkForClose (some circ)])
  match acceptsLinked p s circ cell with
  | none => close s
  | some (link, nonce) =>
    match s.unlinkedPool nonce with
    | none => close s
    | some unlinked =>
      match unlinked.legs.find? (·.isOf circ) with
      | none => close s
      | some leg =>
        let inTime := recordRtt cell.now p.circuitBuildTimeoutUsec leg.toLeg
        let unlinked := { unlinked with
          legs := unlinked.legs.map fun leg =>
            if leg.isOf circ then
              { leg with
                link := link
                rttUsec := recordRttClient cell.now leg.toLeg
                linked := leg.linked || inTime }
            else leg }
        let s := { s with unlinkedPool := Function.update s.unlinkedPool nonce (some unlinked) }
        if !inTime then close s
        else
          (tryFinalizeInPools p s unlinked).map fun
            | ((s, tasks), .missingLeg) => (s, tasks ++ [.circuitMarkForClose (some circ)])
            | (done, _) => done

def recordRttExit (now : ℕ) (leg : ConfluxLeg) : ConfluxLeg :=
  let rttUsec := u64 (now - leg.linkedSentUsec)
  { leg with circRttsUsec := if leg.linkedSentUsec = 0 ∨ rttUsec = 0 then uint64Max else rttUsec }

def processLinkedAckInPools (cell : CellArrival) : Outcome κ :=
  if !cell.confluxIsEnabled || p.isClient || !cell.sourceHop then
    .ok (s, [.circuitMarkForClose (some circ)])
  else
    match s.conflux circ with
    | none => .ok (s, [.circuitMarkForClose (some circ)])
    | some i =>
      match s.objs i with
      | none => .error .useAfterFree
      | some cfx =>
        let cfx := cfx.updateLeg circ (recordRttExit cell.now)
        .ok ({ s with objs := Function.update s.objs i (some cfx) }, [])

def linkedCircuitFree (i : CfxRef) : Except Fault (Pools κ) :=
  match s.objs i with
  | none => .error .useAfterFree
  | some cfx =>
    let (cfx, fullTeardown) := cfxDelLeg ccontrol cfx circ
    let cfx := { cfx with inFullTeardown := cfx.inFullTeardown || fullTeardown }
    let s := { s with objs := Function.update s.objs i (some cfx) }
    if cfx.legs.length > 0 then .ok s
    else
      let s := { s with linkedPool := Function.update s.linkedPool cfx.nonce none }
      match s.unlinkedPool cfx.nonce with
      | none => confluxFree s i
      | some unlinked =>
        if !unlinked.isForLinkedSet then .error .notForLinkedSet
        else
          .ok { s with unlinkedPool := Function.update s.unlinkedPool cfx.nonce
                         (some { unlinked with isForLinkedSet := false }) }

def unlinkedCircuitFree (nonce : Nonce) : Pools κ :=
  match s.unlinkedPool nonce with
  | none => s
  | some unlinked =>
    { s with unlinkedPool := Function.update s.unlinkedPool nonce (some { unlinked with
        legs := unlinked.legs.map fun leg =>
          if leg.isOf circ then { leg with circFreed := true } else leg }) }

/-- `conflux_circuit_about_to_free`, and the circuit is gone. -/
def confluxCircuitAboutToFree : Except Fault (Pools κ) :=
  let freed :=
    match s.conflux circ with
    | some i => linkedCircuitFree ccontrol s circ i
    | none =>
      match s.confluxPendingNonce circ with
      | some nonce => .ok (unlinkedCircuitFree s circ nonce)
      | none => .ok s
  freed.map fun s => { s with
    live := Function.update s.live circ false
    conflux := Function.update s.conflux circ none
    confluxPendingNonce := Function.update s.confluxPendingNonce circ none }

/-! ### Runs -/

/-- The pools and the calls still to be made, first things first. -/
structure Machine (κ : Type) where
  pools : Pools κ
  agenda : List Task

/-- What can happen.  `work` makes the next call, with the congestion control of a circuit that it
closes and the success of a launch; all else waits for the calls to be over.  A cell of the streams
is `traffic`: it changes the counters of a set, and neither its nonce nor which circuits are its
legs. -/
inductive Action (κ : Type)
  | work (ccontrol : CongestionControl) (established : Bool)
  | newCircuit
  | launch (nonce : Nonce)
  | opened (circ : Circ) (confluxIsEnabled sent : Bool) (now : ℕ)
  | link (circ : Circ) (cell : CellArrival)
  | linked (circ : Circ) (cell : CellArrival)
  | linkedAck (circ : Circ) (cell : CellArrival)
  | close (circ : Circ)
  | free (circ : Circ) (ccontrol : CongestionControl)
  | shutdown
  | traffic (i : CfxRef) (cfx : Conflux κ)

def Conflux.circs (cfx : Conflux κ) : List Circ := cfx.legs.map ConfluxLeg.circ

def runTask (established : Bool) : Task → Outcome κ
  | .circuitMarkForClose none => .error .nullCirc
  | .circuitMarkForClose (some circ) => circuitMarkForClose p ccontrol s circ
  | .markAllForClose nonce => markAllForClose s nonce
  | .markLinkedForClose nonce => markLinkedForClose s nonce
  | .confluxLaunchLeg nonce => launchLegInPools p s established nonce

/-- The circuit takes part in what happens: it is there, and cells on it are still read. -/
def Pools.open (s : Pools κ) (circ : Circ) : Bool := s.live circ && !s.markedForClose circ

def occur : Action κ → Outcome κ
  | .work _ _ => .ok (s, [])
  | .newCircuit =>
    .ok ({ s with live := Function.update s.live s.nextCirc true, nextCirc := s.nextCirc + 1 }, [])
  | .launch nonce => .ok (s, if p.isClient then [.confluxLaunchLeg nonce] else [])
  | .opened circ confluxIsEnabled sent now =>
    if p.isClient && s.open circ then confluxCircuitHasOpened s circ confluxIsEnabled sent now
    else .ok (s, [])
  | .link circ cell => if s.open circ then processLinkInPools p s circ cell else .ok (s, [])
  | .linked circ cell => if s.open circ then processLinkedInPools p s circ cell else .ok (s, [])
  | .linkedAck circ cell => if s.open circ then processLinkedAckInPools p s circ cell else .ok (s, [])
  | .close circ => .ok (s, [.circuitMarkForClose (some circ)])
  | .free circ ccontrol =>
    if s.live circ then (confluxCircuitAboutToFree ccontrol s circ).map (·, []) else .ok (s, [])
  | .shutdown => .ok ({ s with shuttingDown := true }, [])
  | .traffic i cfx' =>
    match s.objs i with
    | none => .ok (s, [])
    | some cfx =>
      if cfx'.nonce = cfx.nonce ∧ cfx'.circs = cfx.circs then
        .ok ({ s with objs := Function.update s.objs i (some cfx') }, [])
      else .ok (s, [])

def poolStep (m : Machine κ) (a : Action κ) : Except Fault (Machine κ) :=
  match m.agenda with
  | [] => (occur p m.pools a).map fun (s, tasks) => { pools := s, agenda := tasks }
  | task :: rest =>
    match a with
    | .work ccontrol established =>
      (runTask p ccontrol m.pools established task).map fun (s, tasks) =>
        { pools := s, agenda := tasks ++ rest }
    | _ => .ok m

def poolInit (κ : Type) : Machine κ where
  pools := {
    linkedPool := fun _ => none
    unlinkedPool := fun _ => none
    objs := fun _ => none
    nextObj := 0
    live := fun _ => false
    nextCirc := 0
    confluxPendingNonce := fun _ => none
    conflux := fun _ => none
    markedForClose := fun _ => false
    shuttingDown := false }
  agenda := []

def poolSystem (p : PoolParams) (κ : Type) : System (Machine κ) (Action κ) where
  init := fun m => m = poolInit κ
  step := fun m a m' => poolStep p m a = .ok m'

/-- The pools are consistent: a linked circuit is a leg of the object in the linked pool under the
nonce of its own, a circuit with a pending nonce is a leg of the unlinked set, and what circuits
and unlinked sets refer to has not been freed. -/
structure Consistent (s : Pools κ) : Prop where
  linked : ∀ c i, s.live c = true → s.markedForClose c = false → s.conflux c = some i →
    ∃ cfx, s.objs i = some cfx ∧ s.linkedPool cfx.nonce = some i ∧ c ∈ cfx.circs
  pending : ∀ c n, s.confluxPendingNonce c = some n →
    ∃ unlinked, s.unlinkedPool n = some unlinked ∧ c ∈ unlinked.waiting
  circuitRef : ∀ c i, s.conflux c = some i → (s.objs i).isSome
  unlinkedRef : ∀ n unlinked, s.unlinkedPool n = some unlinked → (s.objs unlinked.cfx).isSome

/-- A set of this nonce has closed, and the circuit that was its last leg is not freed. -/
def NonceClosing (s : Pools κ) (nonce : Nonce) : Prop :=
  ∃ c i cfx, s.conflux c = some i ∧ s.objs i = some cfx ∧ cfx.nonce = nonce ∧ cfx.legs = []

/-- The answer on a circuit is the last one its unlinked set waits for. -/
def Completes (s : Pools κ) (circ : Circ) (nonce : Nonce) : Prop :=
  ∀ unlinked, s.unlinkedPool nonce = some unlinked →
    ∀ leg ∈ unlinked.legs, leg.isOf circ = false → leg.linked = true

/-- No set is started, and none completed, under the nonce of a set that is closing, and a launch
succeeds. -/
def NonceUnused (p : PoolParams) (m : Machine κ) (a : Action κ) : Prop :=
  match m.agenda, a with
  | .confluxLaunchLeg nonce :: _, .work _ established =>
    established = true ∧ (m.pools.unlinkedPool nonce = none → ¬ NonceClosing m.pools nonce)
  | [], .link circ cell => ∀ link, acceptsLink p m.pools circ cell = some link →
    ¬ NonceClosing m.pools link.nonce
  | [], .linked circ cell => ∀ link nonce, acceptsLinked p m.pools circ cell = some (link, nonce) →
    Completes m.pools circ nonce → ¬ NonceClosing m.pools nonce
  | _, _ => True

/-- Who refers to which object.  A circuit is a leg of a set in the pool, or it was the last leg,
closed, and is alone in referring to the object.  Objects that circuits refer to differ in their
nonces, and an unlinked set of the nonce of one is there for it. -/
structure PoolInv (s : Pools κ) : Prop where
  unborn : ∀ i, s.nextObj ≤ i → s.objs i = none
  fresh : ∀ c, s.nextCirc ≤ c → s.live c = false
  dead : ∀ c, s.live c = false → s.conflux c = none ∧ s.confluxPendingNonce c = none ∧
    (s.nextCirc ≤ c → s.markedForClose c = false)
  linkedKey : ∀ n i, s.linkedPool n = some i → ∃ cfx, s.objs i = some cfx ∧ cfx.nonce = n
  unlinkedKey : ∀ n unlinked, s.unlinkedPool n = some unlinked →
    ∃ cfx, s.objs unlinked.cfx = some cfx ∧ cfx.nonce = n
  held : ∀ c i, s.conflux c = some i → s.confluxPendingNonce c = none ∧
    ∃ cfx, s.objs i = some cfx ∧
      ((c ∈ cfx.circs ∧ s.linkedPool cfx.nonce = some i ∧ s.markedForClose c = false) ∨
        (cfx.circs = [] ∧ s.linkedPool cfx.nonce = none ∧ s.markedForClose c = true ∧
          ∀ c', s.conflux c' = some i → c' = c))
  legs : ∀ i cfx, s.objs i = some cfx → cfx.circs.Nodup ∧ ∀ c ∈ cfx.circs, s.conflux c = some i
  sameNonce : ∀ c c' i i' cfx cfx', s.conflux c = some i → s.conflux c' = some i' →
    s.objs i = some cfx → s.objs i' = some cfx' → cfx.nonce = cfx'.nonce → i = i'
  forLinked : ∀ n unlinked c i cfx, s.unlinkedPool n = some unlinked → s.conflux c = some i →
    s.objs i = some cfx → cfx.nonce = n → unlinked.cfx = i ∧ unlinked.isForLinkedSet = true
  unlinkedOnly : ∀ n unlinked, s.unlinkedPool n = some unlinked → unlinked.isForLinkedSet = false →
    s.linkedPool n = none
  pendingLeg : ∀ c n, s.confluxPendingNonce c = some n → s.markedForClose c = false ∧
    ∃ unlinked, s.unlinkedPool n = some unlinked ∧ c ∈ unlinked.waiting
  waiting : ∀ n unlinked, s.unlinkedPool n = some unlinked → unlinked.waiting.Nodup ∧
    ∀ c ∈ unlinked.waiting, s.confluxPendingNonce c = some n

/-- A call that keeps the invariant, or ends the process in another way than by a reference that
dangles or the assertion in `linked_circuit_free`. -/
def Safe {α : Type*} (P : α → Prop) : Except Fault α → Prop
  | .ok x => P x
  | .error fault => fault ≠ .useAfterFree ∧ fault ≠ .notForLinkedSet

/-! ### What keeps the invariant -/

variable {p : PoolParams} {ccontrol : CongestionControl} {s : Pools κ} {circ : Circ}

theorem eq_of_update_self {α β : Type*} [DecidableEq α] {f : α → Option β} {a : α} {x y : β}
    (h : Function.update f a (some x) a = some y) : x = y := by
  simpa using h

theorem exists_of_update_obj {objs : CfxRef → Option (Conflux κ)} {i j : CfxRef}
    {cfx cfx' o : Conflux κ} (hobj : objs i = some cfx) (hnonce : cfx'.nonce = cfx.nonce)
    (ho : Function.update objs i (some cfx') j = some o) :
    ∃ o', objs j = some o' ∧ o'.nonce = o.nonce := by
  by_cases hji : j = i
  · subst hji
    obtain rfl : cfx' = o := by simpa using ho
    exact ⟨cfx, hobj, hnonce.symm⟩
  · exact ⟨o, by simpa [hji] using ho, rfl⟩

theorem PoolInv.touch (h : PoolInv s) {i : CfxRef} {cfx : Conflux κ} (cfx' : Conflux κ) (hobj : s.objs i = some cfx)
    (hnonce : cfx'.nonce = cfx.nonce) (hcircs : cfx'.circs = cfx.circs) :
    PoolInv { s with objs := Function.update s.objs i (some cfx') } := by
  have key : ∀ j o, Function.update s.objs i (some cfx') j = some o →
      ∃ o', s.objs j = some o' ∧ o'.nonce = o.nonce ∧ o'.circs = o.circs := by
    intro j o hj
    by_cases hji : j = i
    · subst hji
      obtain rfl : cfx' = o := by simpa using hj
      exact ⟨cfx, hobj, hnonce.symm, hcircs.symm⟩
    · exact ⟨o, by simpa [hji] using hj, rfl, rfl⟩
  have back : ∀ j o', s.objs j = some o' → ∃ o, Function.update s.objs i (some cfx') j = some o ∧
      o'.nonce = o.nonce ∧ o'.circs = o.circs := by
    intro j o' hj
    by_cases hji : j = i
    · subst hji
      obtain rfl : cfx = o' := by simpa [hobj] using hj
      exact ⟨cfx', by simp, hnonce.symm, hcircs.symm⟩
    · exact ⟨o', by simpa [hji] using hj, rfl, rfl⟩
  refine { h with
      unborn := ?_, linkedKey := ?_, unlinkedKey := ?_, held := ?_, legs := ?_, sameNonce := ?_,
      forLinked := ?_ }
  · intro j hj
    have hne : j ≠ i := by
      rintro rfl
      rw [h.unborn j hj] at hobj
      exact absurd hobj (by simp)
    simpa [hne] using h.unborn j hj
  · intro n j hj
    obtain ⟨o', ho', rfl⟩ := h.linkedKey n j hj
    obtain ⟨o, ho, hn, -⟩ := back j o' ho'
    exact ⟨o, ho, hn.symm⟩
  · intro n unlinked hu
    obtain ⟨o', ho', rfl⟩ := h.unlinkedKey n unlinked hu
    obtain ⟨o, ho, hn, -⟩ := back _ o' ho'
    exact ⟨o, ho, hn.symm⟩
  · intro c j hj
    obtain ⟨hp, o', ho', hcase⟩ := h.held c j hj
    obtain ⟨o, ho, hn, hc⟩ := back j o' ho'
    rw [hn, hc] at hcase
    exact ⟨hp, o, ho, hcase⟩
  · intro j o hj
    obtain ⟨o', ho', -, hc⟩ := key j o hj
    rw [← hc]
    exact h.legs j o' ho'
  · intro c c' j j' o o' hc hc' ho ho' hn
    obtain ⟨q, hq, hqn, -⟩ := key j o ho
    obtain ⟨q', hq', hqn', -⟩ := key j' o' ho'
    exact h.sameNonce c c' j j' q q' hc hc' hq hq' (by rw [hqn, hqn', hn])
  · intro n unlinked c j o hu hc ho hn
    obtain ⟨q, hq, hqn, -⟩ := key j o ho
    exact h.forLinked n unlinked c j q hu hc hq (by rw [hqn, hn])

theorem PoolInv.drop (h : PoolInv s) {i : CfxRef} {cfx cfx' : Conflux κ} (hc : s.conflux circ = some i)
    (hobj : s.objs i = some cfx) (hnonce : cfx'.nonce = cfx.nonce)
    (hnodup : cfx'.circs.Nodup) (hcircs : ∀ c, c ∈ cfx'.circs ↔ c ∈ cfx.circs ∧ c ≠ circ) :
    PoolInv { s with
      objs := Function.update s.objs i (some cfx')
      conflux := Function.update s.conflux circ none } := by
  refine { h with
      unborn := ?_, dead := ?_, linkedKey := ?_, unlinkedKey := ?_, held := ?_, legs := ?_,
      sameNonce := ?_, forLinked := ?_ }
  · intro j hj
    have := h.unborn
    grind [Function.update_apply]
  · have := h.dead
    grind [Function.update_apply]
  · have := h.linkedKey
    grind [Function.update_apply]
  · have := h.unlinkedKey
    grind [Function.update_apply]
  · intro c j hj
    have hcne : c ≠ circ := by grind [Function.update_apply]
    obtain ⟨hp, o, ho, hcase⟩ := h.held c j (by simpa [hcne] using hj)
    have hj' : s.conflux c = some j := by simpa [hcne] using hj
    refine ⟨hp, ?_⟩
    by_cases hji : j = i
    · subst hji
      obtain rfl : cfx = o := by simpa [hobj] using ho
      refine ⟨cfx', by simp, ?_⟩
      rcases hcase with ⟨hm, hl, hmk⟩ | ⟨-, -, -, huniq⟩
      · exact .inl ⟨(hcircs c).mpr ⟨hm, hcne⟩, by rw [hnonce]; exact hl, hmk⟩
      · exact absurd (huniq circ hc).symm hcne
    · refine ⟨o, by simpa [hji] using ho, ?_⟩
      rcases hcase with hleg | ⟨he, hl, hmk, huniq⟩
      · exact .inl hleg
      · refine .inr ⟨he, hl, hmk, ?_⟩
        intro c' hc'
        have hc'ne : c' ≠ circ := by grind [Function.update_apply]
        exact huniq c' (by simpa [hc'ne] using hc')
  · intro j o ho
    by_cases hji : j = i
    · subst hji
      obtain rfl : cfx' = o := by simpa using ho
      refine ⟨hnodup, fun c hmem => ?_⟩
      obtain ⟨hm, hcne⟩ := (hcircs c).mp hmem
      simpa [hcne] using (h.legs j cfx hobj).2 c hm
    · have ho' : s.objs j = some o := by simpa [hji] using ho
      obtain ⟨hnd, hall⟩ := h.legs j o ho'
      refine ⟨hnd, fun c hmem => ?_⟩
      have hcj := hall c hmem
      have hcne : c ≠ circ := by
        rintro rfl
        rw [hc] at hcj
        exact hji (Option.some.inj hcj).symm
      simpa [hcne] using hcj
  · intro c c' j j' o o' hj hj' ho ho' hn
    obtain ⟨q, hq, hqn⟩ := exists_of_update_obj hobj hnonce ho
    obtain ⟨q', hq', hqn'⟩ := exists_of_update_obj hobj hnonce ho'
    exact h.sameNonce c c' j j' q q' (by grind [Function.update_apply])
      (by grind [Function.update_apply]) hq hq' (by rw [hqn, hqn', hn])
  · intro n unlinked c j o hu hj ho hn
    obtain ⟨q, hq, hqn⟩ := exists_of_update_obj hobj hnonce ho
    exact h.forLinked n unlinked c j q hu (by grind [Function.update_apply]) hq (by rw [hqn, hn])

theorem PoolInv.last (h : PoolInv s) {i : CfxRef} {cfx cfx' : Conflux κ} (hc : s.conflux circ = some i)
    (hobj : s.objs i = some cfx) (hmem : circ ∈ cfx.circs) (hnonce : cfx'.nonce = cfx.nonce)
    (hcircs : ∀ c, c ∈ cfx'.circs ↔ c ∈ cfx.circs ∧ c ≠ circ) (hempty : cfx'.circs = []) :
    PoolInv { s with
      objs := Function.update s.objs i (some cfx')
      linkedPool := Function.update s.linkedPool cfx.nonce none
      markedForClose := Function.update s.markedForClose circ true } := by
  -- a circuit that refers to the object is a leg, and there is one leg
  have huniq : ∀ c, s.conflux c = some i → c = circ := by
    intro c hci
    obtain ⟨-, o, ho, hcase⟩ := h.held c i hci
    obtain rfl : cfx = o := by simpa [hobj] using ho
    rcases hcase with ⟨hm, -, -⟩ | ⟨he, -, -, -⟩
    · by_contra hne
      have := (hcircs c).mpr ⟨hm, hne⟩
      rw [hempty] at this
      exact absurd this (List.not_mem_nil)
    · rw [he] at hmem
      exact absurd hmem (List.not_mem_nil)
  have hpend := (h.held circ i hc).1
  constructor
  · have := h.unborn
    grind [Function.update_apply]
  · exact h.fresh
  · intro c hdead
    obtain ⟨h1, h2, h3⟩ := h.dead c hdead
    have hcne : c ≠ circ := by
      rintro rfl
      rw [h1] at hc
      exact absurd hc (by simp)
    exact ⟨h1, h2, fun hle => by simpa [hcne] using h3 hle⟩
  · have := h.linkedKey
    grind [Function.update_apply]
  · have := h.unlinkedKey
    grind [Function.update_apply]
  · intro c j hj
    obtain ⟨hp, o, ho, hcase⟩ := h.held c j hj
    refine ⟨hp, ?_⟩
    by_cases hji : j = i
    · subst hji
      obtain rfl := huniq c hj
      exact ⟨cfx', by simp, .inr ⟨hempty, by simp [hnonce], by simp, huniq⟩⟩
    · have hcne : c ≠ circ := by
        rintro rfl
        rw [hc] at hj
        exact hji (Option.some.inj hj).symm
      have hn : o.nonce ≠ cfx.nonce := fun hn => hji (h.sameNonce c circ j i o cfx hj hc ho hobj hn)
      refine ⟨o, by simpa [hji] using ho, ?_⟩
      simpa [hn, hcne] using hcase
  · intro j o ho
    by_cases hji : j = i
    · subst hji
      obtain rfl : cfx' = o := by simpa using ho
      rw [hempty]
      exact ⟨List.nodup_nil, fun c hm => absurd hm (List.not_mem_nil)⟩
    · exact h.legs j o (by simpa [hji] using ho)
  · intro c c' j j' o o' hj hj' ho ho' hn
    obtain ⟨q, hq, hqn⟩ := exists_of_update_obj hobj hnonce ho
    obtain ⟨q', hq', hqn'⟩ := exists_of_update_obj hobj hnonce ho'
    exact h.sameNonce c c' j j' q q' hj hj' hq hq' (by rw [hqn, hqn', hn])
  · intro n unlinked c j o hu hj ho hn
    obtain ⟨q, hq, hqn⟩ := exists_of_update_obj hobj hnonce ho
    exact h.forLinked n unlinked c j q hu hj hq (by rw [hqn, hn])
  · have := h.unlinkedOnly
    grind [Function.update_apply]
  · intro c n hcn
    obtain ⟨hm, hu⟩ := h.pendingLeg c n hcn
    have hcne : c ≠ circ := by
      rintro rfl
      rw [hpend] at hcn
      exact absurd hcn (by simp)
    exact ⟨by simpa [hcne] using hm, hu⟩
  · exact h.waiting

def Unheld (s : Pools κ) (nonce : Nonce) : Prop :=
  ∀ c i cfx, s.conflux c = some i → s.objs i = some cfx → cfx.nonce ≠ nonce

theorem PoolInv.unlink (h : PoolInv s) {nonce : Nonce} (hun : Unheld s nonce) :
    PoolInv { s with linkedPool := Function.update s.linkedPool nonce none } := by
  refine { h with linkedKey := ?_, held := ?_, unlinkedOnly := ?_ }
  · have := h.linkedKey
    grind [Function.update_apply]
  · intro c i hci
    obtain ⟨hp, cfx, hobj, hcase⟩ := h.held c i hci
    have hn := hun c i cfx hci hobj
    exact ⟨hp, cfx, hobj, by simpa [hn] using hcase⟩
  · have := h.unlinkedOnly
    grind [Function.update_apply]

theorem PoolInv.freeObj (h : PoolInv s) {i : CfxRef} (hheld : ∀ c, s.conflux c ≠ some i)
    (hlinked : ∀ n, s.linkedPool n ≠ some i)
    (hunlinked : ∀ n unlinked, s.unlinkedPool n = some unlinked → unlinked.cfx ≠ i) :
    PoolInv { s with objs := Function.update s.objs i none } := by
  refine { h with
      unborn := ?_, linkedKey := ?_, unlinkedKey := ?_, held := ?_, legs := ?_, sameNonce := ?_,
      forLinked := ?_ }
  · have := h.unborn
    grind [Function.update_apply]
  · have := h.linkedKey
    grind [Function.update_apply]
  · have := h.unlinkedKey
    grind [Function.update_apply]
  · intro c j hj
    have hji : j ≠ i := fun hji => hheld c (hji ▸ hj)
    simpa [hji] using h.held c j hj
  · intro j o ho
    have hji : j ≠ i := by
      rintro rfl
      exact absurd ho (by simp)
    exact h.legs j o (by simpa [hji] using ho)
  · intro c c' j j' o o' hj hj' ho ho' hn
    have hji : j ≠ i := fun hji => hheld c (hji ▸ hj)
    have hji' : j' ≠ i := fun hji' => hheld c' (hji' ▸ hj')
    exact h.sameNonce c c' j j' o o' hj hj' (by simpa [hji] using ho) (by simpa [hji'] using ho') hn
  · intro n unlinked c j o hu hj ho hn
    have hji : j ≠ i := fun hji => hheld c (hji ▸ hj)
    exact h.forLinked n unlinked c j o hu hj (by simpa [hji] using ho) hn

theorem PoolInv.touchUnlinked (h : PoolInv s) {nonce : Nonce} {unlinked : UnlinkedSet}
    (unlinked' : UnlinkedSet) (hu : s.unlinkedPool nonce = some unlinked) (hcfx : unlinked'.cfx = unlinked.cfx)
    (hwait : unlinked'.waiting = unlinked.waiting)
    (hfor : unlinked'.isForLinkedSet = unlinked.isForLinkedSet ∨
      (Unheld s nonce ∧ s.linkedPool nonce = none)) :
    PoolInv { s with unlinkedPool := Function.update s.unlinkedPool nonce (some unlinked') } := by
  refine { h with
      unlinkedKey := ?_, forLinked := ?_, unlinkedOnly := ?_, pendingLeg := ?_, waiting := ?_ }
  · intro n v hv
    by_cases hn : n = nonce
    · subst hn
      obtain rfl : unlinked' = v := by simpa using hv
      rw [hcfx]
      exact h.unlinkedKey n unlinked hu
    · exact h.unlinkedKey n v (by simpa [hn] using hv)
  · intro n v c i cfx hv hc hobj hcn
    by_cases hn : n = nonce
    · subst hn
      obtain rfl : unlinked' = v := by simpa using hv
      rcases hfor with hfor | ⟨hun, -⟩
      · rw [hcfx, hfor]
        exact h.forLinked n unlinked c i cfx hu hc hobj hcn
      · exact absurd hcn (hun c i cfx hc hobj)
    · exact h.forLinked n v c i cfx (by simpa [hn] using hv) hc hobj hcn
  · have := h.unlinkedOnly
    grind [Function.update_apply]
  · intro c n hc
    obtain ⟨hm, v, hv, hcv⟩ := h.pendingLeg c n hc
    refine ⟨hm, ?_⟩
    by_cases hn : n = nonce
    · subst hn
      obtain rfl : unlinked = v := by simpa [hu] using hv
      exact ⟨unlinked', by simp, hwait ▸ hcv⟩
    · exact ⟨v, by simpa [hn] using hv, hcv⟩
  · intro n v hv
    by_cases hn : n = nonce
    · subst hn
      obtain rfl : unlinked' = v := by simpa using hv
      rw [hwait]
      exact h.waiting n unlinked hu
    · exact h.waiting n v (by simpa [hn] using hv)

theorem PoolInv.dropWaiting (h : PoolInv s) {nonce : Nonce} {unlinked : UnlinkedSet}
    (unlinked' : UnlinkedSet) (hu : s.unlinkedPool nonce = some unlinked) (hcfx : unlinked'.cfx = unlinked.cfx)
    (hwait : unlinked'.waiting = unlinked.waiting.erase circ)
    (hfor : unlinked'.isForLinkedSet = unlinked.isForLinkedSet)
    (hpend : s.confluxPendingNonce circ = some nonce) :
    PoolInv { s with
      unlinkedPool := Function.update s.unlinkedPool nonce (some unlinked')
      confluxPendingNonce := Function.update s.confluxPendingNonce circ none } := by
  refine { h with
      dead := ?_, unlinkedKey := ?_, held := ?_, forLinked := ?_, unlinkedOnly := ?_,
      pendingLeg := ?_, waiting := ?_ }
  · have := h.dead
    grind [Function.update_apply]
  · have := h.unlinkedKey
    grind [Function.update_apply]
  · intro c i hc
    obtain ⟨hp, hrest⟩ := h.held c i hc
    refine ⟨?_, hrest⟩
    grind [Function.update_apply]
  · have := h.forLinked
    grind [Function.update_apply]
  · have := h.unlinkedOnly
    grind [Function.update_apply]
  · intro c n hc
    have hcne : c ≠ circ := by grind [Function.update_apply]
    obtain ⟨hm, v, hv, hcv⟩ := h.pendingLeg c n (by simpa [hcne] using hc)
    refine ⟨hm, ?_⟩
    by_cases hn : n = nonce
    · subst hn
      obtain rfl : unlinked = v := by simpa [hu] using hv
      exact ⟨unlinked', by simp, by rw [hwait]; exact (List.mem_erase_of_ne hcne).mpr hcv⟩
    · exact ⟨v, by simpa [hn] using hv, hcv⟩
  · intro n v hv
    by_cases hn : n = nonce
    · subst hn
      obtain rfl : unlinked' = v := by simpa using hv
      obtain ⟨hnd, hall⟩ := h.waiting n unlinked hu
      rw [hwait]
      refine ⟨hnd.erase circ, fun c hc => ?_⟩
      have hcne : c ≠ circ := ((hnd.mem_erase_iff).mp hc).1
      simpa [hcne] using hall c (List.mem_of_mem_erase hc)
    · obtain ⟨hnd, hall⟩ := h.waiting n v (by simpa [hn] using hv)
      refine ⟨hnd, fun c hc => ?_⟩
      have hcne : c ≠ circ := by
        rintro rfl
        rw [hall c hc] at hpend
        exact hn (Option.some.inj hpend)
      simpa [hcne] using hall c hc

theorem PoolInv.delUnlinked (h : PoolInv s) {nonce : Nonce} {unlinked : UnlinkedSet}
    (hu : s.unlinkedPool nonce = some unlinked) (hwait : unlinked.waiting = []) :
    PoolInv { s with unlinkedPool := Function.update s.unlinkedPool nonce none } := by
  refine { h with
      unlinkedKey := ?_, forLinked := ?_, unlinkedOnly := ?_, pendingLeg := ?_, waiting := ?_ }
  · have := h.unlinkedKey
    grind [Function.update_apply]
  · have := h.forLinked
    grind [Function.update_apply]
  · have := h.unlinkedOnly
    grind [Function.update_apply]
  · have := h.pendingLeg
    grind [Function.update_apply]
  · have := h.waiting
    grind [Function.update_apply]

theorem PoolInv.mark (h : PoolInv s) (hlive : s.live circ = true) (hc : s.conflux circ = none)
    (hpend : s.confluxPendingNonce circ = none) :
    PoolInv { s with markedForClose := Function.update s.markedForClose circ true } := by
  refine { h with dead := ?_, held := ?_, pendingLeg := ?_ }
  · have := h.dead
    grind [Function.update_apply]
  · intro c i hci
    have hcne : c ≠ circ := by grind
    simpa [hcne] using h.held c i hci
  · have := h.pendingLeg
    grind [Function.update_apply]

theorem PoolInv.kill (h : PoolInv s) (hlive : s.live circ = true) (hc : s.conflux circ = none)
    (hpend : s.confluxPendingNonce circ = none) :
    PoolInv { s with
      live := Function.update s.live circ false
      conflux := Function.update s.conflux circ none
      confluxPendingNonce := Function.update s.confluxPendingNonce circ none } := by
  have hconflux : Function.update s.conflux circ none = s.conflux :=
    Function.update_eq_self_iff.mpr hc.symm
  have hpending : Function.update s.confluxPendingNonce circ none = s.confluxPendingNonce :=
    Function.update_eq_self_iff.mpr hpend.symm
  rw [hconflux, hpending]
  refine { h with fresh := ?_, dead := ?_ }
  · have := h.fresh
    grind [Function.update_apply]
  · have := h.dead
    have := h.fresh
    grind [Function.update_apply]

theorem PoolInv.addWaiting (h : PoolInv s) {nonce : Nonce} {unlinked : UnlinkedSet}
    (unlinked' : UnlinkedSet) (hu : s.unlinkedPool nonce = some unlinked) (hcfx : unlinked'.cfx = unlinked.cfx)
    (hwait : unlinked'.waiting = unlinked.waiting ++ [circ])
    (hfor : unlinked'.isForLinkedSet = unlinked.isForLinkedSet) (hlive : s.live circ = true)
    (hc : s.conflux circ = none) (hpend : s.confluxPendingNonce circ = none)
    (hmark : s.markedForClose circ = false) :
    PoolInv { s with
      unlinkedPool := Function.update s.unlinkedPool nonce (some unlinked')
      confluxPendingNonce := Function.update s.confluxPendingNonce circ (some nonce) } := by
  refine { h with
      dead := ?_, unlinkedKey := ?_, held := ?_, forLinked := ?_, unlinkedOnly := ?_,
      pendingLeg := ?_, waiting := ?_ }
  · have := h.dead
    grind [Function.update_apply]
  · have := h.unlinkedKey
    grind [Function.update_apply]
  · intro c i hci
    obtain ⟨hp, hrest⟩ := h.held c i hci
    refine ⟨?_, hrest⟩
    grind [Function.update_apply]
  · have := h.forLinked
    grind [Function.update_apply]
  · have := h.unlinkedOnly
    grind [Function.update_apply]
  · intro c n hcn
    by_cases hcc : c = circ
    · subst hcc
      obtain rfl : nonce = n := by simpa using hcn
      exact ⟨hmark, unlinked', by simp, by rw [hwait]; simp⟩
    · obtain ⟨hm, v, hv, hcv⟩ := h.pendingLeg c n (by simpa [hcc] using hcn)
      refine ⟨hm, ?_⟩
      by_cases hn : n = nonce
      · subst hn
        obtain rfl : unlinked = v := by simpa [hu] using hv
        exact ⟨unlinked', by simp, by rw [hwait]; exact List.mem_append_left _ hcv⟩
      · exact ⟨v, by simpa [hn] using hv, hcv⟩
  · have hnew : ∀ n v, s.unlinkedPool n = some v → circ ∉ v.waiting := by
      intro n v hv hcv
      rw [(h.waiting n v hv).2 circ hcv] at hpend
      exact absurd hpend (by simp)
    intro n v hv
    by_cases hn : n = nonce
    · subst hn
      obtain rfl : unlinked' = v := by simpa using hv
      obtain ⟨hnd, hall⟩ := h.waiting n unlinked hu
      rw [hwait]
      refine ⟨List.nodup_append.mpr ⟨hnd, List.nodup_singleton _, ?_⟩, ?_⟩
      · have := hnew n unlinked hu
        grind
      · intro c hc'
        rcases List.mem_append.mp hc' with hcw | hcs
        · have hcne : c ≠ circ := fun hcc => hnew n unlinked hu (hcc ▸ hcw)
          simpa [hcne] using hall c hcw
        · obtain rfl := List.mem_singleton.mp hcs
          simp
    · obtain ⟨hnd, hall⟩ := h.waiting n v (by simpa [hn] using hv)
      refine ⟨hnd, fun c hcw => ?_⟩
      have hcne : c ≠ circ := fun hcc => hnew n v (by simpa [hn] using hv) (hcc ▸ hcw)
      simpa [hcne] using hall c hcw

theorem PoolInv.birth (h : PoolInv s) :
    PoolInv { s with live := Function.update s.live s.nextCirc true, nextCirc := s.nextCirc + 1 } := by
  refine { h with fresh := ?_, dead := ?_ }
  · have := h.fresh
    grind [Function.update_apply]
  · intro c hdead
    have hcne : c ≠ s.nextCirc := by grind [Function.update_apply]
    obtain ⟨h1, h2, h3⟩ := h.dead c (by simpa [hcne] using hdead)
    exact ⟨h1, h2, fun hle => h3 (Nat.le_of_succ_le hle)⟩

theorem PoolInv.getOrCreate (h : PoolInv s) {nonce : Nonce}
    (hclosing : s.unlinkedPool nonce = none → ¬ NonceClosing s nonce) {s' : Pools κ} {unlinked : UnlinkedSet}
    (he : unlinkedGetOrCreate s nonce = (s', unlinked)) :
    PoolInv s' ∧ s'.unlinkedPool nonce = some unlinked ∧ s'.live = s.live ∧ s'.nextCirc = s.nextCirc ∧
      s'.conflux = s.conflux ∧ s'.confluxPendingNonce = s.confluxPendingNonce ∧
      s'.markedForClose = s.markedForClose ∧ (NonceClosing s' nonce → NonceClosing s nonce) := by
  unfold unlinkedGetOrCreate at he
  cases hu : s.unlinkedPool nonce with
  | some v =>
    rw [hu] at he
    obtain ⟨rfl, rfl⟩ := Prod.mk.injEq .. ▸ he
    exact ⟨h, hu, rfl, rfl, rfl, rfl, rfl, id⟩
  | none =>
    have hheld := hclosing hu
    cases hl : s.linkedPool nonce with
    | some i =>
      simp only [hu, hl, Prod.mk.injEq] at he
      obtain ⟨rfl, rfl⟩ := he
      obtain ⟨cfx, hobj, hnonce⟩ := h.linkedKey nonce i hl
      refine ⟨?_, by simp, rfl, rfl, rfl, rfl, rfl, id⟩
      refine { h with
          unlinkedKey := ?_, forLinked := ?_, unlinkedOnly := ?_, pendingLeg := ?_, waiting := ?_ }
      · have := h.unlinkedKey
        grind [Function.update_apply]
      · intro n v c j o hv hc ho hn
        by_cases hnn : n = nonce
        · subst hnn
          obtain rfl := eq_of_update_self hv
          -- the one who refers to an object of this nonce is a leg of the set in the pool
          obtain ⟨-, q, hq, hcase⟩ := h.held c j hc
          obtain rfl : o = q := Option.some.inj (ho.symm.trans hq)
          rw [hn, hl] at hcase
          rcases hcase with ⟨-, hj, -⟩ | ⟨-, hnone, -⟩
          · exact ⟨Option.some.inj hj, rfl⟩
          · exact absurd hnone (by simp)
        · exact h.forLinked n v c j o (by simpa [hnn] using hv) hc ho hn
      · have := h.unlinkedOnly
        grind [Function.update_apply]
      · have := h.pendingLeg
        grind [Function.update_apply]
      · intro n v hv
        by_cases hnn : n = nonce
        · subst hnn
          obtain rfl := eq_of_update_self hv
          exact ⟨List.nodup_nil, fun c hc => absurd hc List.not_mem_nil⟩
        · exact h.waiting n v (by simpa [hnn] using hv)
    | none =>
      simp only [hu, hl, Prod.mk.injEq] at he
      obtain ⟨rfl, rfl⟩ := he
      have hnew := h.unborn s.nextObj le_rfl
      have hold : ∀ j o, Function.update s.objs s.nextObj (some (confluxNew κ nonce)) j = some o →
          j ≠ s.nextObj → s.objs j = some o := fun j o ho hne => by simpa [hne] using ho
      have hheldNe : ∀ c j, s.conflux c = some j → j ≠ s.nextObj := by
        rintro c j hc rfl
        obtain ⟨-, o, ho, -⟩ := h.held c _ hc
        rw [hnew] at ho
        exact absurd ho (by simp)
      refine ⟨?_, by simp, rfl, rfl, rfl, rfl, rfl, ?_⟩
      swap
      · rintro ⟨c, j, o, hc, ho, hrest⟩
        exact ⟨c, j, o, hc, hold j o ho (hheldNe c j hc), hrest⟩
      constructor
      · intro j hj
        have hne : j ≠ s.nextObj := fun hne => absurd hj (by simp [hne])
        have hle : s.nextObj ≤ j := Nat.le_of_succ_le hj
        simpa [hne] using h.unborn j hle
      · exact h.fresh
      · exact h.dead
      · have := h.linkedKey
        grind [Function.update_apply]
      · intro n v hv
        by_cases hnn : n = nonce
        · subst hnn
          obtain rfl := eq_of_update_self hv
          exact ⟨confluxNew κ n, by simp, rfl⟩
        · have := h.unlinkedKey n v (by simpa [hnn] using hv)
          grind [Function.update_apply]
      · intro c j hc
        obtain ⟨hp, o, ho, hcase⟩ := h.held c j hc
        exact ⟨hp, o, by simpa [hheldNe c j hc] using ho, hcase⟩
      · intro j o ho
        by_cases hne : j = s.nextObj
        · subst hne
          obtain rfl := eq_of_update_self ho
          exact ⟨List.nodup_nil, fun c hc => absurd hc List.not_mem_nil⟩
        · exact h.legs j o (hold j o ho hne)
      · intro c c' j j' o o' hc hc' ho ho' hn
        exact h.sameNonce c c' j j' o o' hc hc' (hold j o ho (hheldNe c j hc))
          (hold j' o' ho' (hheldNe c' j' hc')) hn
      · intro n v c j o hv hc ho hn
        have hoj := hold j o ho (hheldNe c j hc)
        by_cases hnn : n = nonce
        · subst hnn
          -- nobody refers to an object of this nonce: its set would be in the pool or closing
          obtain ⟨-, q, hq, hcase⟩ := h.held c j hc
          obtain rfl : o = q := Option.some.inj (hoj.symm.trans hq)
          rw [hn, hl] at hcase
          rcases hcase with ⟨-, hj, -⟩ | ⟨he, -, -⟩
          · exact absurd hj (by simp)
          · exact absurd ⟨c, j, o, hc, hoj, hn, List.map_eq_nil_iff.mp he⟩ hheld
        · exact h.forLinked n v c j o (by simpa [hnn] using hv) hc hoj hn
      · have := h.unlinkedOnly
        grind [Function.update_apply]
      · have := h.pendingLeg
        grind [Function.update_apply]
      · intro n v hv
        by_cases hnn : n = nonce
        · subst hnn
          obtain rfl := eq_of_update_self hv
          exact ⟨List.nodup_nil, fun c hc => absurd hc List.not_mem_nil⟩
        · exact h.waiting n v (by simpa [hnn] using hv)

theorem PoolInv.complete (h : PoolInv s) {nonce : Nonce} {unlinked : UnlinkedSet}
    {cfx cfx' : Conflux κ} (added : List Circ) (hu : s.unlinkedPool nonce = some unlinked)
    (hobj : s.objs unlinked.cfx = some cfx) (hclosing : ¬ NonceClosing s nonce)
    (hnonce : cfx'.nonce = cfx.nonce) (hcircs : cfx'.circs = cfx.circs ++ added)
    (hadded : added.Perm unlinked.waiting) : PoolInv (completeSet s unlinked cfx') := by
  obtain ⟨hnd, hall⟩ := h.waiting nonce unlinked hu
  obtain ⟨q, hq, rfl⟩ := h.unlinkedKey nonce unlinked hu
  obtain rfl : q = cfx := by simpa [hobj] using hq.symm
  have hmem : ∀ c, c ∈ added ↔ c ∈ unlinked.waiting := fun c => hadded.mem_iff
  -- who refers to an object does not wait
  have hnot : ∀ c i, s.conflux c = some i → c ∉ unlinked.waiting := by
    intro c i hc hcw
    have hp := (h.held c i hc).1
    rw [hall c hcw] at hp
    exact absurd hp (by simp)
  have hto : ∀ c i, (completeSet s unlinked cfx').conflux c = some i →
      (c ∈ unlinked.waiting ∧ i = unlinked.cfx) ∨ (c ∉ unlinked.waiting ∧ s.conflux c = some i) := by
    intro c i hc
    by_cases hcw : c ∈ unlinked.waiting
    · exact .inl ⟨hcw, by simpa [completeSet, hcw] using hc.symm⟩
    · exact .inr ⟨hcw, by simpa [completeSet, hcw] using hc⟩
  have hobj' : ∀ j o, (completeSet s unlinked cfx').objs j = some o →
      ∃ o', s.objs j = some o' ∧ o'.nonce = o.nonce := by
    intro j o ho
    exact exists_of_update_obj hobj hnonce ho
  constructor
  · have := h.unborn
    simp only [completeSet]
    grind [Function.update_apply]
  · exact h.fresh
  · intro c hc
    obtain ⟨h1, h2, h3⟩ := h.dead c hc
    have hcw : c ∉ unlinked.waiting := by
      intro hcw
      rw [hall c hcw] at h2
      exact absurd h2 (by simp)
    simpa [completeSet, hcw] using ⟨h1, h2, h3⟩
  · intro n i hi
    have := h.linkedKey
    simp only [completeSet] at hi ⊢
    grind [Function.update_apply]
  · intro n v hv
    have := h.unlinkedKey
    simp only [completeSet] at hv ⊢
    grind [Function.update_apply]
  · intro c i hc
    rcases hto c i hc with ⟨hcw, rfl⟩ | ⟨hcw, hci⟩
    · refine ⟨by simp [completeSet, hcw], cfx', by simp [completeSet], .inl ⟨?_, ?_, ?_⟩⟩
      · rw [hcircs]
        exact List.mem_append_right _ ((hmem c).mpr hcw)
      · simp [completeSet]
      · exact (h.pendingLeg c _ (hall c hcw)).1
    · obtain ⟨hp, o, ho, hcase⟩ := h.held c i hci
      refine ⟨by simpa [completeSet, hcw] using hp, ?_⟩
      by_cases hi : i = unlinked.cfx
      · subst hi
        obtain rfl : q = o := by simpa [hobj] using ho
        refine ⟨cfx', by simp [completeSet], .inl ?_⟩
        rcases hcase with ⟨hm, -, hmk⟩ | ⟨he, -, -⟩
        · exact ⟨by rw [hcircs]; exact List.mem_append_left _ hm, by simp [completeSet], hmk⟩
        · exact absurd ⟨c, _, q, hci, hobj, rfl, List.map_eq_nil_iff.mp he⟩ hclosing
      · have hn : o.nonce ≠ q.nonce := fun hn => hi (h.forLinked _ unlinked c i o hu hci ho hn).1.symm
        refine ⟨o, by simpa [completeSet, hi] using ho, ?_⟩
        rcases hcase with ⟨hm, hl, hmk⟩ | ⟨he, hl, hmk, huniq⟩
        · exact .inl ⟨hm, by simpa [completeSet, hnonce, hn] using hl, hmk⟩
        · refine .inr ⟨he, by simpa [completeSet, hnonce, hn] using hl, hmk, ?_⟩
          intro c' hc'
          rcases hto c' i hc' with ⟨-, hi'⟩ | ⟨-, hc'⟩
          · exact absurd hi' hi
          · exact huniq c' hc'
  · intro j o ho
    by_cases hj : j = unlinked.cfx
    · subst hj
      obtain rfl := eq_of_update_self ho
      obtain ⟨hnd', hall'⟩ := h.legs _ q hobj
      rw [hcircs]
      refine ⟨List.nodup_append.mpr ⟨hnd', hadded.nodup_iff.mpr hnd, ?_⟩, ?_⟩
      · rintro c hc c' hc' rfl
        exact hnot c _ (hall' c hc) ((hmem c).mp hc')
      · intro c hc
        rcases List.mem_append.mp hc with hc | hc
        · simpa [completeSet, hnot c _ (hall' c hc)] using hall' c hc
        · simp [completeSet, (hmem c).mp hc]
    · obtain ⟨hnd', hall'⟩ := h.legs j o (by simpa [completeSet, hj] using ho)
      refine ⟨hnd', fun c hc => ?_⟩
      simpa [completeSet, hnot c _ (hall' c hc)] using hall' c hc
  · intro c c' j j' o o' hc hc' ho ho' hn
    obtain ⟨r, hr, hrn⟩ := hobj' j o ho
    obtain ⟨r', hr', hrn'⟩ := hobj' j' o' ho'
    rcases hto c j hc with ⟨-, rfl⟩ | ⟨-, hcj⟩ <;> rcases hto c' j' hc' with ⟨-, rfl⟩ | ⟨-, hcj'⟩
    · rfl
    · obtain rfl : q = r := by simpa [hobj] using hr
      exact (h.forLinked _ unlinked c' j' r' hu hcj' hr' (by rw [hrn', ← hn, hrn])).1
    · obtain rfl : q = r' := by simpa [hobj] using hr'
      exact (h.forLinked _ unlinked c j r hu hcj hr (by rw [hrn, hn, hrn'])).1.symm
    · exact h.sameNonce c c' j j' r r' hcj hcj' hr hr' (by rw [hrn, hrn', hn])
  · intro n v c j o hv hc ho hn
    obtain ⟨r, hr, hrn⟩ := hobj' j o ho
    have hne : n ≠ q.nonce := by
      rintro rfl
      simp [completeSet, hnonce] at hv
    have hv : s.unlinkedPool n = some v := by simpa [completeSet, hnonce, hne] using hv
    rcases hto c j hc with ⟨-, rfl⟩ | ⟨-, hcj⟩
    · obtain rfl : q = r := by simpa [hobj] using hr
      exact absurd (hn.symm.trans hrn.symm) hne
    · exact h.forLinked n v c j r hv hcj hr (hrn.trans hn)
  · intro n v hv hfor
    have hne : n ≠ q.nonce := by
      rintro rfl
      simp [completeSet, hnonce] at hv
    have hold := h.unlinkedOnly n v (by simpa [completeSet, hnonce, hne] using hv) hfor
    simpa [completeSet, hnonce, hne] using hold
  · intro c n hc
    have hcw : c ∉ unlinked.waiting := by
      intro hcw
      simp [completeSet, hcw] at hc
    obtain ⟨hm, v, hv, hcv⟩ := h.pendingLeg c n (by simpa [completeSet, hcw] using hc)
    have hne : n ≠ q.nonce := by
      rintro rfl
      obtain rfl : unlinked = v := by simpa [hu] using hv
      exact hcw hcv
    exact ⟨hm, v, by simpa [completeSet, hnonce, hne] using hv, hcv⟩
  · intro n v hv
    have hne : n ≠ q.nonce := by
      rintro rfl
      simp [completeSet, hnonce] at hv
    obtain ⟨hnd', hall'⟩ := h.waiting n v (by simpa [completeSet, hnonce, hne] using hv)
    refine ⟨hnd', fun c hc => ?_⟩
    have hcw : c ∉ unlinked.waiting := by
      intro hcw
      have := (hall c hcw).symm.trans (hall' c hc)
      exact hne (Option.some.inj this).symm
    simpa [completeSet, hcw] using hall' c hc

/-! ### The legs of a set -/

@[simp] theorem PoolLeg.isOf_iff {leg : PoolLeg} {c : Circ} :
    leg.isOf c = true ↔ leg.circFreed = false ∧ leg.circ = c := by
  simp [PoolLeg.isOf]

theorem UnlinkedSet.mem_waiting {unlinked : UnlinkedSet} {c : Circ} :
    c ∈ unlinked.waiting ↔ ∃ leg ∈ unlinked.legs, leg.isOf c = true := by
  simp [UnlinkedSet.waiting, and_assoc]

theorem waiting_eraseP (isFor : Bool) (i : CfxRef) (legs : List PoolLeg) (c : Circ) :
    UnlinkedSet.waiting ⟨isFor, i, legs.eraseP (·.isOf c)⟩ =
      (UnlinkedSet.waiting ⟨isFor, i, legs⟩).erase c := by
  induction legs with
  | nil => rfl
  | cons leg legs ih =>
    simp only [UnlinkedSet.waiting] at ih ⊢
    by_cases hof : leg.isOf c = true
    · obtain ⟨hfreed, rfl⟩ := PoolLeg.isOf_iff.mp hof
      simp [hof, hfreed]
    · rw [List.eraseP_cons_of_neg hof]
      cases hfreed : leg.circFreed with
      | true => simpa [hfreed] using ih
      | false =>
        have hne : leg.circ ≠ c := fun hc => hof (PoolLeg.isOf_iff.mpr ⟨hfreed, hc⟩)
        simp [hfreed, ih, List.erase_cons_tail, hne]

theorem waiting_append (isFor : Bool) (i : CfxRef) (legs : List PoolLeg) {leg : PoolLeg}
    (hleg : leg.circFreed = false) :
    UnlinkedSet.waiting ⟨isFor, i, legs ++ [leg]⟩ =
      UnlinkedSet.waiting ⟨isFor, i, legs⟩ ++ [leg.circ] := by
  simp [UnlinkedSet.waiting, hleg]

theorem waiting_map (isFor : Bool) (i : CfxRef) (legs : List PoolLeg) {f : PoolLeg → PoolLeg}
    (hf : ∀ leg, (f leg).circ = leg.circ ∧ (f leg).circFreed = leg.circFreed) :
    UnlinkedSet.waiting ⟨isFor, i, legs.map f⟩ = UnlinkedSet.waiting ⟨isFor, i, legs⟩ := by
  induction legs with
  | nil => rfl
  | cons leg legs ih =>
    simp only [UnlinkedSet.waiting] at ih ⊢
    cases hfreed : leg.circFreed <;> simp [hf leg, hfreed, ih]

theorem waiting_freed (isFor : Bool) (i : CfxRef) (legs : List PoolLeg) (c : Circ) :
    UnlinkedSet.waiting ⟨isFor, i, legs.map fun leg =>
        if leg.isOf c then { leg with circFreed := true } else leg⟩ =
      (UnlinkedSet.waiting ⟨isFor, i, legs⟩).filter (· != c) := by
  induction legs with
  | nil => rfl
  | cons leg legs ih =>
    simp only [UnlinkedSet.waiting] at ih ⊢
    cases hfreed : leg.circFreed with
    | true => simpa [hfreed, PoolLeg.isOf] using ih
    | false =>
      by_cases hc : leg.circ = c
      · simpa [hfreed, PoolLeg.isOf, hc] using ih
      · simpa [hfreed, PoolLeg.isOf, hc] using ih

theorem circs_cfxDelLeg (ccontrol : CongestionControl) {cfx : Conflux κ} (circ : Circ)
    (hnodup : cfx.circs.Nodup) :
    (cfxDelLeg ccontrol cfx circ).1.nonce = cfx.nonce ∧ (cfxDelLeg ccontrol cfx circ).1.circs.Nodup ∧
      ∀ c, c ∈ (cfxDelLeg ccontrol cfx circ).1.circs ↔ c ∈ cfx.circs ∧ c ≠ circ := by
  unfold cfxDelLeg
  cases hleg : confluxGetLeg cfx circ with
  | none =>
    refine ⟨rfl, hnodup, fun c => ⟨fun hc => ⟨hc, ?_⟩, And.left⟩⟩
    rintro rfl
    obtain ⟨leg, hl, hlc⟩ := List.mem_map.mp hc
    have hsome := confluxGetLeg_isSome hl
    rw [hlc, hleg] at hsome
    simp at hsome
  | some leg =>
    obtain ⟨hl, hlc⟩ := mem_of_confluxGetLeg hleg
    have hinj := List.inj_on_of_nodup_map hnodup
    refine ⟨rfl, ?_, ?_⟩
    · refine List.Nodup.map_on (fun x hx y hy hxy => ?_) (nodup_smartlistRemove (hnodup.of_map _))
      exact hinj (mem_smartlistRemove.mp hx).1 (mem_smartlistRemove.mp hy).1 hxy
    · intro c
      simp only [Conflux.circs, List.mem_map, mem_smartlistRemove]
      constructor
      · rintro ⟨l, ⟨hlm, hne⟩, rfl⟩
        exact ⟨⟨l, hlm, rfl⟩, fun hc => hne (hinj hlm hl (hc.trans hlc.symm))⟩
      · rintro ⟨⟨l, hlm, rfl⟩, hne⟩
        exact ⟨l, ⟨hlm, fun heq => hne (by rw [heq, hlc])⟩, rfl⟩

/-! ### What each call does -/

theorem Safe.map {α β : Type*} {P : α → Prop} {Q : β → Prop} {r : Except Fault α} {f : α → β}
    (h : Safe P r) (hf : ∀ x, P x → Q (f x)) : Safe Q (r.map f) := by
  cases r with
  | error fault => exact h
  | ok x => exact hf x h

abbrev SafeCall (r : Outcome κ) : Prop := Safe (fun done => PoolInv done.1) r

theorem safe_unlinkedPoolDelAndFree (h : PoolInv s) {nonce : Nonce} {unlinked : UnlinkedSet}
    (hu : s.unlinkedPool nonce = some unlinked) (hlegs : unlinked.legs.length = 0) :
    Safe PoolInv (unlinkedPoolDelAndFree s unlinked) := by
  obtain ⟨cfx, hobj, rfl⟩ := h.unlinkedKey nonce unlinked hu
  have hwait : unlinked.waiting = [] := by
    simp [UnlinkedSet.waiting, List.length_eq_zero_iff.mp hlegs]
  have hdel := h.delUnlinked hu hwait
  simp only [unlinkedPoolDelAndFree, hobj]
  cases hfor : unlinked.isForLinkedSet with
  | true => exact hdel
  | false =>
    simp only [confluxFree, hobj, Bool.false_eq_true, if_false]
    refine hdel.freeObj ?_ ?_ ?_
    · intro c hc
      rw [(h.forLinked _ unlinked c _ cfx hu hc hobj rfl).2] at hfor
      exact absurd hfor (by simp)
    · intro n hn
      obtain ⟨q, hq, rfl⟩ := h.linkedKey n _ hn
      obtain rfl : cfx = q := Option.some.inj (hobj.symm.trans hq)
      exact absurd (hn.symm.trans (h.unlinkedOnly _ unlinked hu hfor)) (by simp)
    · intro n v hv hcfx
      have hne : n ≠ cfx.nonce := by
        rintro rfl
        simp at hv
      obtain ⟨q, hq, rfl⟩ := h.unlinkedKey n v (by simpa [hne] using hv)
      rw [hcfx] at hq
      obtain rfl : cfx = q := Option.some.inj (hobj.symm.trans hq)
      exact hne rfl

theorem safe_unlinkedCircuitClosed (h : PoolInv s) {nonce : Nonce} (hlive : s.live circ = true)
    (hpend : s.confluxPendingNonce circ = some nonce) :
    SafeCall (unlinkedCircuitClosed p
      { s with markedForClose := Function.update s.markedForClose circ true } circ nonce) := by
  obtain ⟨-, unlinked, hu, hwait⟩ := h.pendingLeg circ nonce hpend
  have hconflux : s.conflux circ = none := by
    by_contra hne
    obtain ⟨i, hi⟩ := Option.ne_none_iff_exists'.mp hne
    exact absurd (hpend.symm.trans (h.held circ i hi).1) (by simp)
  have hany : unlinked.legs.any (·.isOf circ) = true := by
    obtain ⟨leg, hleg, hof⟩ := UnlinkedSet.mem_waiting.mp hwait
    exact List.any_eq_true.mpr ⟨leg, hleg, hof⟩
  -- the leg and the nonce go, and then the circuit is no one's
  have hrest := (h.dropWaiting ⟨_, _, unlinked.legs.eraseP (·.isOf circ)⟩ hu rfl
    (waiting_eraseP _ _ _ _) rfl hpend).mark hlive hconflux (by simp)
  simp only [unlinkedCircuitClosed, hu, hany, if_true]
  split_ifs with hlen
  · exact (safe_unlinkedPoolDelAndFree hrest (Function.update_self nonce _ _) hlen).map fun _ hs => hs
  · exact hrest
  · exact hrest

theorem safe_linkedCircuitClosed (h : PoolInv s) {i : CfxRef} (hlive : s.live circ = true)
    (hmark : s.markedForClose circ = false) (hc : s.conflux circ = some i) :
    SafeCall (linkedCircuitClosed ccontrol
      { s with markedForClose := Function.update s.markedForClose circ true } circ i) := by
  obtain ⟨hpend, cfx, hobj, hcase⟩ := h.held circ i hc
  obtain ⟨hmem, -, -⟩ | ⟨-, -, hmarked, -⟩ := hcase
  swap
  · rw [hmark] at hmarked
    exact absurd hmarked (by simp)
  obtain ⟨hnonce, hnodup, hcircs⟩ := circs_cfxDelLeg ccontrol circ (h.legs i cfx hobj).1
  simp only [linkedCircuitClosed, hobj]
  generalize cfxDelLeg ccontrol cfx circ = removed at hnonce hnodup hcircs
  obtain ⟨cfx', fullTeardown⟩ := removed
  by_cases hlen : cfx'.legs.length = 0
  · have hempty : cfx'.circs = [] := List.map_eq_nil_iff.mpr (List.length_eq_zero_iff.mp hlen)
    have hlast := h.last hc hobj hmem hnonce hcircs hempty
    rw [← hnonce] at hlast
    simp only [hlen, if_true]
    exact hlast
  · have hdrop := (h.drop hc hobj hnonce hnodup hcircs).mark hlive (by simp) hpend
    simp only [hlen, if_false]
    exact hdrop

theorem safe_circuitMarkForClose (h : PoolInv s) : SafeCall (circuitMarkForClose p ccontrol s circ) := by
  unfold circuitMarkForClose
  split_ifs with hdone
  · exact h
  · simp only [Bool.or_eq_true, Bool.not_eq_true', not_or, Bool.not_eq_true, Bool.not_eq_false] at hdone
    obtain ⟨hmark, hlive⟩ := hdone
    dsimp only
    cases hpend : s.confluxPendingNonce circ with
    | some nonce => exact safe_unlinkedCircuitClosed h hlive hpend
    | none =>
      cases hc : s.conflux circ with
      | some i => exact safe_linkedCircuitClosed h hlive hmark hc
      | none => exact h.mark hlive hc hpend

theorem safe_markAllForClose (h : PoolInv s) (nonce : Nonce) : SafeCall (markAllForClose s nonce) := by
  unfold markAllForClose
  cases hu : s.unlinkedPool nonce with
  | none => exact h
  | some unlinked =>
    dsimp only
    split_ifs with hlen
    · exact h
    · exact (safe_unlinkedPoolDelAndFree h hu (by omega)).map fun _ hs => hs

theorem safe_markLinkedForClose (h : PoolInv s) (nonce : Nonce) :
    SafeCall (markLinkedForClose s nonce) := by
  unfold markLinkedForClose
  cases hl : s.linkedPool nonce with
  | none => exact h
  | some i =>
    obtain ⟨linked, hobj, -⟩ := h.linkedKey nonce i hl
    simp only [hobj]
    split_ifs
    · exact h
    · exact h.touch _ hobj rfl rfl

theorem safe_launchLegInPools (h : PoolInv s) {nonce : Nonce}
    (hclosing : s.unlinkedPool nonce = none → ¬ NonceClosing s nonce) :
    SafeCall (launchLegInPools p s true nonce) := by
  unfold launchLegInPools
  generalize hget : unlinkedGetOrCreate s nonce = got
  obtain ⟨s', unlinked⟩ := got
  obtain ⟨h', hu, -⟩ := h.getOrCreate hclosing hget
  obtain ⟨cfx, hobj, -⟩ := h'.unlinkedKey nonce unlinked hu
  obtain ⟨hconflux, hpend, hmark⟩ := h'.dead s'.nextCirc (h'.fresh _ le_rfl)
  have hconflux' : Function.update s'.conflux s'.nextCirc none = s'.conflux :=
    Function.update_eq_self_iff.mpr hconflux.symm
  have hmark' : Function.update s'.markedForClose s'.nextCirc false = s'.markedForClose :=
    Function.update_eq_self_iff.mpr (hmark le_rfl).symm
  simp only [hobj, hconflux', hmark', Bool.not_true, Bool.false_eq_true, if_false]
  split_ifs with hmax
  · exact h'
  · have hbirth := (h'.touch { cfx with numLegLaunch := cfx.numLegLaunch + 1 } hobj rfl rfl).birth
    exact hbirth.addWaiting ⟨_, _, _⟩ hu rfl (waiting_append _ _ _ rfl) rfl (Function.update_self ..)
      hconflux hpend (hmark le_rfl)

theorem delCurrentOrder_perm {α : Type*} (l : List α) : (delCurrentOrder l).Perm l := by
  cases l with
  | nil => exact .nil
  | cons x xs => exact (List.reverse_perm xs).cons x

theorem waiting_eq_map {unlinked : UnlinkedSet} (h : unlinked.legs.any (·.circFreed) = false) :
    unlinked.waiting = unlinked.legs.map fun leg => leg.circ := by
  have hall : ∀ leg ∈ unlinked.legs, (!leg.circFreed) = true := by
    intro leg hleg
    simpa using List.any_eq_false.mp h leg hleg
  rw [UnlinkedSet.waiting, List.filter_eq_self.mpr hall]

theorem safe_tryFinalizeInPools (h : PoolInv s) {nonce : Nonce} {unlinked : UnlinkedSet}
    (hu : s.unlinkedPool nonce = some unlinked)
    (hclosing : (∀ leg ∈ unlinked.legs, leg.linked = true) → ¬ NonceClosing s nonce) :
    Safe (fun done => PoolInv done.1.1) (tryFinalizeInPools p s unlinked) := by
  obtain ⟨cfx, hobj, -⟩ := h.unlinkedKey nonce unlinked hu
  simp only [tryFinalizeInPools, hobj]
  split
  · exact h
  · exact h
  · split_ifs with hfreed
    · exact ⟨by simp, by simp⟩
    · split
      · exact ⟨by simp, by simp⟩
      · exact h
      · rename_i cfx' hfin
        obtain ⟨-, hcfx⟩ := tryFinalizeSet_eq_linked hfin
        have hlinked : ∀ leg ∈ unlinked.legs, leg.linked = true := fun leg hleg =>
          linked_of_tryFinalizeSet hfin _ (List.mem_map_of_mem hleg)
        rw [Bool.not_eq_true] at hfreed
        refine h.complete ((delCurrentOrder (unlinked.legs.map PoolLeg.toLeg)).map Leg.circ) hu hobj
          (hclosing hlinked) (by rw [hcfx]) ?_ ?_
        · rw [hcfx, Conflux.circs, List.map_append, List.map_map]
          rfl
        · rw [waiting_eq_map hfreed]
          have hperm := (delCurrentOrder_perm (unlinked.legs.map PoolLeg.toLeg)).map Leg.circ
          rwa [List.map_map] at hperm
      · exact h

theorem acceptsLink_eq_some {cell : CellArrival} {link : ConfluxCellLink}
    (h : acceptsLink p s circ cell = some link) :
    s.confluxPendingNonce circ = none ∧ s.conflux circ = none := by
  unfold acceptsLink at h
  split_ifs at h with h1 h2
  simpa using h2

theorem safe_processLinkInPools (h : PoolInv s) {cell : CellArrival} (hopen : s.open circ = true)
    (hclosing : ∀ link, acceptsLink p s circ cell = some link → ¬ NonceClosing s link.nonce) :
    SafeCall (processLinkInPools p s circ cell) := by
  simp only [Pools.open, Bool.and_eq_true, Bool.not_eq_true'] at hopen
  unfold processLinkInPools
  cases haccept : acceptsLink p s circ cell with
  | none => exact h
  | some link =>
    have hclosing := hclosing link haccept
    obtain ⟨hpend, hconflux⟩ := acceptsLink_eq_some haccept
    dsimp only
    generalize hget : unlinkedGetOrCreate s link.nonce = got
    obtain ⟨s', unlinked⟩ := got
    obtain ⟨h', hu, hlive, -, hc, hp, hm, hcl⟩ := h.getOrCreate (fun _ => hclosing) hget
    have hadd := h'.addWaiting ⟨_, _, unlinked.legs ++ [{
        circ := circ
        link := link
        linked := true
        linkSentUsec := cell.now
        rttUsec := 0
        circFreed := false }]⟩ hu rfl (waiting_append _ _ _ rfl) rfl (hlive ▸ hopen.1)
      (hc ▸ hconflux) (hp ▸ hpend) (hm ▸ hopen.2)
    refine (safe_tryFinalizeInPools hadd (Function.update_self link.nonce _ _) ?_).map ?_
    · exact fun _ hcl' => hclosing (hcl hcl')
    · rintro ⟨⟨s'', tasks⟩, err⟩ hs
      cases err <;> exact hs

theorem safe_processLinkedInPools (h : PoolInv s) {cell : CellArrival}
    (hclosing : ∀ link nonce, acceptsLinked p s circ cell = some (link, nonce) →
      Completes s circ nonce → ¬ NonceClosing s nonce) :
    SafeCall (processLinkedInPools p s circ cell) := by
  unfold processLinkedInPools
  cases haccept : acceptsLinked p s circ cell with
  | none => exact h
  | some accepted =>
    obtain ⟨link, nonce⟩ := accepted
    have hclosing := hclosing link nonce haccept
    dsimp only
    cases hu : s.unlinkedPool nonce with
    | none => exact h
    | some unlinked =>
      dsimp only
      cases hleg : unlinked.legs.find? (·.isOf circ) with
      | none => exact h
      | some leg =>
        dsimp only
        have htouch := h.touchUnlinked ⟨_, _, unlinked.legs.map fun leg' =>
            if leg'.isOf circ then
              { leg' with
                link := link
                rttUsec := recordRttClient cell.now leg'.toLeg
                linked := leg'.linked ||
                  recordRtt cell.now p.circuitBuildTimeoutUsec leg.toLeg }
            else leg'⟩ hu rfl
          (waiting_map _ _ _ fun leg' => by split_ifs <;> exact ⟨rfl, rfl⟩) (.inl rfl)
        split_ifs with hrtt
        · exact htouch
        · refine (safe_tryFinalizeInPools htouch (Function.update_self nonce _ _) ?_).map ?_
          · intro hlinked
            refine hclosing ?_
            intro v hv leg' hmem hof
            obtain rfl : unlinked = v := Option.some.inj (hu.symm.trans hv)
            simpa [hof] using hlinked _ (List.mem_map_of_mem hmem)
          · rintro ⟨⟨s'', tasks⟩, err⟩ hs
            cases err <;> exact hs

theorem safe_confluxCircuitHasOpened (h : PoolInv s) {confluxIsEnabled sent : Bool} {now : ℕ} :
    SafeCall (confluxCircuitHasOpened s circ confluxIsEnabled sent now) := by
  unfold confluxCircuitHasOpened
  cases s.confluxPendingNonce circ with
  | none =>
    dsimp only
    split_ifs <;> exact h
  | some nonce =>
    dsimp only
    cases hu : s.unlinkedPool nonce with
    | none =>
      dsimp only
      split_ifs <;> exact h
    | some unlinked =>
      dsimp only
      split_ifs
      · exact h
      · exact h
      · exact h
      · refine h.touchUnlinked ⟨_, _, unlinked.legs.map fun leg =>
            if leg.isOf circ then { leg with linkSentUsec := now } else leg⟩ hu rfl
          (waiting_map _ _ _ fun leg => ?_) (.inl rfl)
        split_ifs <;> exact ⟨rfl, rfl⟩

theorem safe_processLinkedAckInPools (h : PoolInv s) {cell : CellArrival} :
    SafeCall (processLinkedAckInPools p s circ cell) := by
  unfold processLinkedAckInPools
  split_ifs
  · exact h
  · cases hc : s.conflux circ with
    | none => exact h
    | some i =>
      obtain ⟨-, cfx, hobj, -⟩ := h.held circ i hc
      simp only [hobj]
      refine h.touch _ hobj rfl ?_
      simp only [Conflux.circs, Conflux.updateLeg, List.map_map]
      refine List.map_congr_left fun leg _ => ?_
      simp only [Function.comp_apply]
      split_ifs <;> rfl

/-- A circuit that is freed was a leg among others, or the last to refer to its object: then the
object goes to the unlinked set that is there for it, or is freed. -/
theorem safe_linkedCircuitFree (h : PoolInv s) {i : CfxRef} (hlive : s.live circ = true)
    (hc : s.conflux circ = some i) :
    Safe (fun s' : Pools κ => PoolInv { s' with
      live := Function.update s'.live circ false
      conflux := Function.update s'.conflux circ none
      confluxPendingNonce := Function.update s'.confluxPendingNonce circ none })
      (linkedCircuitFree ccontrol s circ i) := by
  obtain ⟨hpend, cfx, hobj, hcase⟩ := h.held circ i hc
  obtain ⟨hnonce, hnodup, hcircs⟩ := circs_cfxDelLeg ccontrol circ (h.legs i cfx hobj).1
  simp only [linkedCircuitFree, hobj]
  generalize cfxDelLeg ccontrol cfx circ = removed at hnonce hnodup hcircs
  obtain ⟨removed, fullTeardown⟩ := removed
  dsimp only at hnonce hnodup hcircs ⊢
  set cfx' : Conflux κ := { removed with inFullTeardown := removed.inFullTeardown || fullTeardown }
    with hcfx'
  have hnonce' : cfx'.nonce = cfx.nonce := hnonce
  have hdrop := h.drop hc hobj hnonce' hnodup hcircs
  split_ifs with hlen
  · have hkill := hdrop.kill hlive (by simp) hpend
    simp only [Function.update_idem] at hkill
    exact hkill
  · have hempty : ∀ c, c ∉ removed.circs := by
      have hnil : removed.legs = [] := List.length_eq_zero_iff.mp (by omega)
      simp [Conflux.circs, hnil]
    -- nobody else refers to the object
    have halone : ∀ c, s.conflux c = some i → c = circ := by
      intro c hci
      by_contra hne
      obtain ⟨-, o, ho, hcase'⟩ := h.held c i hci
      obtain rfl : cfx = o := Option.some.inj (hobj.symm.trans ho)
      rcases hcase' with ⟨hm, -, -⟩ | ⟨-, -, -, huniq⟩
      · exact hempty c ((hcircs c).mpr ⟨hm, hne⟩)
      · exact hne (huniq circ hc).symm
    have hheld : ∀ c, Function.update s.conflux circ none c ≠ some i := by
      intro c hci
      by_cases hcc : c = circ
      · subst hcc
        simp at hci
      · exact hcc (halone c (by simpa [hcc] using hci))
    have hunheld : Unheld { s with
        objs := Function.update s.objs i (some cfx')
        conflux := Function.update s.conflux circ none } cfx'.nonce := by
      intro c j o hcj ho hn
      have hcc : c ≠ circ := by
        rintro rfl
        simp at hcj
      have hheldj : s.conflux c = some j := by simpa [hcc] using hcj
      obtain ⟨q, hq, hqn⟩ := exists_of_update_obj hobj hnonce' ho
      have hji : j = i := h.sameNonce c circ j i q cfx hheldj hc hq hobj (by rw [hqn, hn, hnonce'])
      exact hcc (halone c (hji ▸ hheldj))
    have hunlink := hdrop.unlink hunheld
    have hnone : Function.update s.linkedPool cfx'.nonce none cfx'.nonce = none := Function.update_self ..
    cases hu : s.unlinkedPool removed.nonce with
    | none =>
      simp only [confluxFree, Function.update_self, Function.update_idem]
      have hfree := hunlink.freeObj hheld ?_ ?_
      · have hkill := hfree.kill hlive (by simp) hpend
        simp only [Function.update_idem] at hkill
        exact hkill
      · intro n hn
        obtain ⟨o, ho, rfl⟩ := hunlink.linkedKey n i hn
        obtain rfl := eq_of_update_self ho
        exact absurd (hn.symm.trans hnone) (by simp)
      · rintro n v hv rfl
        obtain ⟨o, ho, rfl⟩ := hunlink.unlinkedKey n v hv
        obtain rfl := eq_of_update_self ho
        exact absurd (hv.symm.trans hu) (by simp)
    | some unlinked =>
      have hfor := (h.forLinked _ unlinked circ i cfx hu hc hobj hnonce.symm).2
      simp only [hfor, Bool.not_true, Bool.false_eq_true, if_false]
      have htouch := hunlink.touchUnlinked { unlinked with isForLinkedSet := false } hu rfl rfl
        (.inr ⟨hunheld, hnone⟩)
      have hkill := htouch.kill hlive (by simp) hpend
      simp only [Function.update_idem] at hkill
      exact hkill

theorem safe_confluxCircuitAboutToFree (h : PoolInv s) (hlive : s.live circ = true) :
    Safe PoolInv (confluxCircuitAboutToFree ccontrol s circ) := by
  unfold confluxCircuitAboutToFree
  cases hc : s.conflux circ with
  | some i => exact (safe_linkedCircuitFree h hlive hc).map fun _ hs => hs
  | none =>
    cases hpend : s.confluxPendingNonce circ with
    | none => exact h.kill hlive hc hpend
    | some nonce =>
      obtain ⟨-, unlinked, hu, -⟩ := h.pendingLeg circ nonce hpend
      have hnodup := (h.waiting nonce unlinked hu).1
      have hfreed := waiting_freed unlinked.isForLinkedSet unlinked.cfx unlinked.legs circ
      have hdrop := h.dropWaiting { unlinked with
        legs := unlinked.legs.map fun leg => if leg.isOf circ then { leg with circFreed := true } else leg }
        hu rfl (hfreed.trans (hnodup.erase_eq_filter circ).symm) rfl hpend
      have hkill := hdrop.kill hlive hc (by simp)
      simp only [Function.update_idem] at hkill
      simp only [unlinkedCircuitFree, hu]
      exact hkill

theorem safe_runTask (h : PoolInv s) {established : Bool} {task : Task}
    (hlaunch : ∀ nonce, task = .confluxLaunchLeg nonce →
      established = true ∧ (s.unlinkedPool nonce = none → ¬ NonceClosing s nonce)) :
    SafeCall (runTask p ccontrol s established task) := by
  cases task with
  | circuitMarkForClose circ =>
    cases circ with
    | none => exact ⟨by simp, by simp⟩
    | some circ => exact safe_circuitMarkForClose h
  | markAllForClose nonce => exact safe_markAllForClose h nonce
  | markLinkedForClose nonce => exact safe_markLinkedForClose h nonce
  | confluxLaunchLeg nonce =>
    obtain ⟨rfl, hclosing⟩ := hlaunch nonce rfl
    exact safe_launchLegInPools h hclosing

theorem safe_occur (h : PoolInv s) {a : Action κ} (hok : NonceUnused p ⟨s, []⟩ a) :
    SafeCall (occur p s a) := by
  cases a with
  | work ccontrol established => exact h
  | newCircuit => exact h.birth
  | launch nonce => exact h
  | opened circ confluxIsEnabled sent now =>
    simp only [occur]
    split_ifs
    · exact safe_confluxCircuitHasOpened h
    · exact h
  | link circ cell =>
    simp only [occur]
    split_ifs with hopen
    · exact safe_processLinkInPools h hopen hok
    · exact h
  | linked circ cell =>
    simp only [occur]
    split_ifs
    · exact safe_processLinkedInPools h hok
    · exact h
  | linkedAck circ cell =>
    simp only [occur]
    split_ifs
    · exact safe_processLinkedAckInPools h
    · exact h
  | close circ => exact h
  | free circ ccontrol =>
    simp only [occur]
    split_ifs with hlive
    · exact (safe_confluxCircuitAboutToFree h hlive).map fun _ hs => hs
    · exact h
  | shutdown => exact ⟨h.unborn, h.fresh, h.dead, h.linkedKey, h.unlinkedKey, h.held, h.legs,
      h.sameNonce, h.forLinked, h.unlinkedOnly, h.pendingLeg, h.waiting⟩
  | traffic i cfx' =>
    simp only [occur]
    cases hobj : s.objs i with
    | none => exact h
    | some cfx =>
      dsimp only
      split_ifs with hkeep
      · exact h.touch cfx' hobj hkeep.1 hkeep.2
      · exact h

theorem safe_poolStep {m : Machine κ} {a : Action κ} (h : PoolInv m.pools) (hok : NonceUnused p m a) :
    Safe (fun m' => PoolInv m'.pools) (poolStep p m a) := by
  obtain ⟨s, agenda⟩ := m
  cases agenda with
  | nil => exact (safe_occur h hok).map fun _ hs => hs
  | cons task rest =>
    cases a with
    | work ccontrol established =>
      refine (safe_runTask h ?_).map fun _ hs => hs
      rintro nonce rfl
      exact hok
    | _ => exact h

theorem poolInv_init : PoolInv (poolInit κ).pools := by
  constructor <;> simp [poolInit]

theorem PoolInv.consistent (h : PoolInv s) : Consistent s := by
  constructor
  · intro c i _ hmark hc
    obtain ⟨-, cfx, hobj, hcase⟩ := h.held c i hc
    rcases hcase with ⟨hmem, hl, -⟩ | ⟨-, -, hmarked, -⟩
    · exact ⟨cfx, hobj, hl, hmem⟩
    · rw [hmark] at hmarked
      exact absurd hmarked (by simp)
  · intro c n hc
    exact (h.pendingLeg c n hc).2
  · intro c i hc
    obtain ⟨-, cfx, hobj, -⟩ := h.held c i hc
    simp [hobj]
  · intro n unlinked hu
    obtain ⟨cfx, hobj, -⟩ := h.unlinkedKey n unlinked hu
    simp [hobj]

/-- In every run in which no set is started or completed under the nonce of a set that is closing,
and no launch fails, the pools are consistent at all times, no object is used or freed again after
it is freed, and the assertion in `linked_circuit_free` holds. -/
theorem pools_consistent {m : Machine κ} (hr : Reached (poolSystem p κ) (NonceUnused p) m) :
    Consistent m.pools ∧ ∀ a, NonceUnused p m a → ∀ fault, poolStep p m a = .error fault →
      fault ≠ .useAfterFree ∧ fault ≠ .notForLinkedSet := by
  have hinv : PoolInv m.pools := by
    refine hr.invariant (P := fun m => PoolInv m.pools) ⟨?_, ?_⟩
    · rintro m rfl
      exact poolInv_init
    · intro m a m' h hok hstep
      have hsafe := safe_poolStep h hok
      rw [hstep] at hsafe
      exact hsafe
  refine ⟨hinv.consistent, fun a hok fault hfault => ?_⟩
  have hsafe := safe_poolStep hinv hok
  rw [hfault] at hsafe
  exact hsafe

/-! ### A nonce used again -/

def poolSide (isClient : Bool) : PoolParams where
  isClient := isClient
  maxLegsSet := 8
  maxNumLaunch := 10
  circuitBuildTimeoutUsec := 60000000
  clientUx := 1

def linkArrival : CellArrival where
  confluxIsEnabled := true
  sourceHop := true
  link := some (freshLink 7 0)
  now := 1

def exitCcontrol : CongestionControl := congestionControlNew (fun _ => none) ⟨true, 31⟩ .exit

def poolRun (isClient : Bool) (actions : List (Action Unit)) : Option (Machine Unit) :=
  actions.foldlM (fun m a => (poolStep (poolSide isClient) m a).toOption) (poolInit Unit)

theorem reached_poolRun {isClient : Bool} {actions : List (Action Unit)} {m : Machine Unit}
    (h : poolRun isClient actions = some m) :
    Reached (poolSystem (poolSide isClient) Unit) (fun _ _ => True) m := by
  refine Reached.foldlM (fun m a m' hstep => ?_) actions (.init rfl) h
  show poolStep (poolSide isClient) m a = .ok m'
  cases hresult : poolStep (poolSide isClient) m a with
  | error fault =>
    rw [hresult] at hstep
    exact absurd hstep (by simp [Except.toOption])
  | ok done =>
    rw [hresult] at hstep
    exact congrArg _ (Option.some.inj hstep)

/-- A circuit links to a relay and is a leg of the set in the pool. -/
theorem first_leg_consistent :
    ∃ m, poolRun false [.newCircuit, .link 0 linkArrival] = some m ∧ Consistent m.pools := by
  have hnew : Reached (poolSystem (poolSide false) Unit) (NonceUnused (poolSide false)) _ :=
    .step (a := Action.newCircuit) (.init rfl) trivial rfl
  refine ⟨_, rfl, (pools_consistent (.step (a := Action.link 0 linkArrival) hnew ?_ rfl)).1⟩
  rintro link - ⟨c, i, cfx, hc, -⟩
  exact absurd hc (by simp [poolInit])

/-- A circuit links, closes, and is freed after another has linked with its nonce. -/
def reusedNonce : List (Action Unit) :=
  [.newCircuit, .newCircuit, .link 0 linkArrival, .close 0, .work exitCcontrol true,
    .link 1 linkArrival, .free 0 exitCcontrol]

/-- The set of the second circuit is then no longer in the pool. -/
theorem reused_nonce_lost :
    ∃ m, Reached (poolSystem (poolSide false) Unit) (fun _ _ => True) m ∧ ¬ Consistent m.pools := by
  have hrun : ∃ m, poolRun false reusedNonce = some m ∧ m.pools.live 1 = true ∧
      m.pools.markedForClose 1 = false ∧ m.pools.conflux 1 = some 1 ∧
      (m.pools.objs 1).map Conflux.nonce = some (freshLink 7 0).nonce ∧
      m.pools.linkedPool (freshLink 7 0).nonce = none := ⟨_, rfl, rfl, rfl, rfl, rfl, rfl⟩
  obtain ⟨m, hm, hlive, hmark, hconflux, hnonce, hpool⟩ := hrun
  refine ⟨m, reached_poolRun hm, fun h => ?_⟩
  obtain ⟨cfx, hobj, hlinked, -⟩ := h.linked 1 1 hlive hmark hconflux
  rw [hobj] at hnonce
  rw [Option.some.inj hnonce, hpool] at hlinked
  exact absurd hlinked (by simp)

end Conflux
