/-
Conflux sets and how cells are sent on them and put in order
(`core/or/conflux.c`, `core/or/conflux_st.h`).

A set joins several circuits, its legs.  The sender writes each cell on one leg
and announces a change of leg by a SWITCH cell, which carries how far the new leg
is behind.  The receiver counts on each leg, delivers the next cell at once and
keeps a later one in the out-of-order queue.

An assertion of the source that fails is `none`.  A leg is named by its circuit.
-/
import LibEltor.CongestionControl
import Mathlib.Data.List.Sort

open Word CongestionControl

namespace Conflux

abbrev Circ := ℕ

abbrev digest256Len : ℕ := 32

abbrev Nonce := Fin digest256Len → UInt8

abbrev uint32Max : ℕ := 2 ^ 32 - 1
abbrev uint64Max : ℕ := 2 ^ 64 - 1

inductive RelayCommand
  | begin | data | «end» | connected | sendme | extend | extended | truncate | truncated | drop
  | resolve | resolved | beginDir | extend2 | extended2
  | confluxLink | confluxLinked | confluxLinkedAck | confluxSwitch
  | establishIntro | establishRendezvous | introduce1 | introduce2 | rendezvous1 | rendezvous2
  | introEstablished | rendezvousEstablished | introduceAck
  | paddingNegotiate | paddingNegotiated | xoff | xon
  | unknown (command : UInt8)
  deriving DecidableEq

def confluxShouldMultiplex : RelayCommand → Bool
  | .begin | .data | .end | .connected => true
  | .resolve | .resolved => true
  | .xoff | .xon => true
  | _ => false

/-! ### Sets and their legs -/

inductive ConfluxAlg
  | minrtt | lowrtt | cwndrtt
  deriving DecidableEq

structure ConfluxLeg where
  lastSeqRecv : ℕ
  lastSeqSent : ℕ
  circRttsUsec : ℕ
  linkedSentUsec : ℕ
  circ : Circ
  deriving DecidableEq

structure ConfluxCell (κ : Type) where
  seq : ℕ
  cell : κ
  deriving DecidableEq

structure Conflux (κ : Type) where
  alg : ConfluxAlg
  legs : List ConfluxLeg
  oooQ : List (ConfluxCell κ)
  lastSeqDelivered : ℕ
  cellsUntilSwitch : ℕ
  currLeg : Option Circ
  prevLeg : Option Circ
  nonce : Nonce
  inFullTeardown : Bool
  numLegLaunch : ℕ

/-- `conflux_new`, with the nonce `unlinked_new` copies into it. -/
def confluxNew (κ : Type) (nonce : Nonce) : Conflux κ where
  alg := .minrtt
  legs := []
  oooQ := []
  lastSeqDelivered := 0
  cellsUntilSwitch := 0
  currLeg := none
  prevLeg := none
  nonce := nonce
  inFullTeardown := false
  numLegLaunch := 0

structure Circuit where
  isOrigin : Bool
  circuitBlockedOnNChan : Bool
  circuitBlockedOnPChan : Bool
  ccontrol : CongestionControl

variable {κ : Type} {cfx : Conflux κ} {circ : Circ}

def confluxGetLeg (cfx : Conflux κ) (circ : Circ) : Option ConfluxLeg :=
  cfx.legs.find? (·.circ = circ)

def confluxGetMaxSeqSent (cfx : Conflux κ) : ℕ :=
  cfx.legs.foldl (fun maxSeqSent leg =>
    if leg.lastSeqSent > maxSeqSent then leg.lastSeqSent else maxSeqSent) 0

def confluxGetMaxSeqRecv (cfx : Conflux κ) : ℕ :=
  cfx.legs.foldl (fun maxSeqRecv leg =>
    if leg.lastSeqRecv > maxSeqRecv then leg.lastSeqRecv else maxSeqRecv) 0

def Conflux.updateLeg (cfx : Conflux κ) (circ : Circ) (f : ConfluxLeg → ConfluxLeg) : Conflux κ :=
  { cfx with legs := cfx.legs.map fun leg => if leg.circ = circ then f leg else leg }

/-! ### The choice of a leg -/

def circuitReadyToSend (circ : Circuit) : Bool :=
  let ccSendable := !decide (circ.ccontrol.inflight ≥ circ.ccontrol.cwnd)
  if circ.isOrigin then ccSendable && !circ.circuitBlockedOnNChan
  else ccSendable && !circ.circuitBlockedOnPChan

/-- The legs in turn: the one of lowest round trip among those of a round trip, and `none` where
none is below the bound. -/
def lowestRtt (legs : List ConfluxLeg) : Option ConfluxLeg × ℕ :=
  legs.foldl (fun acc leg =>
    if leg.circRttsUsec ≠ 0 ∧ leg.circRttsUsec < acc.2 then (some leg, leg.circRttsUsec) else acc)
    (none, uint64Max)

def confluxDecideCircMinrtt (circs : Circ → Circuit) (cfx : Conflux κ) : Option (Option Circ) :=
  if cfx.legs.length = 0 then none
  else
    match (lowestRtt cfx.legs).1 with
    | none => some none
    | some leg => if circuitReadyToSend (circs leg.circ) then some (some leg.circ) else some none

def confluxDecideCircLowrtt (circs : Circ → Circuit) (cfx : Conflux κ) : Option (Option Circ) :=
  if cfx.legs.length = 0 then none
  else some ((lowestRtt (cfx.legs.filter fun leg => circuitReadyToSend (circs leg.circ))).1.map
    (·.circ))

def cwndAvailable (onCirc : Circuit) : ℕ :=
  if onCirc.ccontrol.cwnd < onCirc.ccontrol.inflight then 0
  else onCirc.ccontrol.cwnd - onCirc.ccontrol.inflight

def cwndSendable (onCirc : Circuit) (inUsec ourUsec : ℕ) : ℕ :=
  let cwndAdjusted := cwndAvailable onCirc
  if ourUsec = 0 ∨ inUsec = 0 then cwndAdjusted
  else if onCirc.ccontrol.inSlowStart then cwndAdjusted
  else
    let sendable := u64 (cwndAdjusted * inUsec) / ourUsec
    min onCirc.ccontrol.cwnd sendable

/-- `conflux_decide_circ_cwndrtt`: the assertion is that there are no legs. -/
def confluxDecideCircCwndrtt (circs : Circ → Circuit) (cfx : Conflux κ) : Option (Option Circ) :=
  if cfx.legs.length ≠ 0 then none
  else
    let (leg, minRtt) := lowestRtt cfx.legs
    match leg with
    | some leg =>
      if circuitReadyToSend (circs leg.circ) then some (some leg.circ) else secondary minRtt
    | none => secondary minRtt
where
  /-- The last leg that is ready and has room, and a round trip. -/
  secondary (minRtt : ℕ) : Option (Option Circ) :=
    let leg := cfx.legs.foldl (fun found l =>
      if circuitReadyToSend (circs l.circ) ∧ l.circRttsUsec ≠ 0 ∧
          cwndSendable (circs l.circ) minRtt l.circRttsUsec > 0 then some l
      else found) none
    match leg with
    | none => some none
    | some leg => if circuitReadyToSend (circs leg.circ) then some (some leg.circ) else some none

def confluxCanSwitch (drainPct : ℕ) (circs : Circ → Circuit) (cfx : Conflux κ) : Bool :=
  if cfx.cellsUntilSwitch > 0 then
    match cfx.prevLeg with
    | none => false
    | some prevLeg =>
      let ccontrol := (circs prevLeg).ccontrol
      decide (ccontrol.inflight < ccontrol.sendmeInc) ||
        decide (u64 (100 * ccontrol.inflight) ≤ u64 (drainPct * ccontrol.cwnd))
  else true

/-- The leg of lowest round trip that `conflux_pick_first_leg` finds; the first of them where
several are equal. -/
def firstLeg (legs : List ConfluxLeg) : Option ConfluxLeg :=
  legs.foldl (fun minLeg leg =>
    if leg.circRttsUsec > 0 ∧ minLeg.all (fun m => leg.circRttsUsec < m.circRttsUsec) then some leg
    else minLeg) none

/-- `conflux_pick_first_leg`: `none` where it answers false. -/
def confluxPickFirstLeg (cfx : Conflux κ) : Option (Conflux κ) :=
  match (firstLeg cfx.legs).or cfx.legs.head? with
  | none => none
  | some minLeg => some { cfx with cellsUntilSwitch := 0, currLeg := some minLeg.circ }

def confluxDecideNextCirc (drainPct : ℕ) (circs : Circ → Circuit) (cfx : Conflux κ) :
    Option (Conflux κ × Option Circ) :=
  if cfx.inFullTeardown then some (cfx, none)
  else
    match (if cfx.currLeg.isNone then confluxPickFirstLeg cfx else some cfx) with
    | none => some (cfx, none)
    | some cfx =>
      if !confluxCanSwitch drainPct circs cfx then
        match cfx.currLeg with
        | none => none
        | some currCirc =>
          some (cfx, if circuitReadyToSend (circs currCirc) then some currCirc else none)
      else
        match cfx.alg with
        | .minrtt => (confluxDecideCircMinrtt circs cfx).map (cfx, ·)
        | .lowrtt => (confluxDecideCircLowrtt circs cfx).map (cfx, ·)
        | .cwndrtt => (confluxDecideCircCwndrtt circs cfx).map (cfx, ·)

/-- What `conflux_decide_circ_for_send` leaves: the set, the circuit to send on, and the SWITCH cell
that goes out on it first. -/
structure SendDecision (κ : Type) where
  cfx : Conflux κ
  circ : Option Circ
  switchCell : Option ℕ

/-- `conflux_send_switch_command`, up to its assertion: the number the cell carries. -/
def confluxSendSwitchCommand (relativeSeq : ℕ) : Option ℕ :=
  if relativeSeq < uint32Max then some relativeSeq else none

def confluxDecideCircForSend (drainPct : ℕ) (circs : Circ → Circuit) (cfx : Conflux κ)
    (origCirc : Circ) (relayCommand : RelayCommand) : Option (SendDecision κ) :=
  if !confluxShouldMultiplex relayCommand then some ⟨cfx, some origCirc, none⟩
  else do
    let (cfx, newCirc) ← confluxDecideNextCirc drainPct circs cfx
    match newCirc with
    | none => if relayCommand ≠ .data then some ⟨cfx, cfx.currLeg, none⟩ else some ⟨cfx, none, none⟩
    | some newCirc =>
      let currCirc ← cfx.currLeg
      if newCirc = currCirc then some ⟨cfx, some newCirc, none⟩
      else
        let prev ← confluxGetLeg cfx currCirc
        let curr ← confluxGetLeg cfx newCirc
        if prev.lastSeqSent < curr.lastSeqSent then none
        else
          let relativeSeq ← confluxSendSwitchCommand (prev.lastSeqSent - curr.lastSeqSent)
          let cfx := { cfx with cellsUntilSwitch := 0, prevLeg := some currCirc,
                                currLeg := some newCirc }
          some ⟨cfx.updateLeg newCirc ({ · with lastSeqSent := prev.lastSeqSent }), some newCirc,
            some relativeSeq⟩

def confluxNoteCellSent (cfx : Conflux κ) (circ : Circ) (relayCommand : RelayCommand) : Conflux κ :=
  if !confluxShouldMultiplex relayCommand then cfx
  else
    match confluxGetLeg cfx circ with
    | none => cfx
    | some _ =>
      let cfx := cfx.updateLeg circ fun leg => { leg with lastSeqSent := u64 (leg.lastSeqSent + 1) }
      { cfx with cellsUntilSwitch := cfx.cellsUntilSwitch - 1 }

def confluxUpdateRtt (cfx : Conflux κ) (circ : Circ) (rttUsec : ℕ) : Conflux κ :=
  cfx.updateLeg circ ({ · with circRttsUsec := rttUsec })

/-- `conflux_process_switch_command`, once the circuit is known to be a leg and the cell to come
from its last hop. -/
def confluxProcessSwitchCommand (cfx : Conflux κ) (inCirc : Circ) (relativeSeq : ℕ) : Conflux κ :=
  cfx.updateLeg inCirc fun leg => { leg with lastSeqRecv := u64 (leg.lastSeqRecv + relativeSeq) }

/-- `smartlist_pqueue_add` with `conflux_queue_cmp`: the queue is kept with the lowest number
first. -/
def smartlistPqueueAdd (oooQ : List (ConfluxCell κ)) (cCell : ConfluxCell κ) :
    List (ConfluxCell κ) :=
  oooQ.orderedInsert (fun a b => a.seq ≤ b.seq) cCell

/-- What becomes of a cell in `conflux_process_cell`: it is to be processed now, it is queued, or
its circuit is closed. -/
inductive Processed
  | inOrder | queued | closed
  deriving DecidableEq

/-- `conflux_process_cell`, for a leg of the set and a cell of the right hop; the counter of bytes
is left to the caller (`Processed.queued`). -/
def confluxProcessCell (cfx : Conflux κ) (leg : ConfluxLeg) (cell : κ) : Conflux κ × Processed :=
  let lastSeqRecv := u64 (leg.lastSeqRecv + 1)
  let cfx := cfx.updateLeg leg.circ ({ · with lastSeqRecv := lastSeqRecv })
  if lastSeqRecv = u64 (cfx.lastSeqDelivered + 1) then
    ({ cfx with lastSeqDelivered := u64 (cfx.lastSeqDelivered + 1) }, .inOrder)
  else if lastSeqRecv ≤ cfx.lastSeqDelivered then (cfx, .closed)
  else ({ cfx with oooQ := smartlistPqueueAdd cfx.oooQ ⟨lastSeqRecv, cell⟩ }, .queued)

def confluxDequeueCell (cfx : Conflux κ) : Option (ConfluxCell κ × Conflux κ) :=
  match cfx.oooQ with
  | [] => none
  | top :: rest =>
    if top.seq = u64 (cfx.lastSeqDelivered + 1) then
      some (top, { cfx with oooQ := rest, lastSeqDelivered := u64 (cfx.lastSeqDelivered + 1) })
    else none

/-! ### Lemmas on the parts -/

theorem u64_succ {n : ℕ} (h : n < uint64Max) : u64 ((n : ℤ) + 1) = n + 1 := by
  have hcast : ((n : ℤ) + 1) = ((n + 1 : ℕ) : ℤ) := by push_cast; rfl
  rw [hcast]
  exact wrap_natCast (by simp only [uint64Max] at h; omega)

@[simp] theorem updateLeg_legs (f : ConfluxLeg → ConfluxLeg) :
    (cfx.updateLeg circ f).legs = cfx.legs.map fun leg => if leg.circ = circ then f leg else leg :=
  rfl

@[simp] theorem updateLeg_oooQ (f : ConfluxLeg → ConfluxLeg) :
    (cfx.updateLeg circ f).oooQ = cfx.oooQ := rfl

@[simp] theorem updateLeg_lastSeqDelivered (f : ConfluxLeg → ConfluxLeg) :
    (cfx.updateLeg circ f).lastSeqDelivered = cfx.lastSeqDelivered := rfl

@[simp] theorem updateLeg_currLeg (f : ConfluxLeg → ConfluxLeg) :
    (cfx.updateLeg circ f).currLeg = cfx.currLeg := rfl

@[simp] theorem updateLeg_prevLeg (f : ConfluxLeg → ConfluxLeg) :
    (cfx.updateLeg circ f).prevLeg = cfx.prevLeg := rfl

@[simp] theorem updateLeg_alg (f : ConfluxLeg → ConfluxLeg) :
    (cfx.updateLeg circ f).alg = cfx.alg := rfl

@[simp] theorem updateLeg_inFullTeardown (f : ConfluxLeg → ConfluxLeg) :
    (cfx.updateLeg circ f).inFullTeardown = cfx.inFullTeardown := rfl

@[simp] theorem updateLeg_nonce (f : ConfluxLeg → ConfluxLeg) :
    (cfx.updateLeg circ f).nonce = cfx.nonce := rfl

theorem length_smartlistPqueueAdd (oooQ : List (ConfluxCell κ)) (cCell : ConfluxCell κ) :
    (smartlistPqueueAdd oooQ cCell).length = oooQ.length + 1 :=
  List.orderedInsert_length _ _ _

theorem mem_of_confluxGetLeg {leg : ConfluxLeg} (h : confluxGetLeg cfx circ = some leg) :
    leg ∈ cfx.legs ∧ leg.circ = circ :=
  ⟨List.mem_of_find?_eq_some h, by simpa using List.find?_some h⟩

theorem confluxGetLeg_isSome {leg : ConfluxLeg} (h : leg ∈ cfx.legs) :
    ∃ leg', confluxGetLeg cfx leg.circ = some leg' := by
  rw [← Option.isSome_iff_exists, confluxGetLeg, List.find?_isSome]
  exact ⟨leg, h, by simp⟩

theorem confluxGetLeg_of_mem (hnodup : (cfx.legs.map ConfluxLeg.circ).Nodup) {leg : ConfluxLeg}
    (h : leg ∈ cfx.legs) : confluxGetLeg cfx leg.circ = some leg := by
  obtain ⟨leg', hleg'⟩ := confluxGetLeg_isSome h
  obtain ⟨hmem, hcirc⟩ := mem_of_confluxGetLeg hleg'
  rw [hleg', List.inj_on_of_nodup_map hnodup hmem h hcirc]

theorem foldl_max_le_iff (f : ConfluxLeg → ℕ) (legs : List ConfluxLeg) (m n : ℕ) :
    legs.foldl (fun acc leg => if f leg > acc then f leg else acc) m ≤ n ↔
      m ≤ n ∧ ∀ leg ∈ legs, f leg ≤ n := by
  induction legs generalizing m with
  | nil => simp
  | cons leg legs ih =>
    rw [List.foldl_cons, ih]
    simp only [List.forall_mem_cons]
    split_ifs with hgt
    · exact ⟨fun ⟨h1, h2⟩ => ⟨by omega, h1, h2⟩, fun ⟨_, h1, h2⟩ => ⟨h1, h2⟩⟩
    · exact ⟨fun ⟨h1, h2⟩ => ⟨h1, by omega, h2⟩, fun ⟨h1, _, h2⟩ => ⟨h1, h2⟩⟩

theorem confluxGetMaxSeqSent_le_iff {n : ℕ} :
    confluxGetMaxSeqSent cfx ≤ n ↔ ∀ leg ∈ cfx.legs, leg.lastSeqSent ≤ n := by
  rw [confluxGetMaxSeqSent, foldl_max_le_iff]
  simp

theorem le_confluxGetMaxSeqSent {leg : ConfluxLeg} (h : leg ∈ cfx.legs) :
    leg.lastSeqSent ≤ confluxGetMaxSeqSent cfx :=
  confluxGetMaxSeqSent_le_iff.mp le_rfl leg h

theorem mem_of_foldl_choice {α β : Type*} (sel : β → Option α) (pick : β → α → β)
    (hpick : ∀ acc x, sel (pick acc x) = some x ∨ sel (pick acc x) = sel acc) {a : α} :
    ∀ (l : List α) (acc : β), sel (l.foldl pick acc) = some a → a ∈ l ∨ sel acc = some a := by
  intro l
  induction l with
  | nil => exact fun acc hacc => .inr hacc
  | cons x l ih =>
    intro acc hacc
    rcases ih _ hacc with hmem | hsel
    · exact .inl (List.mem_cons_of_mem _ hmem)
    · rcases hpick acc x with hx | hkeep
      · obtain rfl := Option.some.inj (hx.symm.trans hsel)
        exact .inl List.mem_cons_self
      · exact .inr (hkeep ▸ hsel)

theorem lowestRtt_mem {legs : List ConfluxLeg} {leg : ConfluxLeg}
    (h : (lowestRtt legs).1 = some leg) : leg ∈ legs := by
  refine (mem_of_foldl_choice Prod.fst _ (fun acc x => ?_) legs _ h).resolve_right (by simp)
  split_ifs
  · exact .inl rfl
  · exact .inr rfl

theorem firstLeg_mem {legs : List ConfluxLeg} {leg : ConfluxLeg} (h : firstLeg legs = some leg) :
    leg ∈ legs := by
  refine (mem_of_foldl_choice id _ (fun acc x => ?_) legs _ h).resolve_right (by simp)
  split_ifs
  · exact .inl rfl
  · exact .inr rfl

end Conflux
