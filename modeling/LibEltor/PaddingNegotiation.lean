/-
Negotiation of circuit padding (`circuitpadding.c`).

A client puts padding machines in the slots of a circuit and tells a hop to start the machine of the
same number, or to stop it.  Each side counts the machines that it has set up, and an instance is
known by this count.  The world is the circuit at the client and at each hop, with the cells in
flight to and from each hop in order.  `insts` and `latest` record, for the reader only, which
machine each instance is of and which instance a slot had last.
-/
import LibEltor.Transition
import Mathlib

open Transition

namespace PaddingNegotiation

/-- `circpad_machine_spec_t`, as far as negotiation reads it.  There are two indexes
(`CIRCPAD_MAX_MACHINES`). -/
structure MachineSpec where
  machineNum : ℕ
  machineIndex : Fin 2
  targetHopnum : ℕ
  shouldNegotiateEnd : Bool
  isOriginSide : Bool
deriving DecidableEq

/-- The padding fields of a `circuit_t`; of the `padding_info` of a slot only `machine_ctr`. -/
structure Circuit where
  paddingMachine : Fin 2 → Option MachineSpec
  paddingInfo : Fin 2 → Option ℕ
  paddingMachineCtr : ℕ

def setupMachineOnCirc (isOrigin : Bool) (circ : Circuit) (machine : MachineSpec) : Circuit :=
  if isOrigin ≠ machine.isOriginSide then circ
  else if (circ.paddingMachine machine.machineIndex).isSome then circ
  else if (circ.paddingInfo machine.machineIndex).isSome then circ
  else
    let ctr := (circ.paddingMachineCtr + 1) % 2 ^ 32
    let ctr := if ctr = 0 then 1 else ctr
    { paddingMachine := Function.update circ.paddingMachine machine.machineIndex (some machine)
      paddingInfo := Function.update circ.paddingInfo machine.machineIndex (some ctr)
      paddingMachineCtr := ctr }

/-- The slot has a machine of this number, and its counter is not another one. -/
def matchesSlot (circ : Circuit) (machineNum machineCtr : ℕ) (i : Fin 2) : Bool :=
  match circ.paddingMachine i with
  | none => false
  | some machine =>
    decide (machine.machineNum = machineNum) &&
      !(decide (machineCtr ≠ 0) && (circ.paddingInfo i).any fun ctr => decide (ctr ≠ machineCtr))

/-- `free_circ_machineinfos_with_machine_num`: whether any were freed, and the circuit. -/
def freeWithMachineNum (circ : Circuit) (machineNum machineCtr : ℕ) : Bool × Circuit :=
  (matchesSlot circ machineNum machineCtr 0 || matchesSlot circ machineNum machineCtr 1,
    { circ with
      paddingMachine := fun i =>
        if matchesSlot circ machineNum machineCtr i then none else circ.paddingMachine i
      paddingInfo := fun i =>
        if matchesSlot circ machineNum machineCtr i then none else circ.paddingInfo i })

inductive Command
  | start
  | stop
deriving DecidableEq

structure Negotiate where
  command : Command
  machineType : ℕ
  machineCtr : ℕ
deriving DecidableEq

/-- `PADDING_NEGOTIATED`, with whether the response is OK, or `DROP`. -/
inductive Cell
  | negotiated (command : Command) (ok : Bool) (machineType machineCtr : ℕ)
  | drop
deriving DecidableEq

def handlePaddingNegotiate (relayPaddingMachines : List MachineSpec) (circ : Circuit)
    (cell : Negotiate) : Circuit × Option Cell :=
  match cell.command with
  | .stop =>
    let (found, circ) := freeWithMachineNum circ cell.machineType cell.machineCtr
    (circ, if found then some (.negotiated .stop true cell.machineType cell.machineCtr) else none)
  | .start =>
    match relayPaddingMachines.find? fun m => m.machineNum = cell.machineType with
    | some m =>
      (setupMachineOnCirc false circ m,
        some (.negotiated .start true cell.machineType cell.machineCtr))
    | none => (circ, some (.negotiated .start false cell.machineType cell.machineCtr))

def paddingIsFromExpectedHop (circ : Circuit) (fromHop : ℕ) : Bool :=
  (circ.paddingMachine 0).any (fun m => decide (m.targetHopnum = fromHop)) ||
    (circ.paddingMachine 1).any fun m => decide (m.targetHopnum = fromHop)

/-! ### The world -/

structure Specs where
  originPaddingMachines : List MachineSpec
  relayPaddingMachines : List MachineSpec
  originSide : ∀ m ∈ originPaddingMachines, m.isOriginSide = true
  relaySide : ∀ m ∈ relayPaddingMachines, m.isOriginSide = false

/-- `up` has beside each cell the slot of the client that it is about, and `down` the instance that
the relay sent it for. -/
structure World where
  client : Circuit
  paddingNegotiationFailed : Bool
  relays : ℕ → Circuit
  up : ℕ → List (Fin 2 × Negotiate)
  down : ℕ → List (ℕ × Cell)
  insts : ℕ → Option MachineSpec
  latest : Fin 2 → ℕ

def sendUp (w : World) (hop : ℕ) (i : Fin 2) (cell : Negotiate) : World :=
  { w with up := Function.update w.up hop (w.up hop ++ [(i, cell)]) }

def sendDown (w : World) (hop inst : ℕ) (cell : Cell) : World :=
  { w with down := Function.update w.down hop (w.down hop ++ [(inst, cell)]) }

/-- The client stops the machine of a slot: the `padding_machine` waits for the reply. -/
def stopSlot (w : World) (i : Fin 2) (machine : MachineSpec) (ctr : ℕ) : World :=
  sendUp { w with
      client := { w.client with paddingInfo := Function.update w.client.paddingInfo i none } }
    machine.targetHopnum i ⟨.stop, machine.machineNum, ctr⟩

def shutdownSlot (conditionsApply conditionsKeep : MachineSpec → Bool) (w : World) (i : Fin 2) :
    World :=
  match w.client.paddingInfo i, w.client.paddingMachine i with
  | some ctr, some machine =>
    if !conditionsApply machine && !conditionsKeep machine then stopSlot w i machine ctr else w
  | _, _ => w

def shutdownOldMachines (conditionsApply conditionsKeep : MachineSpec → Bool) (w : World) : World :=
  [0, 1].foldl (shutdownSlot conditionsApply conditionsKeep) w

/-- The machine that may be put in slot `i`: a machine there is replaced by one for the same hop
only. -/
def findMachine (machines : List MachineSpec) (conditionsApply : MachineSpec → Bool)
    (circ : Circuit) (i : Fin 2) : Option MachineSpec :=
  machines.reverse.find? fun machine =>
    decide (machine.machineIndex = i) && conditionsApply machine &&
      (circ.paddingMachine i).all fun old => decide (old.targetHopnum = machine.targetHopnum)

def startSlot (w : World) (i : Fin 2) (machine : MachineSpec) : World :=
  let circ := { w.client with paddingMachine := Function.update w.client.paddingMachine i none }
  let client := setupMachineOnCirc true circ machine
  sendUp { w with
      client
      insts := Function.update w.insts client.paddingMachineCtr (some machine)
      latest := Function.update w.latest i client.paddingMachineCtr }
    machine.targetHopnum i ⟨.start, machine.machineNum, client.paddingMachineCtr⟩

def addSlot (specs : Specs) (conditionsApply : MachineSpec → Bool) (w : World) (i : Fin 2) :
    World :=
  if (w.client.paddingInfo i).isSome then w
  else
    match findMachine specs.originPaddingMachines conditionsApply w.client i with
    | none => w
    | some machine => startSlot w i machine

def addMatchingMachines (specs : Specs) (conditionsApply : MachineSpec → Bool) (w : World) :
    World :=
  if w.paddingNegotiationFailed then w
  else [0, 1].foldl (addSlot specs conditionsApply) w

def clientEnd (w : World) (i : Fin 2) : World :=
  match w.client.paddingInfo i, w.client.paddingMachine i with
  | some ctr, some machine => if machine.shouldNegotiateEnd then stopSlot w i machine ctr else w
  | _, _ => w

def relayEnd (w : World) (hop : ℕ) (j : Fin 2) : World :=
  match (w.relays hop).paddingInfo j, (w.relays hop).paddingMachine j with
  | some ctr, some machine =>
    if machine.shouldNegotiateEnd then
      sendDown { w with
          relays := Function.update w.relays hop
            { w.relays hop with
              paddingInfo := Function.update (w.relays hop).paddingInfo j none
              paddingMachine := Function.update (w.relays hop).paddingMachine j none } }
        hop ctr (.negotiated .stop true machine.machineNum ctr)
    else w
  | _, _ => w

def relayPads (w : World) (hop : ℕ) (j : Fin 2) : World :=
  match (w.relays hop).paddingInfo j with
  | some ctr => sendDown w hop ctr .drop
  | none => w

def deliverUp (specs : Specs) (w : World) (hop : ℕ) : World :=
  match w.up hop with
  | [] => w
  | (_, cell) :: rest =>
    let (circ, reply) := handlePaddingNegotiate specs.relayPaddingMachines (w.relays hop) cell
    let w := { w with
      up := Function.update w.up hop rest
      relays := Function.update w.relays hop circ }
    match reply with
    | none => w
    | some reply => sendDown w hop cell.machineCtr reply

/-- `circpad_handle_padding_negotiated`; a `DROP` changes nothing here. -/
def handlePaddingNegotiated (w : World) (hop : ℕ) (cell : Cell) : World :=
  if !paddingIsFromExpectedHop w.client hop then w
  else
    match cell with
    | .negotiated .stop _ machineType machineCtr =>
      { w with client := (freeWithMachineNum w.client machineType machineCtr).2 }
    | .negotiated .start false machineType machineCtr =>
      let (found, client) := freeWithMachineNum w.client machineType machineCtr
      { w with client, paddingNegotiationFailed := w.paddingNegotiationFailed || found }
    | _ => w

def deliverDown (w : World) (hop : ℕ) : World :=
  match w.down hop with
  | [] => w
  | (_, cell) :: rest =>
    handlePaddingNegotiated { w with down := Function.update w.down hop rest } hop cell

inductive Action
  | shutdownOldMachines (conditionsApply conditionsKeep : MachineSpec → Bool)
  | addMatchingMachines (conditionsApply : MachineSpec → Bool)
  | clientEnd (i : Fin 2)
  | relayEnd (hop : ℕ) (j : Fin 2)
  | relayPads (hop : ℕ) (j : Fin 2)
  | deliverUp (hop : ℕ)
  | deliverDown (hop : ℕ)

def perform (specs : Specs) (w : World) : Action → World
  | .shutdownOldMachines apply keep => shutdownOldMachines apply keep w
  | .addMatchingMachines apply => addMatchingMachines specs apply w
  | .clientEnd i => clientEnd w i
  | .relayEnd hop j => relayEnd w hop j
  | .relayPads hop j => relayPads w hop j
  | .deliverUp hop => deliverUp specs w hop
  | .deliverDown hop => deliverDown w hop

def emptyCircuit : Circuit := ⟨fun _ => none, fun _ => none, 0⟩

def initialWorld : World :=
  ⟨emptyCircuit, false, fun _ => emptyCircuit, fun _ => [], fun _ => [], fun _ => none, fun _ => 0⟩

def system (specs : Specs) : System World Action where
  init w := w = initialWorld
  step w a w' := w' = perform specs w a

/-! ### What is left to be done about an instance -/

def StartsIn (i : Fin 2) (p : Fin 2 × Negotiate) : Prop := p.1 = i ∧ p.2.command = .start

/-- Instance `c` of slot `i` is stopped before the slot is used again. -/
def StopFirst (i : Fin 2) (c : ℕ) : List (Fin 2 × Negotiate) → Prop
  | [] => False
  | p :: l => (p.2.command = .stop ∧ p.2.machineCtr = c) ∨ (¬ StartsIn i p ∧ StopFirst i c l)

theorem StopFirst.append {i : Fin 2} {c : ℕ} {l : List (Fin 2 × Negotiate)} (h : StopFirst i c l)
    (m : List (Fin 2 × Negotiate)) : StopFirst i c (l ++ m) := by
  induction l with
  | nil => exact h.elim
  | cons p l ih => exact h.imp_right fun ⟨hp, hl⟩ => ⟨hp, ih hl⟩

theorem stopFirst_concat {i : Fin 2} {c : ℕ} {l : List (Fin 2 × Negotiate)}
    (h : ∀ p ∈ l, ¬ StartsIn i p) {p : Fin 2 × Negotiate} (hstop : p.2.command = .stop)
    (hc : p.2.machineCtr = c) : StopFirst i c (l ++ [p]) := by
  induction l with
  | nil => exact .inl ⟨hstop, hc⟩
  | cons q l ih =>
    obtain ⟨hq, hl⟩ := List.forall_mem_cons.mp h
    exact .inr ⟨hq, ih hl⟩

/-- The client still has the instance and does not start another in its slot, or will have stopped
it by then; `l` are the cells to come. -/
def Settled (client : Circuit) (i : Fin 2) (c : ℕ) (l : List (Fin 2 × Negotiate)) : Prop :=
  (client.paddingInfo i = some c ∧ ∀ p ∈ l, ¬ StartsIn i p) ∨ StopFirst i c l

theorem Settled.tail {client : Circuit} {i : Fin 2} {c : ℕ} {p : Fin 2 × Negotiate}
    {l : List (Fin 2 × Negotiate)} (h : Settled client i c (p :: l))
    (hp : ¬ (p.2.command = .stop ∧ p.2.machineCtr = c)) : Settled client i c l := by
  rcases h with ⟨hinfo, hl⟩ | hstop
  · exact .inl ⟨hinfo, fun q hq => hl q (List.mem_cons_of_mem _ hq)⟩
  · exact .inr (hstop.resolve_left hp).2

theorem Settled.not_startsIn {client : Circuit} {i : Fin 2} {c : ℕ} {p : Fin 2 × Negotiate}
    {l : List (Fin 2 × Negotiate)} (h : Settled client i c (p :: l))
    (hp : p.2.command = .start) : p.1 ≠ i := by
  intro hi
  rcases h with ⟨_, hl⟩ | ⟨hstop, _⟩ | ⟨hnot, _⟩
  · exact hl p List.mem_cons_self ⟨hi, hp⟩
  · rw [hp] at hstop
    cases hstop
  · exact hnot ⟨hi, hp⟩

def Covered (client : Circuit) : List (Fin 2 × Negotiate) → Prop
  | [] => True
  | p :: l =>
    (p.2.command = .start → Settled client p.1 p.2.machineCtr l) ∧ Covered client l

theorem Covered.concat {client client' : Circuit} {l : List (Fin 2 × Negotiate)}
    {p : Fin 2 × Negotiate} (h : Covered client l)
    (hkeep : ∀ q ∈ l, q.2.command = .start → ∀ m, Settled client q.1 q.2.machineCtr m →
      Settled client' q.1 q.2.machineCtr (m ++ [p]))
    (hp : p.2.command = .start → client'.paddingInfo p.1 = some p.2.machineCtr) :
    Covered client' (l ++ [p]) := by
  induction l with
  | nil => exact ⟨fun hstart => .inl ⟨hp hstart, fun _ hq => absurd hq List.not_mem_nil⟩, trivial⟩
  | cons q l ih =>
    obtain ⟨hq, hl⟩ := h
    obtain ⟨hkeepq, hkeepl⟩ := List.forall_mem_cons.mp hkeep
    exact ⟨fun hstart => hkeepq hstart l (hq hstart), ih hl hkeepl⟩

theorem Covered.mono {client client' : Circuit} {l : List (Fin 2 × Negotiate)}
    (h : Covered client l)
    (hkeep : ∀ q ∈ l, q.2.command = .start → ∀ m, Settled client q.1 q.2.machineCtr m →
      Settled client' q.1 q.2.machineCtr m) : Covered client' l := by
  induction l with
  | nil => trivial
  | cons q l ih =>
    obtain ⟨hq, hl⟩ := h
    obtain ⟨hkeepq, hkeepl⟩ := List.forall_mem_cons.mp hkeep
    exact ⟨fun hstart => hkeepq hstart l (hq hstart), ih hl hkeepl⟩

/-! ### The invariant -/

def isStop : Cell → Prop
  | .negotiated .stop _ _ _ => True
  | _ => False

def CellOk (m : MachineSpec) (c : ℕ) : Cell → Prop
  | .negotiated _ ok machineType machineCtr =>
    ok = true ∧ machineType = m.machineNum ∧ machineCtr = c
  | .drop => True

def Waits (client : Circuit) (i : Fin 2) (hop : ℕ) : Prop :=
  ∃ m, client.paddingMachine i = some m ∧ m.targetHopnum = hop

def SameSlot (insts : ℕ → Option MachineSpec) (c d : ℕ) : Prop :=
  ∃ m m', insts c = some m ∧ insts d = some m' ∧ m.machineIndex = m'.machineIndex

/-- A slot of the client holds the instance that it had last. -/
structure ClientInv (w : World) : Prop where
  ctr_lt : w.client.paddingMachineCtr < 2 ^ 32
  inst : ∀ c m, w.insts c = some m →
    1 ≤ c ∧ c ≤ w.client.paddingMachineCtr ∧ c ≤ w.latest m.machineIndex
  machine : ∀ i m, w.client.paddingMachine i = some m →
    w.insts (w.latest i) = some m ∧ m.machineIndex = i
  info : ∀ i c, w.client.paddingInfo i = some c →
    c = w.latest i ∧ (w.client.paddingMachine i).isSome

/-- Cells to a hop are about instances for it, and starts come in their order. -/
structure UpInv (w : World) (h : ℕ) : Prop where
  inst : ∀ p ∈ w.up h, ∃ m, w.insts p.2.machineCtr = some m ∧ m.targetHopnum = h ∧
    m.machineNum = p.2.machineType ∧ m.machineIndex = p.1
  covered : Covered w.client (w.up h)
  sorted : (w.up h).Pairwise fun p q =>
    p.2.command = .start → q.2.command = .start → p.2.machineCtr < q.2.machineCtr
  later : ∀ p ∈ w.up h, p.2.command = .start →
    (w.relays h).paddingMachineCtr < p.2.machineCtr ∧ Waits w.client p.1 h

/-- What a relay holds is the last instance of its slot that it has heard of. -/
structure RelayInv (w : World) (h : ℕ) : Prop where
  ctr_le : (w.relays h).paddingMachineCtr ≤ w.client.paddingMachineCtr
  machine : ∀ j r, (w.relays h).paddingMachine j = some r → ((w.relays h).paddingInfo j).isSome
  held : ∀ j c, (w.relays h).paddingInfo j = some c →
    ∃ r m, (w.relays h).paddingMachine j = some r ∧ w.insts c = some m ∧ m.targetHopnum = h ∧
      m.machineNum = r.machineNum ∧ c ≤ (w.relays h).paddingMachineCtr ∧
      Waits w.client m.machineIndex h ∧ Settled w.client m.machineIndex c (w.up h)
  inj : ∀ j j' c, (w.relays h).paddingInfo j = some c → (w.relays h).paddingInfo j' = some c →
    j = j'
  last : ∀ j c d, (w.relays h).paddingInfo j = some c → SameSlot w.insts c d →
    (∀ m, w.insts d = some m → m.targetHopnum = h) → d ≤ (w.relays h).paddingMachineCtr → d ≤ c

/-- Cells from a hop are awaited, and what is sent after a stop is about later instances. -/
structure DownInv (w : World) (h : ℕ) : Prop where
  inst : ∀ p ∈ w.down h, ∃ m, w.insts p.1 = some m ∧ m.targetHopnum = h ∧
    p.1 ≤ (w.relays h).paddingMachineCtr ∧ Waits w.client m.machineIndex h ∧ CellOk m p.1 p.2
  stopped : ∀ p ∈ w.down h, isStop p.2 → ∀ j, (w.relays h).paddingInfo j ≠ some p.1
  after : (w.down h).Pairwise fun p q => isStop p.2 → SameSlot w.insts p.1 q.1 → p.1 < q.1

structure Inv (w : World) : Prop where
  client : ClientInv w
  up : ∀ h, UpInv w h
  relay : ∀ h, RelayInv w h
  down : ∀ h, DownInv w h

end PaddingNegotiation
