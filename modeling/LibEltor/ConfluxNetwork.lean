/-
Two honest ends of a conflux set and the cells between them (`core/or/conflux_pool.c`,
`core/or/conflux.c`, `core/or/relay.c`).

The client launches legs with a LINK cell, the exit answers with LINKED and adds the
leg at once, the client adds the legs it waits for when all have been answered.  The
multiplexed cells of each direction are one stream over the legs.  A leg begins with
the counters that each end read off the other's cell, and these are the right ones only
if nothing was sent or delivered meanwhile.
-/
import LibEltor.ConfluxStream

open Word CongestionControl Smartlist Transition Multipath

namespace Conflux

variable {κ : Type}

/-! ### The two ends and the queues between them -/

inductive Side
  | client | exit
  deriving DecidableEq

def Side.other : Side → Side
  | .client => .exit
  | .exit => .client

@[simp] theorem Side.other_other (side : Side) : side.other.other = side := by cases side <;> rfl

@[simp] theorem Side.other_ne (side : Side) : side.other ≠ side := by cases side <;> simp [other]

@[simp] theorem Side.ne_other (side : Side) : side ≠ side.other := side.other_ne.symm

theorem Side.eq_or_other (side t : Side) : t = side ∨ t = side.other := by
  cases side <;> cases t <;> simp [other]

theorem Side.forall_iff {P : Side → Prop} (side : Side) : (∀ t, P t) ↔ P side ∧ P side.other := by
  refine ⟨fun h => ⟨h _, h _⟩, fun h t => ?_⟩
  rcases side.eq_or_other t with rfl | rfl
  · exact h.1
  · exact h.2

/-- What is on its way on a circuit that is a leg or to be one. -/
inductive Message (κ : Type)
  | link (link : ConfluxCellLink)
  | linked (link : ConfluxCellLink)
  | linkedAck
  | carried (cell : LegCell κ)

/-- The two ends of a set.  `queue` is what is on its way to a side, `log` what a side has sent and
on which leg, `out` what a side has delivered. -/
structure Network (κ : Type) where
  ends : Side → SendState κ
  queue : Side → Circ → List (Message κ)
  log : Side → List (Circ × κ)
  out : Side → List κ

namespace Network

def setEnd (N : Network κ) (side : Side) (s : SendState κ) : Network κ :=
  { N with ends := Function.update N.ends side s }

def setQueue (N : Network κ) (side : Side) (circ : Circ) (q : List (Message κ)) : Network κ :=
  { N with queue := Function.update N.queue side (Function.update (N.queue side) circ q) }

def push (N : Network κ) (side : Side) (circ : Circ) (msgs : List (Message κ)) : Network κ :=
  N.setQueue side circ (N.queue side circ ++ msgs)

variable (N : Network κ) (side : Side) (circ : Circ) (s : SendState κ) (q : List (Message κ))

@[simp] theorem setEnd_ends : (N.setEnd side s).ends = Function.update N.ends side s := rfl
@[simp] theorem setEnd_queue : (N.setEnd side s).queue = N.queue := rfl
@[simp] theorem setEnd_log : (N.setEnd side s).log = N.log := rfl
@[simp] theorem setEnd_out : (N.setEnd side s).out = N.out := rfl
@[simp] theorem setQueue_ends : (N.setQueue side circ q).ends = N.ends := rfl
@[simp] theorem setQueue_queue : (N.setQueue side circ q).queue
    = Function.update N.queue side (Function.update (N.queue side) circ q) := rfl
@[simp] theorem setQueue_log : (N.setQueue side circ q).log = N.log := rfl
@[simp] theorem setQueue_out : (N.setQueue side circ q).out = N.out := rfl
@[simp] theorem push_ends : (N.push side circ q).ends = N.ends := rfl
@[simp] theorem push_queue : (N.push side circ q).queue = Function.update N.queue side
    (Function.update (N.queue side) circ (N.queue side circ ++ q)) := rfl
@[simp] theorem push_log : (N.push side circ q).log = N.log := rfl
@[simp] theorem push_out : (N.push side circ q).out = N.out := rfl

end Network

/-! ### Steps -/

def confluxCellNewLink (cfx : Conflux κ) (desiredUx : UInt8) : ConfluxCellLink where
  version := 1
  desiredUx := desiredUx
  nonce := cfx.nonce
  lastSeqnoSent := confluxGetMaxSeqSent cfx
  lastSeqnoRecv := cfx.lastSeqDelivered

/-- `CONFLUX_UX_MIN_LATENCY` -/
abbrev defaultExitUx : UInt8 := 1

/-- `leg_new`, for a leg that is linked or is to be. -/
def legNew (circ : Circ) (link : ConfluxCellLink) (linked : Bool) (now : ℕ) : Leg where
  circ := circ
  link := link
  linked := linked
  linkSentUsec := now
  rttUsec := 0

/-- `conflux_launch_leg`, for a circuit that is built: the leg waits, and the LINK cell goes out. -/
def confluxLaunchLeg (N : Network κ) (circ : Circ) (now : ℕ) (desiredUx : UInt8) : Network κ :=
  let client := N.ends .client
  let link := confluxCellNewLink client.cfx desiredUx
  (N.setEnd .client { client with
    legs := client.legs ++ [legNew circ link false now] }).push .exit circ [.link link]

/-- `conflux_process_link`, for a circuit in no set: the leg joins at once and LINKED goes back; a
circuit that is refused is closed. -/
def confluxProcessLink (maxLegsSet : ℕ) (N : Network κ) (circ : Circ) (link : ConfluxCellLink)
    (now : ℕ) : Option (Network κ) :=
  let exit := N.ends .exit
  (SendState.finalize maxLegsSet
    { exit with legs := exit.legs ++ [legNew circ link true now] }).map fun exit' =>
      if circ ∈ exit'.cfx.legs.map ConfluxLeg.circ then
        (N.setEnd .exit exit').push .client circ [.linked (confluxCellNewLink exit.cfx defaultExitUx)]
      else N.setEnd .exit { exit' with legs := exit'.legs.filter (·.circ ≠ circ) }

/-- `conflux_process_linked`, for a cell that has passed its checks. -/
def confluxReceiveLinked (maxLegsSet : ℕ) (N : Network κ) (circ : Circ) (link : ConfluxCellLink)
    (now : ℕ) : Option (Network κ) :=
  let client := N.ends .client
  (SendState.finalize maxLegsSet
    { client with legs := (storeLinked client.unlinked circ now link).legs }).map fun client' =>
      (N.setEnd .client client').push .exit circ [.linkedAck]

/-- `relay_send_command_from_edge` on a circuit of the set: the end, and what goes out. -/
def Network.send (N : Network κ) (side : Side) (cfx : Conflux κ) (cell : κ) :
    Option Wire → Network κ
  | none => N.setEnd side { N.ends side with cfx := cfx }
  | some wire =>
    { (N.setEnd side { N.ends side with cfx := cfx }).push side.other wire.circ
        ((wire.switchCell.toList.map fun k => .carried (.skip k)) ++ [.carried (.item cell)]) with
      log := Function.update N.log side (N.log side ++ [(wire.circ, cell)]) }

def Network.arrive (N : Network κ) (side : Side) (circ : Circ) : LegCell κ → Network κ
  | .skip k =>
    N.setEnd side { N.ends side with cfx := confluxProcessSwitchCommand (N.ends side).cfx circ k }
  | .item x =>
    { N.setEnd side { N.ends side with cfx := (processRelayCell (N.ends side).cfx circ x).1 } with
      out := Function.update N.out side (N.out side ++ (processRelayCell (N.ends side).cfx circ x).2) }

/-- What happens in the network: the client launches a leg on a new circuit, the first cell of a
queue arrives, a round trip is measured, a side sends a multiplexed command. -/
inductive NetAction (κ : Type)
  | launch (circ : Circ) (now : ℕ) (desiredUx : UInt8)
  | receive (side : Side) (circ : Circ) (now : ℕ)
  | updateRtt (side : Side) (circ : Circ) (rttUsec : ℕ)
  | send (side : Side) (circs : Circ → Circuit) (origCirc : Circ) (relayCommand : RelayCommand)
      (cell : κ)

/-- `none` where the action cannot be, or an assertion fails. -/
def netStep (maxLegsSet drainPct : ℕ) (N : Network κ) : NetAction κ → Option (Network κ)
  | .launch circ now desiredUx =>
    if circ ∈ (N.ends .client).circs then none else some (confluxLaunchLeg N circ now desiredUx)
  | .receive side circ now =>
    match side, N.queue side circ with
    | .exit, .link link :: q => confluxProcessLink maxLegsSet (N.setQueue .exit circ q) circ link now
    | .exit, .linkedAck :: q =>
      some ((N.setQueue .exit circ q).setEnd .exit
        { N.ends .exit with cfx := confluxUpdateRtt (N.ends .exit).cfx circ now })
    | .client, .linked link :: q =>
      confluxReceiveLinked maxLegsSet (N.setQueue .client circ q) circ link now
    | side, .carried cell :: q => some ((N.setQueue side circ q).arrive side circ cell)
    | _, _ => none
  | .updateRtt side circ rttUsec =>
    some (N.setEnd side
      { N.ends side with cfx := confluxUpdateRtt (N.ends side).cfx circ rttUsec })
  | .send side circs origCirc relayCommand cell =>
    if confluxShouldMultiplex relayCommand ∧ (N.ends side).cfx.legs ≠ [] then
      (relaySendOnSet drainPct circs (N.ends side).cfx origCirc relayCommand).map fun r =>
        N.send side r.1 cell r.2
    else none

def netSystem (κ : Type) (maxLegsSet drainPct : ℕ) : System (Network κ) (NetAction κ) where
  init N := ∃ nonce, N =
    { ends := fun _ => ⟨confluxNew κ nonce, [], false⟩
      queue := fun _ _ => []
      log := fun _ => []
      out := fun _ => [] }
  step N a N' := netStep maxLegsSet drainPct N a = some N'

/-- A leg joins a set at rest: its LINK cell has the counters the exit has now.  When a LINKED cell
arrives the legs that wait validate, cells come in on legs that have joined, and a cell is sent
while no leg is too far behind. -/
def JoinsAtRest (N : Network κ) : NetAction κ → Prop
  | .receive side circ now =>
    match side, N.queue side circ with
    | .exit, .link link :: _ =>
      link.lastSeqnoSent = (N.ends .exit).cfx.lastSeqDelivered ∧
        link.lastSeqnoRecv = confluxGetMaxSeqSent (N.ends .exit).cfx
    | .client, .linked link :: _ =>
      validateUnlinkedLegs (storeLinked (N.ends .client).unlinked circ now link) = true
    | .client, .carried _ :: _ => circ ∈ (N.ends .client).cfx.legs.map ConfluxLeg.circ
    | _, _ => True
  | .send side _ _ _ _ => WithinSwitch (N.ends side).cfx
  | _ => True

/-! ### The streams -/

def carriedOf : List (Message κ) → List (LegCell κ)
  | [] => []
  | .carried cell :: q => cell :: carriedOf q
  | _ :: q => carriedOf q

@[simp] theorem carriedOf_append (p q : List (Message κ)) :
    carriedOf (p ++ q) = carriedOf p ++ carriedOf q := by
  induction p with
  | nil => rfl
  | cons m p ih =>
    cases m with
    | carried cell => simp only [List.cons_append, carriedOf, ih]
    | link _ | linked _ | linkedAck => simp only [List.cons_append, carriedOf, ih]

def pendingNumber (legs : List Leg) (c : Circ) : Option ℕ :=
  (legs.find? fun leg => decide (leg.circ = c) && leg.linked).map (·.link.lastSeqnoSent)

def linkedNumber : List (Message κ) → Option ℕ
  | .linked link :: _ => some link.lastSeqnoSent
  | _ => none

/-- What a side has received on a leg, or will count from when the leg joins. -/
def viewOf (s : SendState κ) (q : Circ → List (Message κ)) (c : Circ) : Option ℕ :=
  (receivedOn s.cfx c).or ((pendingNumber s.legs c).or (linkedNumber (q c)))

def streamOf (log : List (Circ × κ)) (out : List κ) (sender receiver : SendState κ)
    (q : Circ → List (Message κ)) : Chan Circ κ where
  log := log
  sent := sentOn sender.cfx
  recv := viewOf receiver q
  inq c := carriedOf (q c)
  held := heldOf receiver.cfx.oooQ
  delivered := receiver.cfx.lastSeqDelivered
  out := out

def Network.stream (N : Network κ) (side : Side) : Chan Circ κ :=
  streamOf (N.log side) (N.out side.other) (N.ends side) (N.ends side.other) (N.queue side.other)

/-! ### How a leg comes to be -/

def Message.IsCarried : Message κ → Prop
  | .carried _ => True
  | _ => False

def Message.IsAck : Message κ → Prop
  | .linkedAck => True
  | _ => False

/-- Where a circuit is on its way to being a leg: the legs the client waits for, what each side has
received on it, and what is on its way to the exit and to the client. -/
inductive LegPhase (legs : List Leg) (clientRecv exitRecv : Option ℕ) (c : Circ) :
    List (Message κ) → List (Message κ) → Prop
  | unused : c ∉ legs.map Leg.circ → clientRecv = none → exitRecv = none →
      LegPhase legs clientRecv exitRecv c [] []
  | asked {leg : Leg} : leg ∈ legs → leg.circ = c → leg.linked = false → exitRecv = none →
      LegPhase legs clientRecv exitRecv c [.link leg.link] []
  | refused {leg : Leg} : leg ∈ legs → leg.circ = c → leg.linked = false → exitRecv = none →
      LegPhase legs clientRecv exitRecv c [] []
  | answered {leg : Leg} {link : ConfluxCellLink} {q : List (Message κ)} :
      leg ∈ legs → leg.circ = c → leg.linked = false → exitRecv = some link.lastSeqnoRecv →
      (∀ m ∈ q, m.IsCarried) → LegPhase legs clientRecv exitRecv c [] (.linked link :: q)
  | waiting {leg : Leg} {p q : List (Message κ)} :
      leg ∈ legs → leg.circ = c → leg.linked = true → exitRecv = some leg.link.lastSeqnoRecv →
      (∀ m ∈ p, m.IsAck) → (∀ m ∈ q, m.IsCarried) → LegPhase legs clientRecv exitRecv c p q
  | joined {p q : List (Message κ)} : clientRecv ≠ none → exitRecv ≠ none →
      (∀ m ∈ p, m.IsAck ∨ m.IsCarried) → (∀ m ∈ q, m.IsCarried) →
      LegPhase legs clientRecv exitRecv c p q

def Network.Phase (N : Network κ) (c : Circ) : Prop :=
  LegPhase (N.ends .client).legs (receivedOn (N.ends .client).cfx c)
    (receivedOn (N.ends .exit).cfx c) c (N.queue .exit c) (N.queue .client c)

structure NetInv (N : Network κ) : Prop where
  ends : ∀ side, EndInv (N.ends side)
  notDown : ∀ side, (N.ends side).cfx.inFullTeardown = false
  exitLegs : (N.ends .exit).legs = []
  sent : ∀ side, confluxGetMaxSeqSent (N.ends side).cfx = (N.log side).length
  bound : ∀ side, (N.log side).length ≤ uint64Max
  stream : ∀ side, (N.stream side).Inv ∧ (N.stream side).Settled
  phase : ∀ c, N.Phase c

variable {legs : List Leg} {cr er : Option ℕ} {c : Circ} {p q : List (Message κ)}

theorem viewOf_of_received {s : SendState κ} {q : Circ → List (Message κ)} {r : ℕ}
    (h : receivedOn s.cfx c = some r) : viewOf s q c = some r := by
  simp only [viewOf, h, Option.some_or]

theorem LegPhase.joined_of_client (h : LegPhase legs cr er c p q) (hcr : cr ≠ none)
    (hlegs : c ∉ legs.map Leg.circ) :
    er ≠ none ∧ (∀ m ∈ p, m.IsAck ∨ m.IsCarried) ∧ ∀ m ∈ q, m.IsCarried := by
  cases h with
  | unused _ hnone _ => exact absurd hnone hcr
  | joined _ her hp hq => exact ⟨her, hp, hq⟩
  | asked hleg hc | refused hleg hc | answered hleg hc | waiting hleg hc =>
    exact absurd (hc ▸ List.mem_map_of_mem hleg) hlegs

theorem LegPhase.push_exit (h : LegPhase legs cr er c p q) (hcr : cr ≠ none)
    (hlegs : c ∉ legs.map Leg.circ) {ms : List (Message κ)}
    (hms : ∀ m ∈ ms, m.IsAck ∨ m.IsCarried) : LegPhase legs cr er c (p ++ ms) q := by
  obtain ⟨her, hp, hq⟩ := h.joined_of_client hcr hlegs
  refine .joined hcr her (fun m hm => ?_) hq
  rcases List.mem_append.mp hm with hm | hm
  · exact hp m hm
  · exact hms m hm

theorem LegPhase.push_client (h : LegPhase legs cr er c p q) (her : er ≠ none)
    {ms : List (Message κ)} (hms : ∀ m ∈ ms, m.IsCarried) : LegPhase legs cr er c p (q ++ ms) := by
  have happ : ∀ {q : List (Message κ)}, (∀ m ∈ q, m.IsCarried) → ∀ m ∈ q ++ ms, m.IsCarried := by
    intro q hq m hm
    rcases List.mem_append.mp hm with hm | hm
    · exact hq m hm
    · exact hms m hm
  cases h with
  | unused _ _ hnone | asked _ _ _ hnone | refused _ _ _ hnone => exact absurd hnone her
  | answered hleg hc hl hr hq => exact .answered hleg hc hl hr (happ hq)
  | waiting hleg hc hl hr hp hq => exact .waiting hleg hc hl hr hp (happ hq)
  | joined hcr her hp hq => exact .joined hcr her hp (happ hq)

theorem pendingNumber_of_mem (hnodup : (legs.map Leg.circ).Nodup) {leg : Leg} (hleg : leg ∈ legs) :
    pendingNumber legs leg.circ = if leg.linked then some leg.link.lastSeqnoSent else none := by
  have hfind : ∀ l ∈ legs, l.circ = leg.circ → l = leg := fun l hl hc =>
    List.inj_on_of_nodup_map hnodup hl hleg hc
  rw [pendingNumber]
  split_ifs with hlinked
  · cases hf : legs.find? (fun l => decide (l.circ = leg.circ) && l.linked) with
    | none =>
      have hno := List.find?_eq_none.mp hf leg hleg
      simp [hlinked] at hno
    | some l =>
      have hl := List.find?_some hf
      simp only [Bool.and_eq_true, decide_eq_true_eq] at hl
      rw [hfind l (List.mem_of_find?_eq_some hf) hl.1, Option.map_some]
  · rw [Option.map_eq_none_iff, List.find?_eq_none]
    intro l hl hboth
    simp only [Bool.and_eq_true, decide_eq_true_eq] at hboth
    exact hlinked (hfind l hl hboth.1 ▸ hboth.2)

theorem pendingNumber_of_notMem (h : c ∉ legs.map Leg.circ) : pendingNumber legs c = none := by
  rw [pendingNumber, Option.map_eq_none_iff, List.find?_eq_none]
  intro l hl hboth
  simp only [Bool.and_eq_true, decide_eq_true_eq] at hboth
  exact h (hboth.1 ▸ List.mem_map_of_mem hl)

theorem LegPhase.pending_or_linked (h : LegPhase legs cr er c p q) (her : er ≠ none)
    (hnodup : (legs.map Leg.circ).Nodup) :
    cr.or ((pendingNumber legs c).or (linkedNumber q)) ≠ none := by
  cases h with
  | unused _ _ hnone | asked _ _ _ hnone | refused _ _ _ hnone => exact absurd hnone her
  | answered hleg hc hl hr hq => cases cr <;> cases pendingNumber legs c <;> simp [linkedNumber]
  | waiting hleg hc hl hr hp hq =>
    rw [← hc, pendingNumber_of_mem hnodup hleg, if_pos hl]
    cases cr <;> simp
  | joined hcr _ _ _ =>
    obtain ⟨n, rfl⟩ := Option.ne_none_iff_exists'.mp hcr
    simp

variable {N : Network κ} {side : Side} {maxLegsSet drainPct : ℕ}

theorem EndInv.notMem_legs {s : SendState κ} (h : EndInv s) (hc : receivedOn s.cfx c ≠ none) :
    c ∉ s.legs.map Leg.circ := by
  intro hmem
  have hin : c ∈ s.cfx.legs.map ConfluxLeg.circ := by
    by_contra hno
    exact hc (receivedOn_eq_none_iff.mpr hno)
  exact (List.nodup_append.mp h.nodup).2.2 c hin c hmem rfl

theorem NetInv.view_ne_none (h : NetInv N) (hc : receivedOn (N.ends side).cfx c ≠ none) :
    (N.stream side).recv c ≠ none := by
  cases side with
  | client =>
    have hjoined := (h.phase c).joined_of_client hc ((h.ends .client).notMem_legs hc)
    obtain ⟨r, hr⟩ := Option.ne_none_iff_exists'.mp hjoined.1
    simp only [Network.stream, streamOf, Side.other, viewOf_of_received hr]
    simp
  | exit =>
    exact (h.phase c).pending_or_linked hc ((List.nodup_append.mp (h.ends .client).nodup).2.1)

theorem send_ends (cfx' : Conflux κ) (x : κ) (wire : Option Wire) :
    (N.send side cfx' x wire).ends = Function.update N.ends side { N.ends side with cfx := cfx' } := by
  cases wire <;> rfl

theorem send_out (cfx' : Conflux κ) (x : κ) (wire : Option Wire) :
    (N.send side cfx' x wire).out = N.out := by
  cases wire <;> rfl

theorem send_stream_other {cfx' : Conflux κ} {wire : Option Wire}
    (hspec : SendSpec (N.ends side).cfx cfx' wire) (x : κ) :
    (N.send side cfx' x wire).stream side.other = N.stream side.other := by
  have hq : (N.send side cfx' x wire).queue side = N.queue side := by
    cases wire with
    | none => rfl
    | some w => simp [Network.send]
  have hlog : (N.send side cfx' x wire).log side.other = N.log side.other := by
    cases wire with
    | none => rfl
    | some w => simp [Network.send]
  simp only [Network.stream, Side.other_other, send_ends, send_out, hq, hlog,
    Function.update_self, Function.update_of_ne side.other_ne, streamOf, hspec.oooQ,
    hspec.delivered, Chan.mk.injEq, true_and, and_true]
  funext c
  simp only [viewOf, hspec.received]

theorem send_stream {cfx' : Conflux κ} {w : Wire}
    (hsent : sentOn cfx' = Function.update (sentOn (N.ends side).cfx) w.circ
      (some (confluxGetMaxSeqSent (N.ends side).cfx + 1)))
    (hmax : confluxGetMaxSeqSent (N.ends side).cfx = (N.log side).length) (x : κ) :
    (N.send side cfx' x (some w)).stream side
      = (N.stream side).send w.circ (w.switchCell.toList.map Item.skip ++ [.item x]) x := by
  have hends : (N.send side cfx' x (some w)).ends side.other = N.ends side.other := by
    rw [send_ends, Function.update_of_ne side.other_ne]
  have hself : ((N.send side cfx' x (some w)).ends side).cfx = cfx' := by
    rw [send_ends, Function.update_self]
  have hcarried : carriedOf ((w.switchCell.toList.map fun k => Message.carried (κ := κ) (.skip k)) ++
      [.carried (.item x)]) = w.switchCell.toList.map Item.skip ++ [.item x] := by
    cases w.switchCell <;> rfl
  simp only [Network.stream, streamOf, Chan.send, hends, hself, send_out, hsent, hmax,
    Chan.mk.injEq, true_and, and_true]
  refine ⟨by simp [Network.send], ?_, ?_⟩
  · funext c
    simp only [viewOf]
    congr 2
    by_cases hc : c = w.circ
    · subst hc
      simp only [Network.send, Network.push_queue, Network.setEnd_queue, Function.update_self]
      cases N.queue side.other w.circ with
      | nil => cases w.switchCell <;> rfl
      | cons m q => cases m <;> rfl
    · simp [Network.send, Function.update_of_ne hc]
  · funext c
    by_cases hc : c = w.circ
    · subst hc
      simp only [Network.send, Network.push_queue, Network.setEnd_queue, Function.update_self,
        carriedOf_append, hcarried]
    · simp [Network.send, Function.update_of_ne hc]

theorem netInv_send {cfx' : Conflux κ} {wire : Option Wire} (h : NetInv N)
    (hspec : SendSpec (N.ends side).cfx cfx' wire) (x : κ) : NetInv (N.send side cfx' x wire) := by
  have hlogOther : (N.send side cfx' x wire).log side.other = N.log side.other := by
    cases wire with
    | none => rfl
    | some w => simp [Network.send]
  refine ⟨?_, ?_, ?_, ?_, ?_, ?_, ?_⟩
  · rw [send_ends]
    refine (Side.forall_iff side).mpr ⟨?_, ?_⟩
    · rw [Function.update_self]
      refine ⟨?_, hspec.inv⟩
      simpa only [SendState.circs, hspec.circs] using (h.ends side).nodup
    · rw [Function.update_of_ne side.other_ne]
      exact h.ends _
  · rw [send_ends]
    refine (Side.forall_iff side).mpr ⟨?_, ?_⟩
    · rw [Function.update_self]
      exact hspec.down.trans (h.notDown side)
    · rw [Function.update_of_ne side.other_ne]
      exact h.notDown _
  · rw [send_ends]
    rcases side.eq_or_other .exit with rfl | heq
    · rw [Function.update_self]
      exact h.exitLegs
    · rw [heq, Function.update_of_ne side.other_ne, ← heq]
      exact h.exitLegs
  · rw [send_ends]
    refine (Side.forall_iff side).mpr ⟨?_, ?_⟩
    · rw [Function.update_self]
      cases wire with
      | none => exact (hspec.nothing rfl).2.trans (h.sent side)
      | some w =>
        obtain ⟨n, -, -, -, hmax, -⟩ := hspec.cell w rfl
        simp [Network.send, hmax, h.sent side]
    · rw [Function.update_of_ne side.other_ne, hlogOther]
      exact h.sent _
  · refine (Side.forall_iff side).mpr ⟨?_, ?_⟩
    · cases wire with
      | none => exact h.bound side
      | some w =>
        obtain ⟨n, -, hlt, -, -, -⟩ := hspec.cell w rfl
        rw [h.sent side] at hlt
        have hlen : ((N.send side cfx' x (some w)).log side).length = (N.log side).length + 1 := by
          simp [Network.send]
        omega
    · rw [hlogOther]
      exact h.bound _
  · refine (Side.forall_iff side).mpr ⟨?_, ?_⟩
    · cases wire with
      | none =>
        have hsame : (N.send side cfx' x none).stream side = N.stream side := by
          simp only [Network.stream, streamOf, send_ends, send_out, Function.update_self,
            Function.update_of_ne side.other_ne, (hspec.nothing rfl).1]
          rfl
        rw [hsame]
        exact h.stream side
      | some w =>
        obtain ⟨n, hn, -, hsent, -, hswitch⟩ := hspec.cell w rfl
        have hmax := h.sent side
        rw [send_stream hsent hmax]
        refine ⟨(h.stream side).1.send hn (h.view_ne_none ?_) x ?_, (h.stream side).2⟩
        · intro hnone
          rw [receivedOn_eq_none_iff, ← sentOn_eq_none_iff, hn] at hnone
          exact absurd hnone (by simp)
        · rcases hswitch with ⟨hw, heq⟩ | ⟨k, hw, heq⟩
          · exact .inl ⟨by simp [hw], heq.trans hmax⟩
          · exact .inr ⟨k, by simp [hw], heq.trans hmax⟩
    · rw [send_stream_other hspec]
      exact h.stream _
  · intro c
    have hrecv : ∀ t, receivedOn ((N.send side cfx' x wire).ends t).cfx = receivedOn (N.ends t).cfx := by
      rw [send_ends]
      refine (Side.forall_iff side).mpr ⟨?_, ?_⟩
      · rw [Function.update_self]
        exact hspec.received
      · rw [Function.update_of_ne side.other_ne]
    have hlegs : ((N.send side cfx' x wire).ends .client).legs = (N.ends .client).legs := by
      rw [send_ends]
      rcases side.eq_or_other .client with rfl | heq
      · rw [Function.update_self]
      · rw [heq, Function.update_of_ne side.other_ne]
    have hphase := h.phase c
    unfold Network.Phase at hphase ⊢
    rw [hrecv, hrecv, hlegs]
    cases wire with
    | none => exact hphase
    | some w =>
      obtain ⟨n, hn, -⟩ := hspec.cell w rfl
      by_cases hc : c = w.circ
      · subst hc
        have hsome : receivedOn (N.ends side).cfx w.circ ≠ none := by
          rw [Ne, receivedOn_eq_none_iff, ← sentOn_eq_none_iff, hn]
          simp
        have hms : ∀ m ∈ (w.switchCell.toList.map fun k => Message.carried (κ := κ) (.skip k)) ++
            [.carried (.item x)], m.IsCarried := by
          cases w.switchCell <;> simp [Message.IsCarried]
        cases side with
        | client =>
          have hpush := hphase.push_exit hsome ((h.ends .client).notMem_legs hsome)
            fun m hm => .inr (hms m hm)
          simpa [Network.send, Side.other] using hpush
        | exit =>
          have hpush := hphase.push_client hsome hms
          simpa [Network.send, Side.other] using hpush
      · cases side <;> simpa [Network.send, Side.other, Function.update_of_ne hc] using hphase

/-! ### Receiving -/

theorem confluxGetMaxSeqSent_congr {cfx cfx' : Conflux κ} (h : cfx'.sent = cfx.sent) :
    confluxGetMaxSeqSent cfx' = confluxGetMaxSeqSent cfx := by
  have hle : ∀ {a b : Conflux κ}, a.sent = b.sent → confluxGetMaxSeqSent a ≤ confluxGetMaxSeqSent b := by
    intro a b hab
    refine confluxGetMaxSeqSent_le_iff.mpr fun leg hleg => ?_
    obtain ⟨leg', hleg', -, heq⟩ := exists_of_mem_sent (hab ▸ mem_sent_of_mem hleg)
    exact heq ▸ le_confluxGetMaxSeqSent hleg'
  exact le_antisymm (hle h) (hle h.symm)

theorem ReceiveSpec.circs {cfx cfx' : Conflux κ} {r : ℕ} (h : ReceiveSpec cfx cfx' c r) :
    cfx'.legs.map ConfluxLeg.circ = cfx.legs.map ConfluxLeg.circ := by
  rw [← map_fst_sent, h.sent, map_fst_sent]

/-- A network after the first cell of a leg has come in at a side: the set of the side has moved,
the cell is gone. -/
structure Arrived (N N' : Network κ) (side : Side) (c : Circ) (r : ℕ) (m : LegCell κ)
    (q : List (Message κ)) (cfx' : Conflux κ) : Prop where
  head : N.queue side c = .carried m :: q
  ends : N'.ends = Function.update N.ends side { N.ends side with cfx := cfx' }
  queue : N'.queue = Function.update N.queue side (Function.update (N.queue side) c q)
  log : N'.log = N.log
  out : N'.out side.other = N.out side.other
  spec : ReceiveSpec (N.ends side).cfx cfx' c r

section Arrived

variable {N' : Network κ} {r : ℕ} {m : LegCell κ} {cfx' : Conflux κ}

theorem Arrived.stream_self (ha : Arrived N N' side c r m q cfx') :
    N'.stream side = N.stream side := by
  simp only [Network.stream, ha.ends, ha.queue, ha.log, ha.out, Function.update_self,
    Function.update_of_ne side.other_ne, streamOf, ha.spec.sentOn]

theorem Arrived.stream_other (ha : Arrived N N' side c r m q cfx') :
    N'.stream side.other =
      { N.stream side.other with
        recv := Function.update (N.stream side.other).recv c (some r)
        inq := Function.update (N.stream side.other).inq c (carriedOf q)
        held := heldOf cfx'.oooQ
        delivered := cfx'.lastSeqDelivered
        out := N'.out side } := by
  simp only [Network.stream, Side.other_other, ha.ends, ha.queue, ha.log, Function.update_self,
    Function.update_of_ne side.other_ne, streamOf, Chan.mk.injEq, true_and, and_true]
  constructor
  · funext d
    by_cases hd : d = c
    · subst hd
      rw [Function.update_self]
      exact viewOf_of_received (by rw [ha.spec.received, Function.update_self])
    · simp only [viewOf, ha.spec.received, Function.update_of_ne hd]
  · funext d
    by_cases hd : d = c
    · subst hd
      simp only [Function.update_self]
    · simp only [Function.update_of_ne hd]

theorem Arrived.phase (ha : Arrived N N' side c r m q cfx') (h : NetInv N)
    (hr : receivedOn (N.ends side).cfx c ≠ none) (d : Circ) : N'.Phase d := by
  have hphase := h.phase d
  have hlegs : (N'.ends .client).legs = (N.ends .client).legs := by
    rw [ha.ends]
    rcases side.eq_or_other .client with rfl | heq
    · rw [Function.update_self]
    · rw [heq, Function.update_of_ne side.other_ne]
  unfold Network.Phase at hphase ⊢
  rw [hlegs, ha.ends, ha.queue]
  by_cases hd : d = c
  · subst hd
    have hnew : receivedOn cfx' d ≠ none := by
      rw [ha.spec.received, Function.update_self]
      simp
    cases side with
    | client =>
      obtain ⟨her, hp, hq⟩ := hphase.joined_of_client hr ((h.ends .client).notMem_legs hr)
      have hq' : ∀ m ∈ q, m.IsCarried := fun m hm => hq m (ha.head ▸ List.mem_cons_of_mem _ hm)
      simpa using LegPhase.joined hnew her hp hq'
    | exit =>
      rw [ha.head] at hphase
      have hjoined : receivedOn (N.ends .client).cfx d ≠ none ∧
          (∀ m ∈ q, m.IsAck ∨ m.IsCarried) ∧ ∀ m ∈ N.queue .client d, m.IsCarried := by
        cases hphase with
        | waiting _ _ _ _ hp _ => exact (hp _ List.mem_cons_self).elim
        | joined hcr _ hp hq => exact ⟨hcr, fun m hm => hp m (List.mem_cons_of_mem _ hm), hq⟩
      simpa using LegPhase.joined hjoined.1 hnew hjoined.2.1 hjoined.2.2
  · have hsame : receivedOn cfx' d = receivedOn (N.ends side).cfx d := by
      rw [ha.spec.received, Function.update_of_ne hd]
    cases side <;> simpa [Function.update_of_ne hd, hsame] using hphase

theorem Arrived.netInv (ha : Arrived N N' side c r m q cfx') (h : NetInv N)
    (hr : receivedOn (N.ends side).cfx c ≠ none)
    (hstream : (N'.stream side.other).Inv ∧ (N'.stream side.other).Settled) : NetInv N' := by
  refine ⟨?_, ?_, ?_, ?_, ?_, ?_, ha.phase h hr⟩
  · rw [ha.ends]
    refine (Side.forall_iff side).mpr ⟨?_, ?_⟩
    · rw [Function.update_self]
      refine ⟨?_, (h.ends side).set.congr ha.spec.sent ha.spec.curr ha.spec.alg ha.spec.down⟩
      simpa only [SendState.circs, ha.spec.circs] using (h.ends side).nodup
    · rw [Function.update_of_ne side.other_ne]
      exact h.ends _
  · rw [ha.ends]
    refine (Side.forall_iff side).mpr ⟨?_, ?_⟩
    · rw [Function.update_self]
      exact ha.spec.down.trans (h.notDown side)
    · rw [Function.update_of_ne side.other_ne]
      exact h.notDown _
  · rw [ha.ends]
    rcases side.eq_or_other .exit with rfl | heq
    · rw [Function.update_self]
      exact h.exitLegs
    · rw [heq, Function.update_of_ne side.other_ne, ← heq]
      exact h.exitLegs
  · rw [ha.ends, ha.log]
    refine (Side.forall_iff side).mpr ⟨?_, ?_⟩
    · rw [Function.update_self]
      exact (confluxGetMaxSeqSent_congr ha.spec.sent).trans (h.sent side)
    · rw [Function.update_of_ne side.other_ne]
      exact h.sent _
  · rw [ha.log]
    exact h.bound
  · refine (Side.forall_iff side).mpr ⟨?_, hstream⟩
    rw [ha.stream_self]
    exact h.stream side

end Arrived

theorem u64_natCast {n : ℕ} (h : n ≤ uint64Max) : u64 (n : ℤ) = n :=
  wrap_natCast (by simp only [uint64Max] at h; omega)

theorem netInv_arrive (h : NetInv N) {cell : LegCell κ} (hhead : N.queue side c = .carried cell :: q)
    (hr : receivedOn (N.ends side).cfx c ≠ none) :
    NetInv ((N.setQueue side c q).arrive side c cell) := by
  obtain ⟨r, hrecv⟩ := Option.ne_none_iff_exists'.mp hr
  obtain ⟨hinv, hset⟩ := h.stream side.other
  have hview : (N.stream side.other).recv c = some r := by
    simp only [Network.stream, streamOf, Side.other_other]
    exact viewOf_of_received hrecv
  have hinq : (N.stream side.other).inq c = cell :: carriedOf q := by
    simp only [Network.stream, streamOf, Side.other_other, hhead, carriedOf]
  have hbound := h.bound side.other
  cases cell with
  | skip k =>
    obtain ⟨leg, hleg, rfl⟩ := Option.map_eq_some_iff.mp hrecv
    have hlen := (hinv.skip_entry hview hinq).2.1
    have hlen' : leg.lastSeqRecv + k < (N.log side.other).length := hlen
    have hnum : u64 ((leg.lastSeqRecv : ℤ) + k) = leg.lastSeqRecv + k := by
      have hcast : ((leg.lastSeqRecv : ℤ) + k) = ((leg.lastSeqRecv + k : ℕ) : ℤ) := by
        push_cast
        rfl
      rw [hcast]
      exact u64_natCast (by omega)
    have ha : Arrived N ((N.setQueue side c q).arrive side c (.skip k)) side c
        (leg.lastSeqRecv + k) (.skip k) q
        (confluxProcessSwitchCommand (N.ends side).cfx c k) := by
      refine ⟨hhead, rfl, rfl, rfl, rfl, ?_⟩
      exact receiveSpec_of_updateLeg hleg
        (f := fun leg => { leg with lastSeqRecv := u64 (leg.lastSeqRecv + k) })
        (fun _ => rfl) (fun _ => rfl) hnum rfl
    refine ha.netInv h hr ?_
    have hsame : ((N.setQueue side c q).arrive side c (.skip k)).stream side.other
        = (N.stream side.other).arriveSkip c (leg.lastSeqRecv + k) (carriedOf q) := by
      rw [ha.stream_other]
      simp [Chan.arriveSkip, Network.arrive, Network.stream, streamOf, confluxProcessSwitchCommand]
    rw [hsame]
    exact ⟨hinv.arriveSkip hview hinq, hset⟩
  | item x =>
    have hat₀ : AtReceiver (N.stream side.other) (N.ends side).cfx := by
      constructor <;> simp [Network.stream, streamOf]
    obtain ⟨ch', hinv', hset', hat, hch, hspec⟩ :=
      processRelayCell_spec hinv hset hat₀ hview hrecv hinq hbound
    have ha : Arrived N ((N.setQueue side c q).arrive side c (.item x)) side c (r + 1) (.item x) q
        (processRelayCell (N.ends side).cfx c x).1 := by
      refine ⟨hhead, rfl, rfl, rfl, ?_, hspec⟩
      simp [Network.arrive]
    refine ha.netInv h hr ?_
    have hsame : ((N.setQueue side c q).arrive side c (.item x)).stream side.other = ch' := by
      rw [ha.stream_other, hch, hat.held, hat.delivered]
      simp [Network.arrive, Network.stream, streamOf]
    rw [hsame]
    exact ⟨hinv', hset'⟩

theorem netInv_updateRtt (h : NetInv N) (side : Side) (c : Circ) (rttUsec : ℕ) :
    NetInv (N.setEnd side
      { N.ends side with cfx := confluxUpdateRtt (N.ends side).cfx c rttUsec }) := by
  set cfx' := confluxUpdateRtt (N.ends side).cfx c rttUsec with hcfx'
  set N' := N.setEnd side { N.ends side with cfx := cfx' } with hN'
  have hsent : cfx'.sent = (N.ends side).cfx.sent := sent_updateLeg fun _ => ⟨rfl, rfl⟩
  have hson : sentOn cfx' = sentOn (N.ends side).cfx :=
    sentOn_updateLeg _ c (fun _ => rfl) fun _ => rfl
  have hrecv : receivedOn cfx' = receivedOn (N.ends side).cfx :=
    receivedOn_updateLeg _ c (fun _ => rfl) fun _ => rfl
  have hcircs : cfx'.legs.map ConfluxLeg.circ = (N.ends side).cfx.legs.map ConfluxLeg.circ :=
    map_circ_updateLeg fun _ => rfl
  -- what holds of an end and is about these alone holds of the new one
  have hkeep : ∀ {P : SendState κ → Prop} (t : Side), P (N.ends t) →
      (P (N.ends side) → P { N.ends side with cfx := cfx' }) → P (N'.ends t) := by
    intro P t hP hstep
    rcases side.eq_or_other t with rfl | rfl
    · simpa [hN'] using hstep hP
    · simpa [hN'] using hP
  have hview : ∀ t q, viewOf (N'.ends t) q = viewOf (N.ends t) q := fun t q =>
    hkeep (P := fun s => viewOf s q = viewOf (N.ends t) q) t rfl fun hs => by
      rw [← hs]
      funext d
      simp only [viewOf, hrecv]
  have hstream : ∀ t, N'.stream t = N.stream t := by
    intro t
    have hs : sentOn (N'.ends t).cfx = sentOn (N.ends t).cfx :=
      hkeep (P := fun s => sentOn s.cfx = sentOn (N.ends t).cfx) t rfl fun hs => hson.trans hs
    have hq : (N'.ends t.other).cfx.oooQ = (N.ends t.other).cfx.oooQ :=
      hkeep (P := fun s => s.cfx.oooQ = (N.ends t.other).cfx.oooQ) t.other rfl id
    have hd : (N'.ends t.other).cfx.lastSeqDelivered = (N.ends t.other).cfx.lastSeqDelivered :=
      hkeep (P := fun s => s.cfx.lastSeqDelivered = (N.ends t.other).cfx.lastSeqDelivered)
        t.other rfl id
    simp only [Network.stream, streamOf, hs, hq, hd, hview]
    rfl
  refine ⟨fun t => ?_, fun t => ?_, ?_, fun t => ?_, h.bound, fun t => ?_, fun d => ?_⟩
  · refine hkeep t (h.ends t) fun hend => ⟨?_, hend.set.congr hsent rfl rfl rfl⟩
    simpa only [SendState.circs, hcircs] using hend.nodup
  · exact hkeep (P := fun s => s.cfx.inFullTeardown = false) t (h.notDown t) id
  · exact hkeep (P := fun s => s.legs = []) .exit h.exitLegs id
  · exact hkeep (P := fun s => confluxGetMaxSeqSent s.cfx = (N.log t).length) t (h.sent t)
      fun hmax => (confluxGetMaxSeqSent_congr hsent).trans hmax
  · rw [hstream]
    exact h.stream t
  · have hphase := h.phase d
    have hlegs : (N'.ends .client).legs = (N.ends .client).legs :=
      hkeep (P := fun s => s.legs = (N.ends .client).legs) .client rfl id
    have hr : ∀ t, receivedOn (N'.ends t).cfx = receivedOn (N.ends t).cfx := fun t =>
      hkeep (P := fun s => receivedOn s.cfx = receivedOn (N.ends t).cfx) t rfl fun hs => hrecv.trans hs
    unfold Network.Phase at hphase ⊢
    rw [hlegs, hr, hr]
    exact hphase

theorem netInv_setQueue (h : NetInv N) {q : List (Message κ)}
    (hview : viewOf (N.ends side) (Function.update (N.queue side) c q) c
      = viewOf (N.ends side) (N.queue side) c)
    (hcarried : carriedOf q = carriedOf (N.queue side c))
    (hphase : (N.setQueue side c q).Phase c) : NetInv (N.setQueue side c q) := by
  refine ⟨h.ends, h.notDown, h.exitLegs, h.sent, h.bound, ?_, fun d => ?_⟩
  · refine (Side.forall_iff side).mpr ⟨?_, ?_⟩
    · have hsame : (N.setQueue side c q).stream side = N.stream side := by
        simp only [Network.stream, Network.setQueue_queue, Function.update_of_ne side.other_ne,
          Network.setQueue_ends, Network.setQueue_log, Network.setQueue_out]
      rw [hsame]
      exact h.stream side
    · have hsame : (N.setQueue side c q).stream side.other = N.stream side.other := by
        simp only [Network.stream, Side.other_other, Network.setQueue_queue, Function.update_self,
          Network.setQueue_ends, Network.setQueue_log, Network.setQueue_out, streamOf,
          Chan.mk.injEq, true_and, and_true]
        constructor
        · funext d
          by_cases hd : d = c
          · exact hd ▸ hview
          · simp only [viewOf, Function.update_of_ne hd]
        · funext d
          by_cases hd : d = c
          · subst hd
            rw [Function.update_self, hcarried]
          · rw [Function.update_of_ne hd]
      rw [hsame]
      exact h.stream side.other
  · by_cases hd : d = c
    · exact hd ▸ hphase
    · have hold := h.phase d
      unfold Network.Phase at hold ⊢
      cases side <;> simpa [Function.update_of_ne hd] using hold

theorem LegPhase.pop_ack (h : LegPhase legs cr er c (.linkedAck :: p) q) :
    er ≠ none ∧ LegPhase legs cr er c p q := by
  cases h with
  | waiting hleg hc hl hr hp hq =>
    exact ⟨by simp [hr], .waiting hleg hc hl hr (fun m hm => hp m (List.mem_cons_of_mem _ hm)) hq⟩
  | joined hcr her hp hq =>
    exact ⟨her, .joined hcr her (fun m hm => hp m (List.mem_cons_of_mem _ hm)) hq⟩

theorem netInv_ack (h : NetInv N) (hhead : N.queue .exit c = .linkedAck :: p) :
    NetInv (N.setQueue .exit c p) := by
  have hphase := h.phase c
  unfold Network.Phase at hphase
  rw [hhead] at hphase
  obtain ⟨her, hpop⟩ := hphase.pop_ack
  obtain ⟨r, hr⟩ := Option.ne_none_iff_exists'.mp her
  refine netInv_setQueue h ?_ ?_ ?_
  · rw [viewOf_of_received hr, viewOf_of_received hr]
  · rw [hhead]
    rfl
  · simpa [Network.Phase] using hpop

theorem LegPhase.congr_legs (h : LegPhase legs cr er c p q) (legs' : List Leg)
    (hlegs : ∀ leg, leg.circ = c → (leg ∈ legs ↔ leg ∈ legs')) : LegPhase legs' cr er c p q := by
  cases h with
  | unused hno hcr her =>
    refine .unused (fun hmem => hno ?_) hcr her
    obtain ⟨leg, hleg, hc⟩ := List.mem_map.mp hmem
    exact List.mem_map.mpr ⟨leg, (hlegs leg hc).mpr hleg, hc⟩
  | asked hleg hc hl her => exact .asked ((hlegs _ hc).mp hleg) hc hl her
  | refused hleg hc hl her => exact .refused ((hlegs _ hc).mp hleg) hc hl her
  | answered hleg hc hl her hq => exact .answered ((hlegs _ hc).mp hleg) hc hl her hq
  | waiting hleg hc hl her hp hq => exact .waiting ((hlegs _ hc).mp hleg) hc hl her hp hq
  | joined hcr her hp hq => exact .joined hcr her hp hq

theorem netInv_launch (h : NetInv N) {circ : Circ} (hnew : circ ∉ (N.ends .client).circs)
    (now : ℕ) (desiredUx : UInt8) : NetInv (confluxLaunchLeg N circ now desiredUx) := by
  set leg : Leg :=
    legNew circ (confluxCellNewLink (N.ends .client).cfx desiredUx) false now with hleg
  set N' := confluxLaunchLeg N circ now desiredUx with hN'
  have hends : N'.ends = Function.update N.ends .client
      { N.ends .client with legs := (N.ends .client).legs ++ [leg] } := rfl
  have hexit : N'.ends .exit = N.ends .exit := by simp [hends]
  have hclient : N'.ends .client = { N.ends .client with legs := (N.ends .client).legs ++ [leg] } := by
    simp [hends]
  have hcfx : ∀ t, (N'.ends t).cfx = (N.ends t).cfx := by
    intro t
    cases t with
    | client => rw [hclient]
    | exit => rw [hexit]
  have hqueue : N'.queue = Function.update N.queue .exit
      (Function.update (N.queue .exit) circ (N.queue .exit circ ++ [.link leg.link])) := rfl
  obtain ⟨hset, hwait⟩ : circ ∉ (N.ends .client).cfx.legs.map ConfluxLeg.circ ∧
      circ ∉ (N.ends .client).legs.map Leg.circ := by
    simpa [SendState.circs] using hnew
  -- nothing has ever been on the circuit
  have hunused : N.queue .exit circ = [] ∧ N.queue .client circ = [] ∧
      receivedOn (N.ends .exit).cfx circ = none := by
    have hphase := h.phase circ
    unfold Network.Phase at hphase
    generalize N.queue .exit circ = p, N.queue .client circ = q at hphase ⊢
    cases hphase with
    | unused _ _ her => exact ⟨rfl, rfl, her⟩
    | joined hcr => exact absurd (receivedOn_eq_none_iff.mpr hset) hcr
    | asked hl hc | refused hl hc | answered hl hc | waiting hl hc =>
      exact absurd (hc ▸ List.mem_map_of_mem hl) hwait
  have hstream : ∀ t, N'.stream t = N.stream t := by
    intro t
    cases t with
    | client =>
      simp only [Network.stream, streamOf, Side.other, hcfx, Chan.mk.injEq, true_and]
      refine ⟨rfl, ?_, ?_, rfl⟩
      · funext d
        simp only [viewOf, hexit]
        congr 2
        by_cases hd : d = circ
        · subst hd
          simp [hqueue, hunused.1, linkedNumber]
        · simp [hqueue, Function.update_of_ne hd]
      · funext d
        by_cases hd : d = circ
        · subst hd
          simp [hqueue, carriedOf]
        · simp [hqueue, Function.update_of_ne hd]
    | exit =>
      have hpend : ∀ d, pendingNumber ((N.ends .client).legs ++ [leg]) d
          = pendingNumber (N.ends .client).legs d := by
        intro d
        have hno : [leg].find? (fun l => decide (l.circ = d) && l.linked) = none := by
          simp [hleg, legNew]
        simp only [pendingNumber, List.find?_append, hno, Option.or_none]
      have hq : N'.queue .client = N.queue .client := by simp [hqueue]
      simp only [Network.stream, streamOf, Side.other, hcfx, hq, Chan.mk.injEq, true_and]
      refine ⟨rfl, ?_, rfl⟩
      funext d
      simp only [viewOf, hclient, hpend]
  refine ⟨fun t => ?_, fun t => ?_, ?_, fun t => ?_, h.bound, fun t => ?_, fun d => ?_⟩
  · cases t with
    | client =>
      rw [hclient]
      refine ⟨?_, (h.ends .client).set⟩
      simp only [SendState.circs, List.map_append, ← List.append_assoc]
      refine List.nodup_append.mpr ⟨(h.ends .client).nodup, by simp, fun c hc d hd => ?_⟩
      obtain rfl : d = circ := by simpa [hleg, legNew] using hd
      rintro rfl
      exact hnew hc
    | exit => exact hexit ▸ h.ends .exit
  · rw [hcfx]
    exact h.notDown t
  · rw [hexit]
    exact h.exitLegs
  · rw [hcfx]
    exact h.sent t
  · rw [hstream]
    exact h.stream t
  · have hphase := h.phase d
    unfold Network.Phase at hphase ⊢
    rw [hcfx, hcfx, hclient]
    by_cases hd : d = circ
    · subst hd
      have hasked : LegPhase ((N.ends .client).legs ++ [leg]) (receivedOn (N.ends .client).cfx d)
          (receivedOn (N.ends .exit).cfx d) d [.link leg.link] (κ := κ) [] :=
        .asked (by simp) rfl rfl hunused.2.2
      simpa [hqueue, hunused.1, hunused.2.1] using hasked
    · have hsame := hphase.congr_legs ((N.ends .client).legs ++ [leg]) fun l hl => by
        have hne : l ≠ leg := by
          rintro rfl
          exact hd hl.symm
        simp [hne]
      simpa [hqueue, Function.update_of_ne hd] using hsame

/-! ### The exit links a leg -/

theorem LegPhase.of_link {link : ConfluxCellLink} (h : LegPhase legs cr er c (.link link :: p) q) :
    p = [] ∧ q = [] ∧ er = none ∧ ∃ leg ∈ legs, leg.circ = c ∧ leg.linked = false := by
  cases h with
  | asked hleg hc hl her => exact ⟨rfl, rfl, her, _, hleg, hc, hl⟩
  | waiting _ _ _ _ hp _ => exact (hp _ List.mem_cons_self).elim
  | joined _ _ hp _ => exact ((hp _ List.mem_cons_self).elim id id).elim

theorem finalize_cases {s s' : SendState κ} (h : s.finalize maxLegsSet = some s') :
    s' = s ∨ (validateUnlinkedLegs s.unlinked = false) ∨
      ∃ cfx, tryFinalizeSet maxLegsSet s.unlinked = some (.linked cfx) ∧ s' = ⟨cfx, [], true⟩ := by
  obtain ⟨fin, hfin, rfl⟩ := Option.map_eq_some_iff.mp h
  cases fin with
  | missingLeg | tooManyLegs | waiting => exact .inl rfl
  | notValid =>
    refine .inr (.inl ?_)
    unfold tryFinalizeSet at hfin
    split_ifs at hfin with h1 h2 h3
    · simp at hfin
    · simp at hfin
    · simpa using h3
    · simp at hfin
    · simp at hfin
  | linked cfx => exact .inr (.inr ⟨cfx, hfin, rfl⟩)

theorem confluxGetLeg_append {cfx cfx' : Conflux κ} {new : List ConfluxLeg}
    (h : cfx'.legs = cfx.legs ++ new) (d : Circ) :
    confluxGetLeg cfx' d = (confluxGetLeg cfx d).or (new.find? (·.circ = d)) := by
  rw [confluxGetLeg, h, List.find?_append, confluxGetLeg]

theorem netInv_linkRefused (h : NetInv N) {link : ConfluxCellLink}
    (hhead : N.queue .exit c = .link link :: q) : NetInv (N.setQueue .exit c q) := by
  have hphase := h.phase c
  unfold Network.Phase at hphase
  rw [hhead] at hphase
  obtain ⟨rfl, hclient, her, leg, hleg, hc, hl⟩ := hphase.of_link
  refine netInv_setQueue h ?_ ?_ ?_
  · simp [viewOf, hhead, linkedNumber]
  · rw [hhead]
    rfl
  · have hrefused : LegPhase (N.ends .client).legs (receivedOn (N.ends .client).cfx c)
        (receivedOn (N.ends .exit).cfx c) c ([] : List (Message κ)) [] := .refused hleg hc hl her
    simpa [Network.Phase, hclient] using hrefused

theorem counters_append {cfx cfx' : Conflux κ} {leg : ConfluxLeg} (h : cfx'.legs = cfx.legs ++ [leg])
    (hnew : leg.circ ∉ cfx.legs.map ConfluxLeg.circ) :
    sentOn cfx' = Function.update (sentOn cfx) leg.circ (some leg.lastSeqSent) ∧
      receivedOn cfx' = Function.update (receivedOn cfx) leg.circ (some leg.lastSeqRecv) := by
  have hget : ∀ {α : Type} (g : ConfluxLeg → α), (fun d => (confluxGetLeg cfx' d).map g)
      = Function.update (fun d => (confluxGetLeg cfx d).map g) leg.circ (some (g leg)) := by
    intro α g
    funext d
    rw [confluxGetLeg_append h]
    by_cases hd : d = leg.circ
    · subst hd
      have hnone : confluxGetLeg cfx leg.circ = none := by
        simpa [confluxGetLeg] using hnew
      simp [hnone]
    · have hno : [leg].find? (fun l => decide (l.circ = d)) = none := by simp [Ne.symm hd]
      rw [hno, Option.or_none, Function.update_of_ne hd]
  exact ⟨hget _, hget _⟩

theorem netInv_linkAccepted (h : NetInv N) {link : ConfluxCellLink}
    (hhead : N.queue .exit c = .link link :: []) {now : ℕ} {cfx : Conflux κ} {ux : UInt8}
    (hsent : link.lastSeqnoSent = (N.ends .exit).cfx.lastSeqDelivered)
    (hrecv : link.lastSeqnoRecv = confluxGetMaxSeqSent (N.ends .exit).cfx)
    (hlegs : cfx.legs = (N.ends .exit).cfx.legs ++ [(legNew c link true now).toConfluxLeg])
    (hq : cfx.oooQ = (N.ends .exit).cfx.oooQ)
    (hd : cfx.lastSeqDelivered = (N.ends .exit).cfx.lastSeqDelivered)
    (hdown : cfx.inFullTeardown = (N.ends .exit).cfx.inFullTeardown)
    (hend : EndInv (⟨cfx, [], true⟩ : SendState κ)) :
    NetInv (((N.setQueue .exit c []).setEnd .exit ⟨cfx, [], true⟩).push .client c
      [.linked (confluxCellNewLink (N.ends .exit).cfx ux)]) := by
  have hphase := h.phase c
  unfold Network.Phase at hphase
  rw [hhead] at hphase
  obtain ⟨-, hclientq, her, leg, hleg, hlegc, hl⟩ := hphase.of_link
  have hnotin : c ∉ (N.ends .exit).cfx.legs.map ConfluxLeg.circ := receivedOn_eq_none_iff.mp her
  have hclient : receivedOn (N.ends .client).cfx c = none := by
    by_contra hne
    exact (h.ends .client).notMem_legs hne (hlegc ▸ List.mem_map_of_mem hleg)
  have hclientSent : sentOn (N.ends .client).cfx c = none := by
    rwa [sentOn_eq_none_iff, ← receivedOn_eq_none_iff]
  have hpend : pendingNumber (N.ends .client).legs c = none := by
    rw [← hlegc, pendingNumber_of_mem (List.nodup_append.mp (h.ends .client).nodup).2.1 hleg, hl]
    rfl
  obtain ⟨hcfxSent, hcfxRecv⟩ := counters_append hlegs hnotin
  set l' := confluxCellNewLink (N.ends .exit).cfx ux with hl'
  set N' := ((N.setQueue .exit c []).setEnd .exit ⟨cfx, [], true⟩).push .client c [.linked l']
    with hN'
  have hexit : N'.ends .exit = ⟨cfx, [], true⟩ := by simp [hN']
  have hclientEnd : N'.ends .client = N.ends .client := by simp [hN']
  have hqExit : N'.queue .exit = Function.update (N.queue .exit) c [] := by simp [hN']
  have hqClient : N'.queue .client = Function.update (N.queue .client) c [.linked l'] := by
    simp [hN', hclientq]
  have hT := h.sent .exit
  -- the stream to the exit begins on the leg at what the exit has delivered
  have hstreamClient : N'.stream .client = (N.stream .client).openPath c link.lastSeqnoSent none := by
    simp only [Network.stream, Side.other, hexit, hclientEnd, hqExit, streamOf, Chan.openPath, hq, hd,
      Chan.mk.injEq, true_and]
    refine ⟨rfl, ?_, ?_, ?_, rfl⟩
    · rw [← hclientSent, Function.update_eq_self]
    · funext d
      by_cases hdc : d = c
      · subst hdc
        rw [Function.update_self]
        exact viewOf_of_received (by rw [hcfxRecv]; exact Function.update_self ..)
      · have hother : receivedOn cfx d = receivedOn (N.ends .exit).cfx d := by
          rw [hcfxRecv]
          exact Function.update_of_ne hdc ..
        simp only [viewOf, hother, h.exitLegs, Function.update_of_ne hdc]
    · funext d
      by_cases hdc : d = c
      · subst hdc
        simp [hhead, carriedOf]
      · simp [Function.update_of_ne hdc]
  -- the stream from the exit at what the exit has sent
  have hstreamExit : N'.stream .exit = (N.stream .exit).openPath c
      (confluxGetMaxSeqSent (N.ends .exit).cfx) (some (confluxGetMaxSeqSent (N.ends .exit).cfx)) := by
    simp only [Network.stream, Side.other, hexit, hclientEnd, hqClient, streamOf, Chan.openPath,
      Chan.mk.injEq, true_and]
    refine ⟨rfl, ?_, ?_, ?_, rfl⟩
    · rw [hcfxSent, ← hrecv]
      rfl
    · funext d
      by_cases hdc : d = c
      · subst hdc
        simp [viewOf, hclient, hpend, linkedNumber, hl', confluxCellNewLink]
      · simp only [viewOf, Function.update_of_ne hdc]
    · funext d
      by_cases hdc : d = c
      · subst hdc
        simp [hclientq, carriedOf]
      · simp [Function.update_of_ne hdc]
  refine ⟨fun t => ?_, fun t => ?_, by rw [hexit], fun t => ?_, h.bound, fun t => ?_, fun d => ?_⟩
  · cases t with
    | client => exact hclientEnd ▸ h.ends .client
    | exit => exact hexit ▸ hend
  · cases t with
    | client => exact hclientEnd ▸ h.notDown .client
    | exit =>
      rw [hexit]
      exact hdown.trans (h.notDown .exit)
  · cases t with
    | client => exact hclientEnd ▸ h.sent .client
    | exit =>
      rw [hexit]
      refine Eq.trans (confluxGetMaxSeqSent_eq ?_ ?_) hT
      · intro l hl
        rw [hlegs] at hl
        rcases List.mem_append.mp hl with hold | hnew
        · exact le_confluxGetMaxSeqSent hold
        · rw [List.mem_singleton.mp hnew]
          exact hrecv.le
      · exact .inr ⟨_, by rw [hlegs]; exact List.mem_append_right _ (List.mem_singleton_self _), hrecv⟩
  · cases t with
    | client =>
      rw [hstreamClient]
      obtain ⟨hinv, hset⟩ := h.stream .client
      refine ⟨hinv.openPath ?_ ?_ rfl, hset⟩
      · simp [Network.stream, streamOf, Side.other, viewOf, her, h.exitLegs, pendingNumber, hhead,
          linkedNumber]
      · rw [hsent]
        exact hinv.delivered_le
    | exit =>
      rw [hstreamExit]
      obtain ⟨hinv, hset⟩ := h.stream .exit
      refine ⟨hinv.openPath ?_ hT.le rfl, hset⟩
      simp [Network.stream, streamOf, Side.other, viewOf, hclient, hpend, hclientq, linkedNumber]
  · have hold := h.phase d
    unfold Network.Phase at hold ⊢
    rw [hexit, hclientEnd, hqExit, hqClient]
    by_cases hdc : d = c
    · subst hdc
      rw [Function.update_self, Function.update_self]
      refine .answered hleg hlegc hl ?_ (by simp)
      rw [hcfxRecv]
      exact (Function.update_self ..).trans (congrArg some hsent)
    · rw [Function.update_of_ne hdc, Function.update_of_ne hdc]
      have hother : receivedOn cfx d = receivedOn (N.ends .exit).cfx d := by
        rw [hcfxRecv]
        exact Function.update_of_ne hdc ..
      simpa only [hother] using hold

theorem netInv_processLink (h : NetInv N) {link : ConfluxCellLink}
    (hhead : N.queue .exit c = .link link :: q) {now : ℕ} {N' : Network κ}
    (hsent : link.lastSeqnoSent = (N.ends .exit).cfx.lastSeqDelivered)
    (hrecv : link.lastSeqnoRecv = confluxGetMaxSeqSent (N.ends .exit).cfx)
    (hstep : confluxProcessLink maxLegsSet (N.setQueue .exit c q) c link now = some N') :
    NetInv N' := by
  have hphase := h.phase c
  unfold Network.Phase at hphase
  rw [hhead] at hphase
  obtain ⟨rfl, hclientq, her, leg, hleg, hlegc, hl⟩ := hphase.of_link
  have hnotin : c ∉ (N.ends .exit).cfx.legs.map ConfluxLeg.circ := receivedOn_eq_none_iff.mp her
  have hclient : receivedOn (N.ends .client).cfx c = none := by
    by_contra hne
    exact (h.ends .client).notMem_legs hne (hlegc ▸ List.mem_map_of_mem hleg)
  set new := legNew c link true now with hnew
  obtain ⟨exit', hfin, rfl⟩ := Option.map_eq_some_iff.mp hstep
  have hlegs : (N.ends .exit).legs = [] := h.exitLegs
  simp only [Network.setQueue_ends] at hfin hstep ⊢
  rw [hlegs, List.nil_append, ← hnew] at hfin
  rcases finalize_cases hfin with rfl | hvalid | ⟨cfx, hlinked, rfl⟩
  · -- refused: the circuit is closed and the leg is gone
    rw [if_neg hnotin]
    have hsame : (N.setQueue .exit c []).setEnd .exit
        { { N.ends .exit with legs := [new] } with legs := [new].filter (·.circ ≠ c) }
        = N.setQueue .exit c [] := by
      have hfilter : [new].filter (·.circ ≠ c) = [] := by simp [hnew, legNew]
      rw [hfilter, ← hlegs, Network.setEnd, Network.setQueue]
      simp only [Function.update_eq_self]
    rw [hsame]
    exact netInv_linkRefused h hhead
  · -- a single leg with the counters of the exit validates
    exfalso
    rw [validateUnlinkedLegs] at hvalid
    simp [SendState.unlinked, hnew, legNew, hsent] at hvalid
  · obtain ⟨-, heq⟩ := tryFinalizeSet_eq_linked hlinked
    have hcfxLegs : cfx.legs = (N.ends .exit).cfx.legs ++ [new.toConfluxLeg] := by
      rw [heq]
      rfl
    have hin : c ∈ cfx.legs.map ConfluxLeg.circ := by simp [hcfxLegs, hnew, legNew, Leg.toConfluxLeg]
    rw [if_pos hin]
    exact netInv_linkAccepted h hhead hsent hrecv hcfxLegs (by rw [heq]; rfl) (by rw [heq]; rfl)
      (by rw [heq]; rfl) (endInv_finalize (h.ends .exit).set
        (List.nodup_append.mpr ⟨(h.ends .exit).set.nodup, by simp, fun a ha b hb => by
          rintro rfl
          have hac : a = c := by simpa [hnew, legNew] using hb
          exact hnotin (hac ▸ ha)⟩)
        (fun _ _ l hl => by rw [List.mem_singleton.mp hl]; exact hrecv.le) hfin)

/-! ### The client links a leg -/

theorem LegPhase.of_linked {link : ConfluxCellLink} (h : LegPhase legs cr er c p (.linked link :: q)) :
    p = [] ∧ er = some link.lastSeqnoRecv ∧ (∀ m ∈ q, m.IsCarried) ∧
      ∃ leg ∈ legs, leg.circ = c ∧ leg.linked = false := by
  cases h with
  | answered hleg hc hl her hq => exact ⟨rfl, her, hq, _, hleg, hc, hl⟩
  | waiting _ _ _ _ _ hq => exact (hq _ List.mem_cons_self).elim
  | joined _ _ _ hq => exact (hq _ List.mem_cons_self).elim

theorem mem_legs_storeLinked {s : SendState κ} {now : ℕ} {link : ConfluxCellLink} {leg : Leg} :
    leg ∈ (storeLinked s.unlinked c now link).legs ↔
      (leg ∈ s.legs ∧ leg.circ ≠ c) ∨
        ∃ old ∈ s.legs, old.circ = c ∧ leg =
          { old with link := link, rttUsec := recordRttClient now old, linked := true } := by
  simp only [storeLinked, SendState.unlinked, List.mem_map]
  constructor
  · rintro ⟨old, hold, rfl⟩
    split_ifs with hc
    · exact .inr ⟨old, hold, hc, rfl⟩
    · exact .inl ⟨hold, hc⟩
  · rintro (⟨hold, hc⟩ | ⟨old, hold, hc, rfl⟩)
    · exact ⟨leg, hold, if_neg hc⟩
    · exact ⟨old, hold, if_pos hc⟩

theorem map_circ_storeLinked (s : SendState κ) (c : Circ) (now : ℕ) (link : ConfluxCellLink) :
    (storeLinked s.unlinked c now link).legs.map Leg.circ = s.legs.map Leg.circ := by
  simp only [storeLinked, SendState.unlinked, List.map_map]
  refine List.map_congr_left fun leg _ => ?_
  simp only [Function.comp]
  split_ifs <;> rfl

/-- What the legs that wait say of each circuit after a LINKED cell was stored. -/
structure Stored (N : Network κ) (c : Circ) (link : ConfluxCellLink) (q : List (Message κ))
    (legs : List Leg) : Prop where
  circs : legs.map Leg.circ = (N.ends .client).legs.map Leg.circ
  view : ∀ d, (pendingNumber legs d).or (linkedNumber (Function.update (N.queue .client) c q d))
    = (pendingNumber (N.ends .client).legs d).or (linkedNumber (N.queue .client d))
  exit : ∀ leg ∈ legs, leg.linked = true →
    receivedOn (N.ends .exit).cfx leg.circ = some leg.link.lastSeqnoRecv
  phase : ∀ d, LegPhase legs (receivedOn (N.ends .client).cfx d) (receivedOn (N.ends .exit).cfx d) d
    (Function.update (N.queue .exit) c [.linkedAck] d) (Function.update (N.queue .client) c q d)

theorem stored_storeLinked (h : NetInv N) {link : ConfluxCellLink} (now : ℕ)
    (hhead : N.queue .client c = .linked link :: q) :
    Stored N c link q (storeLinked (N.ends .client).unlinked c now link).legs := by
  have hphase := h.phase c
  unfold Network.Phase at hphase
  rw [hhead] at hphase
  obtain ⟨hexitq, her, hq, leg, hleg, rfl, hl⟩ := hphase.of_linked
  have hnodup := (List.nodup_append.mp (h.ends .client).nodup).2.1
  have hcircs := map_circ_storeLinked (N.ends .client) leg.circ now link
  set legs := (storeLinked (N.ends .client).unlinked leg.circ now link).legs with hlegs
  have hnodup' : (legs.map Leg.circ).Nodup := hcircs ▸ hnodup
  have hstored : { leg with link := link, rttUsec := recordRttClient now leg, linked := true } ∈ legs :=
    mem_legs_storeLinked.mpr (.inr ⟨leg, hleg, rfl, rfl⟩)
  have hother : ∀ l, l.circ ≠ leg.circ → (l ∈ (N.ends .client).legs ↔ l ∈ legs) := by
    intro l hne
    rw [hlegs, mem_legs_storeLinked]
    constructor
    · exact fun hl => .inl ⟨hl, hne⟩
    · rintro (⟨hl, -⟩ | ⟨old, -, hold, rfl⟩)
      · exact hl
      · exact absurd hold hne
  have hphases : ∀ d, LegPhase legs (receivedOn (N.ends .client).cfx d)
      (receivedOn (N.ends .exit).cfx d) d (Function.update (N.queue .exit) leg.circ [.linkedAck] d)
      (Function.update (N.queue .client) leg.circ q d) := by
    intro d
    by_cases hd : d = leg.circ
    · subst hd
      rw [Function.update_self, Function.update_self]
      exact .waiting hstored rfl rfl her (by simp [Message.IsAck]) hq
    · rw [Function.update_of_ne hd, Function.update_of_ne hd]
      exact (h.phase d).congr_legs legs fun l hl => hother l (hl ▸ hd)
  refine ⟨hcircs, fun d => ?_, fun l hl hlinked => ?_, hphases⟩
  · by_cases hd : d = leg.circ
    · subst hd
      have hnew := pendingNumber_of_mem hnodup' hstored
      have hold := pendingNumber_of_mem hnodup hleg
      rw [hl] at hold
      simp only [if_true] at hnew
      rw [hnew, hold, hhead]
      rfl
    · rw [Function.update_of_ne hd]
      by_cases hmem : d ∈ (N.ends .client).legs.map Leg.circ
      · obtain ⟨l, hl, rfl⟩ := List.mem_map.mp hmem
        rw [pendingNumber_of_mem hnodup hl, pendingNumber_of_mem hnodup' ((hother l hd).mp hl)]
      · rw [pendingNumber_of_notMem hmem, pendingNumber_of_notMem (hcircs ▸ hmem)]
  · -- a leg that is linked waits, so the exit counts from what its cell says
    have hin : l.circ ∈ legs.map Leg.circ := List.mem_map_of_mem hl
    have huniq : ∀ l' ∈ legs, l'.circ = l.circ → l' = l := fun l' hl' hc =>
      List.inj_on_of_nodup_map hnodup' hl' hl hc
    have hph := hphases l.circ
    generalize Function.update (N.queue .exit) leg.circ [.linkedAck] l.circ = p',
      Function.update (N.queue .client) leg.circ q l.circ = q' at hph
    cases hph with
    | unused hno => exact absurd hin hno
    | asked hl' hc' hun | refused hl' hc' hun | answered hl' hc' hun =>
      rw [huniq _ hl' hc', hlinked] at hun
      exact absurd hun (by simp)
    | waiting hl' hc' _ her' => rw [her', huniq _ hl' hc']
    | joined hcr =>
      exact absurd (hcircs ▸ hin) ((h.ends .client).notMem_legs hcr)

/-- The client's end after a LINKED cell, however far the set has come: the streams count on as
before, perhaps on legs the client has joined now. -/
structure ClientLinked (N : Network κ) (c : Circ) (q : List (Message κ)) (client : SendState κ) :
    Prop where
  endInv : EndInv client
  down : client.cfx.inFullTeardown = false
  oooQ : client.cfx.oooQ = (N.ends .client).cfx.oooQ
  delivered : client.cfx.lastSeqDelivered = (N.ends .client).cfx.lastSeqDelivered
  max : confluxGetMaxSeqSent client.cfx = confluxGetMaxSeqSent (N.ends .client).cfx
  view : ∀ d, viewOf client (Function.update (N.queue .client) c q) d
    = viewOf (N.ends .client) (N.queue .client) d
  sent : ∀ d, sentOn client.cfx d = sentOn (N.ends .client).cfx d ∨
    sentOn (N.ends .client).cfx d = none ∧
      ∃ r, sentOn client.cfx d = some r ∧ receivedOn (N.ends .exit).cfx d = some r
  phase : ∀ d, LegPhase client.legs (receivedOn client.cfx d) (receivedOn (N.ends .exit).cfx d) d
    (Function.update (N.queue .exit) c [.linkedAck] d) (Function.update (N.queue .client) c q d)

theorem ClientLinked.netInv {client : SendState κ} (hcl : ClientLinked N c q client) (h : NetInv N)
    {link : ConfluxCellLink} (hhead : N.queue .client c = .linked link :: q) :
    NetInv (((N.setQueue .client c q).setEnd .client client).push .exit c [.linkedAck]) := by
  have hphase := h.phase c
  unfold Network.Phase at hphase
  rw [hhead] at hphase
  obtain ⟨hexitq, her, -, -⟩ := hphase.of_linked
  set N' := ((N.setQueue .client c q).setEnd .client client).push .exit c [.linkedAck] with hN'
  have hclientEnd : N'.ends .client = client := by simp [hN']
  have hexitEnd : N'.ends .exit = N.ends .exit := by simp [hN']
  have hqExit : N'.queue .exit = Function.update (N.queue .exit) c [.linkedAck] := by
    simp [hN', hexitq]
  have hqClient : N'.queue .client = Function.update (N.queue .client) c q := by simp [hN']
  have hstreamExit : N'.stream .exit = N.stream .exit := by
    simp only [Network.stream, Side.other, hexitEnd, hclientEnd, hqClient, streamOf, hcl.oooQ,
      hcl.delivered, Chan.mk.injEq, true_and]
    refine ⟨rfl, funext hcl.view, ?_, rfl⟩
    funext d
    by_cases hd : d = c
    · subst hd
      rw [Function.update_self, hhead]
      rfl
    · rw [Function.update_of_ne hd]
  have hview : viewOf (N.ends .exit) (Function.update (N.queue .exit) c [.linkedAck])
      = viewOf (N.ends .exit) (N.queue .exit) := by
    funext d
    by_cases hd : d = c
    · subst hd
      rw [viewOf_of_received her, viewOf_of_received her]
    · simp only [viewOf, Function.update_of_ne hd]
  have hstreamClient : N'.stream .client = { N.stream .client with sent := sentOn client.cfx } := by
    simp only [Network.stream, Side.other, hexitEnd, hclientEnd, hqExit, streamOf, hview,
      Chan.mk.injEq, true_and]
    refine ⟨rfl, ?_, rfl⟩
    funext d
    by_cases hd : d = c
    · subst hd
      rw [Function.update_self, hexitq]
      rfl
    · rw [Function.update_of_ne hd]
  refine ⟨fun t => ?_, fun t => ?_, by rw [hexitEnd]; exact h.exitLegs, fun t => ?_, h.bound,
    fun t => ?_, fun d => ?_⟩
  · cases t with
    | client => exact hclientEnd ▸ hcl.endInv
    | exit => exact hexitEnd ▸ h.ends .exit
  · cases t with
    | client => exact hclientEnd ▸ hcl.down
    | exit => exact hexitEnd ▸ h.notDown .exit
  · cases t with
    | client =>
      rw [hclientEnd]
      exact hcl.max.trans (h.sent .client)
    | exit => exact hexitEnd ▸ h.sent .exit
  · cases t with
    | client =>
      rw [hstreamClient]
      refine ⟨(h.stream .client).1.join fun d => ?_, (h.stream .client).2⟩
      rcases hcl.sent d with hsame | ⟨hnone, r, hr, hexit⟩
      · exact .inl hsame
      · refine .inr ⟨hnone, ?_⟩
        simp only [Network.stream, streamOf, Side.other, viewOf_of_received hexit, hr]
    | exit => exact hstreamExit ▸ h.stream .exit
  · unfold Network.Phase
    rw [hclientEnd, hexitEnd, hqExit, hqClient]
    exact hcl.phase d

theorem clientLinked_waiting (h : NetInv N) {link : ConfluxCellLink} {legs : List Leg}
    (hst : Stored N c link q legs) :
    ClientLinked N c q { N.ends .client with legs := legs } where
  endInv := ⟨by simpa only [SendState.circs, hst.circs] using (h.ends .client).nodup,
    (h.ends .client).set⟩
  down := h.notDown .client
  oooQ := rfl
  delivered := rfl
  max := rfl
  view d := by simp only [viewOf, hst.view d]
  sent _ := .inl rfl
  phase := hst.phase

theorem exists_confluxGetMaxSeqSent (cfx : Conflux κ) :
    confluxGetMaxSeqSent cfx = 0 ∨ ∃ leg ∈ cfx.legs, leg.lastSeqSent = confluxGetMaxSeqSent cfx := by
  by_contra hno
  simp only [not_or, not_exists, not_and] at hno
  have hle : confluxGetMaxSeqSent cfx ≤ confluxGetMaxSeqSent cfx - 1 := by
    refine confluxGetMaxSeqSent_le_iff.mpr fun leg hleg => ?_
    have hne := hno.2 leg hleg
    have hmax := le_confluxGetMaxSeqSent hleg
    omega
  omega

theorem clientLinked_joined (h : NetInv N) {link : ConfluxCellLink} {legs : List Leg}
    (hst : Stored N c link q legs) (hall : ∀ leg ∈ legs, leg.linked = true) {cfx : Conflux κ}
    (hlegs : cfx.legs = (N.ends .client).cfx.legs ++ (delCurrentOrder legs).map Leg.toConfluxLeg)
    (hq : cfx.oooQ = (N.ends .client).cfx.oooQ)
    (hdel : cfx.lastSeqDelivered = (N.ends .client).cfx.lastSeqDelivered)
    (hdown : cfx.inFullTeardown = (N.ends .client).cfx.inFullTeardown)
    (hend : EndInv (⟨cfx, [], true⟩ : SendState κ)) : ClientLinked N c q ⟨cfx, [], true⟩ := by
  have hnodup := (List.nodup_append.mp (h.ends .client).nodup).2.1
  rw [← hst.circs] at hnodup
  -- a leg that waited is now found by its circuit
  have hget : ∀ leg ∈ legs, confluxGetLeg cfx leg.circ = some leg.toConfluxLeg := fun leg hleg => by
    have hmem : leg.toConfluxLeg ∈ cfx.legs := by
      rw [hlegs]
      exact List.mem_append_right _ (List.mem_map_of_mem (mem_delCurrentOrder.mpr hleg))
    exact confluxGetLeg_of_mem hend.set.nodup hmem
  have hold : ∀ d, d ∉ legs.map Leg.circ →
      confluxGetLeg cfx d = confluxGetLeg (N.ends .client).cfx d := fun d hd => by
    have hno : ((delCurrentOrder legs).map Leg.toConfluxLeg).find? (fun l => decide (l.circ = d)) = none := by
      rw [List.find?_eq_none]
      intro l hl hc
      obtain ⟨leg, hleg, rfl⟩ := List.mem_map.mp hl
      exact hd (List.mem_map.mpr ⟨leg, mem_delCurrentOrder.mp hleg, of_decide_eq_true hc⟩)
    rw [confluxGetLeg_append hlegs, hno, Option.or_none]
  have hout : ∀ leg ∈ legs, leg.circ ∉ (N.ends .client).cfx.legs.map ConfluxLeg.circ := by
    intro leg hleg hin
    have hmem : leg.circ ∈ (N.ends .client).legs.map Leg.circ := hst.circs ▸ List.mem_map_of_mem hleg
    exact (List.nodup_append.mp (h.ends .client).nodup).2.2 _ hin _ hmem rfl
  have hle : ∀ leg ∈ legs, leg.link.lastSeqnoRecv ≤ confluxGetMaxSeqSent (N.ends .client).cfx := by
    intro leg hleg
    rw [h.sent .client]
    refine (h.stream .client).1.recv_le leg.circ _ ?_
    exact viewOf_of_received (hst.exit leg hleg (hall leg hleg))
  refine ⟨hend, hdown.trans (h.notDown .client), hq, hdel, ?_, ?_, ?_, ?_⟩
  · refine confluxGetMaxSeqSent_eq ?_ ?_
    · intro l hl
      rw [hlegs] at hl
      rcases List.mem_append.mp hl with hold | hnew
      · exact le_confluxGetMaxSeqSent hold
      · obtain ⟨leg, hleg, rfl⟩ := List.mem_map.mp hnew
        exact hle leg (mem_delCurrentOrder.mp hleg)
    · rcases exists_confluxGetMaxSeqSent (N.ends .client).cfx with hzero | ⟨leg, hleg, heq⟩
      · exact .inl hzero
      · exact .inr ⟨leg, by rw [hlegs]; exact List.mem_append_left _ hleg, heq⟩
  · intro d
    have hview := hst.view d
    by_cases hd : d ∈ legs.map Leg.circ
    · obtain ⟨leg, hleg, rfl⟩ := List.mem_map.mp hd
      rw [pendingNumber_of_mem hnodup hleg, if_pos (hall leg hleg), Option.some_or] at hview
      rw [viewOf_of_received (r := leg.link.lastSeqnoSent) (by rw [receivedOn, hget leg hleg]; rfl),
        viewOf, receivedOn_eq_none_iff.mpr (hout leg hleg), Option.none_or, ← hview]
    · rw [pendingNumber_of_notMem hd] at hview
      simp only [viewOf, receivedOn, hold d hd, ← hview]
      rfl
  · intro d
    by_cases hd : d ∈ legs.map Leg.circ
    · obtain ⟨leg, hleg, rfl⟩ := List.mem_map.mp hd
      refine .inr ⟨sentOn_eq_none_iff.mpr (hout leg hleg), leg.link.lastSeqnoRecv, ?_,
        hst.exit leg hleg (hall leg hleg)⟩
      rw [sentOn, hget leg hleg]
      rfl
    · exact .inl (by rw [sentOn, hold d hd, sentOn])
  · intro d
    have hphase := hst.phase d
    generalize Function.update (N.queue .exit) c [.linkedAck] d = p',
      Function.update (N.queue .client) c q d = q' at hphase ⊢
    by_cases hd : d ∈ legs.map Leg.circ
    · obtain ⟨leg, hleg, rfl⟩ := List.mem_map.mp hd
      have hcr : receivedOn cfx leg.circ ≠ none := by
        rw [receivedOn, hget leg hleg]
        simp
      cases hphase with
      | unused hno => exact absurd hd hno
      | asked hl' _ hun | refused hl' _ hun | answered hl' _ hun =>
        rw [hall _ hl'] at hun
        exact absurd hun (by simp)
      | waiting hl' hc' _ her hp hq' =>
        exact .joined hcr (by simp [her]) (fun m hm => .inl (hp m hm)) hq'
      | joined hcr' =>
        exact absurd (receivedOn_eq_none_iff.mpr (hout leg hleg)) hcr'
    · have hsame : receivedOn cfx d = receivedOn (N.ends .client).cfx d := by
        rw [receivedOn, hold d hd, receivedOn]
      have hwithout := hphase.congr_legs ([] : List Leg) fun l hl => by
        simp only [List.not_mem_nil, iff_false]
        exact fun hmem => hd (hl ▸ List.mem_map_of_mem hmem)
      exact hsame ▸ hwithout

theorem netInv_receiveLinked (h : NetInv N) {link : ConfluxCellLink} {now : ℕ}
    (hhead : N.queue .client c = .linked link :: q)
    (hvalid : validateUnlinkedLegs (storeLinked (N.ends .client).unlinked c now link) = true)
    {N' : Network κ}
    (hstep : confluxReceiveLinked maxLegsSet (N.setQueue .client c q) c link now = some N') :
    NetInv N' := by
  have hst := stored_storeLinked h now hhead
  obtain ⟨client', hfin, rfl⟩ := Option.map_eq_some_iff.mp hstep
  simp only [Network.setQueue_ends] at hfin
  refine ClientLinked.netInv ?_ h hhead
  rcases finalize_cases hfin with rfl | hinvalid | ⟨cfx, hlinked, rfl⟩
  · exact clientLinked_waiting h hst
  · exact absurd (hvalid.symm.trans hinvalid) (by simp)
  · obtain ⟨-, heq⟩ := tryFinalizeSet_eq_linked hlinked
    have hall := linked_of_tryFinalizeSet hlinked
    have hend : EndInv (⟨cfx, [], true⟩ : SendState κ) := by
      refine endInv_finalize (h.ends .client).set ?_ ?_ hfin
      · rw [hst.circs]
        exact (h.ends .client).nodup
      · intro _ _ leg hleg
        rw [h.sent .client]
        exact (h.stream .client).1.recv_le leg.circ _ (viewOf_of_received (hst.exit leg hleg (hall leg hleg)))
    exact clientLinked_joined h hst hall (by rw [heq]; rfl) (by rw [heq]; rfl) (by rw [heq]; rfl)
      (by rw [heq]; rfl) hend

theorem netInv_init (nonce : Nonce) : NetInv ({
    ends := fun _ => ⟨confluxNew κ nonce, [], false⟩
    queue := fun _ _ => []
    log := fun _ => []
    out := fun _ => [] } : Network κ) where
  ends _ := ⟨List.nodup_nil, List.nodup_nil, by simp [confluxNew], .inr (.inl ⟨rfl, by simp [Conflux.sent, confluxNew]⟩)⟩
  notDown _ := rfl
  exitLegs := rfl
  sent _ := rfl
  bound _ := Nat.zero_le _
  stream side := by
    have hrecv : ∀ c : Circ, viewOf (⟨confluxNew κ nonce, [], false⟩ : SendState κ) (fun _ => []) c = none := by
      simp [viewOf, receivedOn, confluxGetLeg, confluxNew, pendingNumber, linkedNumber]
    refine ⟨⟨?_, ?_, ?_, ?_, ?_, ?_, ?_, ?_, ?_⟩, ?_⟩
    · intro c r hr
      exact absurd ((hrecv c).symm.trans hr) (by simp)
    · intro c _
      exact ⟨rfl, fun n x => by simp [Network.stream, streamOf]⟩
    · intro c s hs
      simp [Network.stream, streamOf, sentOn, confluxGetLeg, confluxNew] at hs
    · intro c r hr
      exact absurd ((hrecv c).symm.trans hr) (by simp)
    · exact le_rfl
    · intro n c x hn
      exact absurd hn (by simp [Network.stream, streamOf, confluxNew])
    · intro n x
      simp [Network.stream, streamOf, confluxNew, heldOf]
    · exact List.Pairwise.nil
    · rfl
    · intro x
      simp [Network.stream, streamOf, confluxNew, heldOf]
  phase _ := .unused (by simp) rfl rfl

theorem netInv_step {a : NetAction κ} {N' : Network κ} (h : NetInv N) (hok : JoinsAtRest N a)
    (hstep : netStep maxLegsSet drainPct N a = some N') : NetInv N' := by
  cases a with
  | launch circ now desiredUx =>
    simp only [netStep] at hstep
    split_ifs at hstep with hnew
    obtain rfl := Option.some.inj hstep
    exact netInv_launch h hnew now desiredUx
  | updateRtt side circ rttUsec =>
    obtain rfl := Option.some.inj hstep
    exact netInv_updateRtt h side circ rttUsec
  | send side circs origCirc relayCommand cell =>
    simp only [netStep] at hstep
    split_ifs at hstep with hsend
    obtain ⟨⟨cfx', wire⟩, hput, rfl⟩ := Option.map_eq_some_iff.mp hstep
    exact netInv_send h (relaySendOnSet_spec (h.ends side).set (h.notDown side) hsend.2 hok hsend.1
      hput) cell
  | receive side circ now =>
    rcases hq : N.queue side circ with _ | ⟨m, q⟩
    · cases side <;> simp [netStep, hq] at hstep
    cases side with
    | client =>
      cases m with
      | link link => simp [netStep, hq] at hstep
      | linkedAck => simp [netStep, hq] at hstep
      | linked link =>
        simp only [netStep, hq] at hstep
        simp only [JoinsAtRest, hq] at hok
        exact netInv_receiveLinked h hq hok hstep
      | carried cell =>
        simp only [netStep, hq] at hstep
        simp only [JoinsAtRest, hq] at hok
        obtain rfl := Option.some.inj hstep
        refine netInv_arrive h hq fun hnone => ?_
        exact receivedOn_eq_none_iff.mp hnone hok
    | exit =>
      cases m with
      | linked link => simp [netStep, hq] at hstep
      | link link =>
        simp only [netStep, hq] at hstep
        simp only [JoinsAtRest, hq] at hok
        exact netInv_processLink h hq hok.1 hok.2 hstep
      | linkedAck =>
        simp only [netStep, hq] at hstep
        obtain rfl := Option.some.inj hstep
        exact netInv_updateRtt (netInv_ack h hq) .exit circ now
      | carried cell =>
        simp only [netStep, hq] at hstep
        obtain rfl := Option.some.inj hstep
        refine netInv_arrive h hq ?_
        -- cells of the client are on legs that have joined
        have hphase := h.phase circ
        unfold Network.Phase at hphase
        rw [hq] at hphase
        generalize N.queue .client circ = q' at hphase
        cases hphase with
        | waiting _ _ _ her => simp [her]
        | joined _ her => exact her

theorem netInv_of_reached (hr : Reached (netSystem κ maxLegsSet drainPct) JoinsAtRest N) :
    NetInv N := by
  refine hr.invariant ⟨?_, fun N a N' h hok hstep => netInv_step h hok hstep⟩
  rintro _ ⟨nonce, rfl⟩
  exact netInv_init nonce

/-- In every run in which legs join a set at rest, what a side has delivered is the beginning of
what the other has sent, in order and each cell once; when no cell is on its way everything has
been delivered and the out-of-order queue is empty. -/
theorem delivered_in_order (hr : Reached (netSystem κ maxLegsSet drainPct) JoinsAtRest N)
    (side : Side) :
    N.out side.other <+: (N.log side).map Prod.snd ∧
      ((∀ c x, Message.carried (.item x) ∉ N.queue side.other c) →
        (N.ends side.other).cfx.oooQ = [] ∧ N.out side.other = (N.log side).map Prod.snd) := by
  obtain ⟨hinv, hset⟩ := (netInv_of_reached hr).stream side
  refine ⟨hinv.out_isPrefix, fun hidle => ?_⟩
  have hcarried : ∀ (q : List (Message κ)) (x : κ), Item.item x ∈ carriedOf q →
      Message.carried (.item x) ∈ q := by
    intro q x hx
    induction q with
    | nil => simp [carriedOf] at hx
    | cons m q ih =>
      cases m with
      | carried cell =>
        rcases List.mem_cons.mp hx with rfl | hx
        · exact List.mem_cons_self
        · exact List.mem_cons_of_mem _ (ih hx)
      | link _ | linked _ | linkedAck => exact List.mem_cons_of_mem _ (ih hx)
  obtain ⟨hheld, hout⟩ := hinv.delivered_eq hset fun c x hx => hidle c x (hcarried _ x hx)
  exact ⟨List.map_eq_nil_iff.mp hheld, hout⟩

/-! ### A leg that joins -/

def newNetwork : Network ℕ where
  ends _ := ⟨confluxNew ℕ (fun _ => 0), [], false⟩
  queue _ _ := []
  log _ := []
  out _ := []

def netRun (actions : List (NetAction ℕ)) : Option (Network ℕ) :=
  actions.foldlM (netStep 8 0) newNetwork

def afterRun (actions : List (NetAction ℕ)) : Network ℕ := (netRun actions).getD newNetwork

def sendCell (cell : ℕ) : NetAction ℕ := .send .client (fun _ => idleCircuit) 0 .data cell

/-- A leg joins the new set, and a cell arrives on it. -/
theorem first_cell_in_order :
    (afterRun [.launch 0 1 3, .receive .exit 0 1, .receive .client 0 1001, sendCell 7,
      .receive .exit 0 1001, .receive .exit 0 0]).out .exit <+: [7] := by
  have h0 : Reached (netSystem ℕ 8 0) JoinsAtRest newNetwork := .init ⟨_, rfl⟩
  have h1 : Reached (netSystem ℕ 8 0) JoinsAtRest (afterRun [.launch 0 1 3]) :=
    h0.step (show JoinsAtRest newNetwork (.launch 0 1 3) from trivial) rfl
  have hlink : JoinsAtRest (afterRun [.launch 0 1 3]) (.receive .exit 0 1) := ⟨rfl, rfl⟩
  have h2 : Reached (netSystem ℕ 8 0) JoinsAtRest
      (afterRun [.launch 0 1 3, .receive .exit 0 1]) := h1.step hlink rfl
  have hlinked : JoinsAtRest (afterRun [.launch 0 1 3, .receive .exit 0 1])
      (.receive .client 0 1001) := rfl
  have h3 : Reached (netSystem ℕ 8 0) JoinsAtRest
      (afterRun [.launch 0 1 3, .receive .exit 0 1, .receive .client 0 1001]) := h2.step hlinked rfl
  have hsend : JoinsAtRest (afterRun [.launch 0 1 3, .receive .exit 0 1, .receive .client 0 1001])
      (sendCell 7) := by
    intro leg hleg
    have hlegs : ((afterRun [.launch 0 1 3, .receive .exit 0 1,
        .receive .client 0 1001]).ends .client).cfx.legs = [⟨0, 0, 1000, 1, 0⟩] := rfl
    rw [hlegs, List.mem_singleton] at hleg
    subst hleg
    decide
  have h4 : Reached (netSystem ℕ 8 0) JoinsAtRest
      (afterRun [.launch 0 1 3, .receive .exit 0 1, .receive .client 0 1001, sendCell 7]) :=
    h3.step hsend rfl
  have hack : JoinsAtRest (afterRun [.launch 0 1 3, .receive .exit 0 1, .receive .client 0 1001,
      sendCell 7]) (.receive .exit 0 1001) := trivial
  have h5 : Reached (netSystem ℕ 8 0) JoinsAtRest
      (afterRun [.launch 0 1 3, .receive .exit 0 1, .receive .client 0 1001, sendCell 7,
        .receive .exit 0 1001]) := h4.step hack rfl
  have hcell : JoinsAtRest (afterRun [.launch 0 1 3, .receive .exit 0 1, .receive .client 0 1001,
      sendCell 7, .receive .exit 0 1001]) (.receive .exit 0 0) := trivial
  have h6 : Reached (netSystem ℕ 8 0) JoinsAtRest
      (afterRun [.launch 0 1 3, .receive .exit 0 1, .receive .client 0 1001, sendCell 7,
        .receive .exit 0 1001, .receive .exit 0 0]) := h5.step hcell rfl
  exact (delivered_in_order h6 .client).1

/-- The client launches a second leg when the exit has delivered one cell, and it is linked when two
have been delivered.  The third cell goes out on it. -/
def lateJoin : List (NetAction ℕ) :=
  [.launch 0 1 3, .receive .exit 0 1, .receive .client 0 1001, .receive .exit 0 1001, sendCell 1,
    .receive .exit 0 0, .launch 1 2000 3, sendCell 2, .receive .exit 0 0, .receive .exit 1 2000,
    .receive .client 1 2500, .receive .exit 1 0, sendCell 3, .receive .exit 1 0, .receive .exit 1 0]

/-- The exit counts on the second leg from one and the client from two, so that the third cell is
the second to the exit: it is lost. -/
theorem third_cell_lost :
    ∃ N, Reached (netSystem ℕ 8 0) (fun _ _ => True) N ∧
      (N.ends .client).cfx.legs.map ConfluxLeg.circ = [0, 1] ∧ N.queue .exit 0 = [] ∧
      N.queue .exit 1 = [] ∧ (N.log .client).map Prod.snd = [1, 2, 3] ∧ N.out .exit = [1, 2] := by
  have hrun : netRun lateJoin = some (afterRun lateJoin) := rfl
  have hreached : Reached (netSystem ℕ 8 0) (fun _ _ => True) (afterRun lateJoin) :=
    Reached.foldlM (fun _ _ _ h => h) lateJoin (.init ⟨_, rfl⟩) hrun
  refine ⟨afterRun lateJoin, hreached, rfl, rfl, rfl, rfl, rfl⟩

end Conflux
