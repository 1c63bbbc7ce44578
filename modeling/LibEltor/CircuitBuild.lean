/-
Building a circuit at its origin (`core/or/circuitbuild.c`).

A circuit has a list of hops, each closed, waiting for its keys, or open.
`circuitSendNextOnionSkin` makes an onion skin for the first hop that is not open
and gives it a payment: the first hop one cut from the joined payloads of the
circuit, every later hop the one `relay_payments` has at its place.
-/
import LibEltor.PaymentUtil
import LibEltor.Transition

open Bytes PaymentUtil Transition

namespace CircuitBuild

abbrev endCircReasonTorprotocol : ℤ := 1
abbrev endCircReasonInternal : ℤ := 2
abbrev endCircReasonResourcelimit : ℤ := 5
abbrev endCircReasonConnectfailed : ℤ := 6

abbrev circuitPurposeCGeneral : UInt8 := 5
abbrev circuitPurposeCMeasureTimeout : UInt8 := 14
abbrev circuitPurposePathBiasTesting : UInt8 := 23

/-! ### Circuits -/

inductive CpathState
  | closed
  | awaitingKeys
  | opened
  deriving DecidableEq

inductive CircuitState
  | building
  | onionskinPending
  | chanWait
  | guardWait
  | opened
  deriving DecidableEq

inductive PathState
  | newCirc
  | buildAttempted
  | buildSucceeded
  | useAttempted
  | useSucceeded
  | useFailed
  | alreadyCounted
  deriving DecidableEq

/-- `crypt_path_t` -/
structure Hop (Info : Type*) where
  extendInfo : Info
  state : CpathState

/-- `origin_circuit_t`.  `nHop` says whether `n_hop` is set.  `skins` is no field
of the source: it lists the calls of `onion_skin_create` made for the circuit,
each with the place of its hop in the path and the payment it was given. -/
structure OriginCircuit (Info : Type*) where
  globalIdentifier : UInt32
  state : CircuitState
  purpose : UInt8
  markedForClose : Bool
  pathState : PathState
  nHop : Bool
  cpath : List (Hop Info)
  payhashes : Option Bytes
  relayPayments : Option (List RelayPaymentItem)
  anyHopFromController : Bool
  firstHopFromController : Bool
  skins : List (ℕ × Option Bytes)

variable {Info : Type*}

def OriginCircuit.hopStates (c : OriginCircuit Info) : List CpathState :=
  c.cpath.map (·.state)

def circuitAppendNewExit (c : OriginCircuit Info) (exit : Info) : OriginCircuit Info :=
  { c with cpath := c.cpath ++ [{ extendInfo := exit, state := .closed }] }

/-- `cpath_get_next_non_open_hop`, as a place in the path. -/
def cpathGetNextNonOpenHop (cpath : List (Hop Info)) : Option ℕ :=
  cpath.findIdx? fun hop => hop.state ≠ .opened

def OriginCircuit.setHopState (c : OriginCircuit Info) (i : ℕ) (state : CpathState) :
    OriginCircuit Info :=
  { c with cpath := c.cpath.modify i fun hop => { hop with state := state } }

/-- Notes a call of `onion_skin_create`. -/
def OriginCircuit.hand (c : OriginCircuit Info) (i : ℕ) (payhash : Option Bytes) :
    OriginCircuit Info :=
  { c with skins := c.skins ++ [(i, payhash)] }

/-- `circuit_mark_for_close` for an origin circuit.  A circuit on which a stream
was tried is probed first, and stays open if the probe can be sent. -/
def circuitMarkForClose (probeSent : Bool) (c : OriginCircuit Info) : OriginCircuit Info :=
  if c.markedForClose then c
  else if c.pathState = .useAttempted ∧ probeSent then
    { c with purpose := circuitPurposePathBiasTesting }
  else { c with markedForClose := true }

/-! ### Onion skins -/

inductive GuardUsable
  | never
  | maybeUsableLater
  | now
  deriving DecidableEq

/-- What the functions return that are called for one onion skin: whether the
next hop has an address of a known family, `onion_skin_create`,
`extend_cell_format`, the delivery of the cell, the entry guard's verdict on a
finished circuit, and whether a probe goes out if the circuit is to be closed. -/
structure SkinOutcome where
  addrSet : Bool
  skinCreated : Bool
  formatted : Bool
  delivered : Bool
  guardUsable : GuardUsable
  probeSent : Bool

/-- What `hop_payhash` is for the first hop, behind the copy into a buffer of
`PAYMENT_PAYHASH_SIZE` bytes. -/
def firstHopPayment (c : OriginCircuit Info) : Option Bytes :=
  match getFirstHopPayhash c.purpose c.payhashes with
  | none => none
  | some tmp =>
    let hopPayhashBuf := tmp.take (768 + 13)
    if hopPayhashBuf = [] then none else some hopPayhashBuf

/-- What `hop_payhash` is for a later hop, at place `i` of the path. -/
def laterHopPayment (c : OriginCircuit Info) (i : ℕ) : Option Bytes :=
  (findByHopNum c.relayPayments (i + 1)).map (·.wireFormat)

def circuitSendFirstOnionSkin (o : SkinOutcome) (c : OriginCircuit Info) :
    OriginCircuit Info × ℤ :=
  let c := c.hand 0 (firstHopPayment c)
  if !o.skinCreated then (c, -endCircReasonInternal)
  else if !o.delivered then (c, -endCircReasonResourcelimit)
  else ({ c.setHopState 0 .awaitingKeys with state := .building }, 0)

def circuitSendIntermediateOnionSkin (o : SkinOutcome) (c : OriginCircuit Info) (i : ℕ) :
    OriginCircuit Info × ℤ :=
  if !o.addrSet then (c, -endCircReasonInternal)
  else
    let c := c.hand i (laterHopPayment c i)
    if !o.skinCreated then (c, -endCircReasonInternal)
    else if !o.formatted then (c, -endCircReasonInternal)
    -- `relay_send_command_from_edge` marks the circuit when it fails.
    else if !o.delivered then (circuitMarkForClose o.probeSent c, 0)
    else (c.setHopState i .awaitingKeys, 0)

def circuitBuildNoMoreHops (o : SkinOutcome) (c : OriginCircuit Info) :
    OriginCircuit Info × ℤ :=
  match o.guardUsable with
  | .never => (c, -endCircReasonInternal)
  | .maybeUsableLater => (closeMeasured { c with state := .guardWait }, 0)
  | .now => (closeMeasured { c with state := .opened }, 0)
where
  closeMeasured (c : OriginCircuit Info) : OriginCircuit Info :=
    if c.purpose = circuitPurposeCMeasureTimeout then circuitMarkForClose o.probeSent c else c

/-- `circuit_send_next_onion_skin`; no result when an assertion fails. -/
def circuitSendNextOnionSkin (o : SkinOutcome) (c : OriginCircuit Info) :
    Option (OriginCircuit Info × ℤ) :=
  match c.cpath with
  | [] => none
  | hop :: _ =>
    if hop.state = .closed then some (circuitSendFirstOnionSkin o c)
    else if hop.state ≠ .opened ∨ c.state ≠ .building then none
    else
      match cpathGetNextNonOpenHop c.cpath with
      | some i => some (circuitSendIntermediateOnionSkin o c i)
      | none => some (circuitBuildNoMoreHops o c)

/-- What `circuit_handle_first_hop` finds when it looks for a channel. -/
inductive FirstHopOutcome
  | privateAddress
  | connectFailed
  | connecting
  | channelOpen (skin : SkinOutcome)

def circuitHandleFirstHop (o : FirstHopOutcome) (c : OriginCircuit Info) :
    Option (OriginCircuit Info × ℤ) :=
  if cpathGetNextNonOpenHop c.cpath = none then none
  else
    match o with
    | .privateAddress => some (c, -endCircReasonTorprotocol)
    | .connectFailed => some ({ c with nHop := true }, -endCircReasonConnectfailed)
    | .connecting => some ({ c with nHop := true }, 0)
    | .channelOpen skin => if c.nHop then none else circuitSendNextOnionSkin skin c

/-! ### Events -/

/-- What the functions return that a reply goes through: the path bias count, and
whether the client's half of the handshake gives keys. -/
structure HandshakeOutcome where
  buildAttempt : ℤ
  handshake : Bool

def circuitFinishHandshake (o : HandshakeOutcome) (c : OriginCircuit Info) :
    Option (OriginCircuit Info × ℤ) :=
  if o.buildAttempt < 0 then some (c, o.buildAttempt)
  else
    match c.hopStates with
    | [] => none
    | first :: _ =>
      let hop := if first = .awaitingKeys then some 0 else cpathGetNextNonOpenHop c.cpath
      match hop with
      | none => some (c, -endCircReasonTorprotocol)
      | some i =>
        if c.hopStates[i]? ≠ some .awaitingKeys then none
        else if !o.handshake then some (c, -endCircReasonTorprotocol)
        else some (c.setHopState i .opened, 0)

/-- What moves a circuit that is being built: its channel is connected, or a
CREATED or EXTENDED reply comes back. -/
inductive BuildEvent
  | nChanDone (skin : SkinOutcome)
  | created (handshake : HandshakeOutcome) (skin : SkinOutcome)

/-- The caller closes the circuit when a function of the builder says so. -/
def closeOnError (probeSent : Bool) (r : OriginCircuit Info × ℤ) : OriginCircuit Info :=
  if r.2 < 0 then circuitMarkForClose probeSent r.1 else r.1

/-- The part of `circuit_n_chan_done`, `command_process_created_cell` and the
EXTENDED case of the relay commands that moves one origin circuit. -/
def buildStep (e : BuildEvent) (c : OriginCircuit Info) : Option (OriginCircuit Info) :=
  if c.markedForClose then some c
  else
    match e with
    | .nChanDone skin =>
      if !c.nHop ∨ c.state ≠ .chanWait then some c
      else (circuitSendNextOnionSkin skin { c with nHop := false }).map (closeOnError skin.probeSent)
    | .created handshake skin =>
      match circuitFinishHandshake handshake c with
      | none => none
      | some (c, errReason) =>
        if errReason < 0 then some (circuitMarkForClose skin.probeSent c)
        else (circuitSendNextOnionSkin skin c).map (closeOnError skin.probeSent)

def builder (c : OriginCircuit Info) : System (OriginCircuit Info) BuildEvent where
  init := (· = c)
  step := fun c e c' => buildStep e c = some c'

def BuiltFrom (c c' : OriginCircuit Info) : Prop := Reached (builder c) (fun _ _ => True) c'

def OriginCircuit.Complete (c : OriginCircuit Info) : Prop := ∀ hop ∈ c.cpath, hop.state = .opened

/-! ### The shape of a path -/

def paymentAt (c : OriginCircuit Info) (i : ℕ) : Option Bytes :=
  if i = 0 then firstHopPayment c else laterHopPayment c i

def handedSkins (pay : ℕ → Option Bytes) (k m : ℕ) : List (ℕ × Option Bytes) :=
  (List.range' k (m - k)).map fun i => (i, pay i)

theorem handedSkins_self (pay : ℕ → Option Bytes) (k : ℕ) : handedSkins pay k k = [] := by
  rw [handedSkins, Nat.sub_self, List.range'_zero, List.map_nil]

theorem handedSkins_succ (pay : ℕ → Option Bytes) {k m : ℕ} (h : k ≤ m) :
    handedSkins pay k (m + 1) = handedSkins pay k m ++ [(m, pay m)] := by
  rw [handedSkins, show m + 1 - k = m - k + 1 by omega, List.range'_1_concat, List.map_append,
    show k + (m - k) = m by omega]
  rfl

/-- Hops in the order the builder keeps: open ones, then `s`, then closed ones. -/
def pathStates (a : ℕ) (s : CpathState) (b : ℕ) : List CpathState :=
  List.replicate a .opened ++ s :: List.replicate b .closed

theorem set_pathStates (a : ℕ) (s s' : CpathState) (b : ℕ) :
    (pathStates a s b).set a s' = pathStates a s' b := by
  rw [pathStates, List.set_append, if_neg (by simp), List.length_replicate, Nat.sub_self]
  rfl

theorem pathStates_opened_zero (a : ℕ) :
    pathStates a .opened 0 = List.replicate (a + 1) .opened := by
  rw [pathStates, List.replicate_zero, List.replicate_succ']

theorem pathStates_opened_succ (a b : ℕ) :
    pathStates a .opened (b + 1) = pathStates (a + 1) .closed b := by
  show List.replicate a CpathState.opened ++ .opened :: .closed :: List.replicate b .closed = _
  rw [pathStates, List.replicate_succ', List.append_assoc]
  rfl

theorem getElem?_pathStates (a : ℕ) (s : CpathState) (b : ℕ) :
    (pathStates a s b)[a]? = some s := by
  rw [pathStates, List.getElem?_append_right (by simp)]
  simp

theorem findIdx?_pathStates {a b : ℕ} {s : CpathState} (hs : s ≠ .opened) :
    (pathStates a s b).findIdx? (fun t => t ≠ .opened) = some a := by
  have hs' : decide (s ≠ .opened) = true := decide_eq_true hs
  induction a with
  | zero =>
    show (s :: List.replicate b .closed).findIdx? _ = some 0
    rw [List.findIdx?_cons, hs', if_pos rfl]
  | succ a ih =>
    rw [pathStates] at ih
    rw [pathStates, List.replicate_succ, List.cons_append, List.findIdx?_cons, ih]
    rfl

theorem cpathGetNextNonOpenHop_eq (c : OriginCircuit Info) :
    cpathGetNextNonOpenHop c.cpath = c.hopStates.findIdx? fun s => s ≠ .opened := by
  rw [cpathGetNextNonOpenHop, OriginCircuit.hopStates, List.findIdx?_map]
  rfl

theorem nextNonOpenHop_pathStates {c : OriginCircuit Info} {a b : ℕ} {s : CpathState}
    (h : c.hopStates = pathStates a s b) (hs : s ≠ .opened) :
    cpathGetNextNonOpenHop c.cpath = some a := by
  rw [cpathGetNextNonOpenHop_eq, h, findIdx?_pathStates hs]

theorem nextNonOpenHop_opened {c : OriginCircuit Info} {n : ℕ}
    (h : c.hopStates = List.replicate n .opened) : cpathGetNextNonOpenHop c.cpath = none := by
  rw [cpathGetNextNonOpenHop_eq, h, List.findIdx?_eq_none_iff]
  intro s hs
  simp [List.eq_of_mem_replicate hs]

@[simp] theorem hopStates_setHopState (c : OriginCircuit Info) (i : ℕ) (s : CpathState) :
    (c.setHopState i s).hopStates = c.hopStates.set i s := by
  apply List.ext_getElem?
  intro j
  rw [OriginCircuit.hopStates, OriginCircuit.setHopState, List.getElem?_map,
    List.getElem?_modify, List.getElem?_set, OriginCircuit.hopStates, List.getElem?_map,
    List.length_map]
  by_cases hij : i = j
  · subst hij
    by_cases hlt : i < c.cpath.length
    · simp [hlt]
    · simp [hlt]
  · simp [hij]

theorem circuitMarkForClose_eq (probeSent : Bool) (c : OriginCircuit Info) :
    ∃ purpose marked, circuitMarkForClose probeSent c =
      { c with purpose := purpose, markedForClose := marked } := by
  rw [circuitMarkForClose]
  split_ifs
  · exact ⟨c.purpose, c.markedForClose, rfl⟩
  · exact ⟨circuitPurposePathBiasTesting, c.markedForClose, rfl⟩
  · exact ⟨c.purpose, true, rfl⟩

theorem circuitMarkForClose_marked {probeSent : Bool} {c : OriginCircuit Info}
    (h : c.pathState ≠ .useAttempted) :
    circuitMarkForClose probeSent c = { c with markedForClose := true } := by
  rw [circuitMarkForClose]
  split_ifs with h1 h2
  · rw [← h1]
  · exact absurd h2.1 h
  · rfl

/-! ### The invariant of a build -/

/-- Where the building of a path of `n` hops is that had `k` open hops and the
skins `given` when it began, if `pay i` is meant for the hop at place `i`. -/
inductive Building (given : List (ℕ × Option Bytes)) (pay : ℕ → Option Bytes) (k n : ℕ)
    (c : OriginCircuit Info) : Prop
  /-- The channel to the first hop is not there yet. -/
  | waiting : c.state = .chanWait → c.pathState ≠ .useAttempted → k = 0 → 0 < n →
      c.hopStates = List.replicate n .closed → c.skins = given → paymentAt c = pay →
      Building given pay k n c
  /-- The hop at place `a` has been sent its skin. -/
  | awaiting (a b : ℕ) : c.state = .building → n = a + 1 + b → k ≤ a →
      c.hopStates = pathStates a .awaitingKeys b → c.skins = given ++ handedSkins pay k (a + 1) →
      (∀ i, 1 ≤ i → laterHopPayment c i = pay i) → Building given pay k n c
  /-- A skin could not be sent: the hop at place `a` stays closed for ever. -/
  | stuck (a b : ℕ) : c.hopStates = pathStates a .closed b →
      (c.markedForClose = true ∨ c.nHop = false ∨ c.state ≠ .chanWait) → Building given pay k n c
  | done : c.state ≠ .chanWait → c.hopStates = List.replicate n .opened →
      c.skins = given ++ handedSkins pay k n → Building given pay k n c

section Invariant

variable {given : List (ℕ × Option Bytes)} {pay : ℕ → Option Bytes} {k n : ℕ}
  {c : OriginCircuit Info}

theorem Building.markForClose (h : Building given pay k n c) (probeSent : Bool) :
    Building given pay k n (circuitMarkForClose probeSent c) := by
  cases h with
  | waiting hstate hpath hk hn hhops hskins hpay =>
    rw [circuitMarkForClose_marked hpath]
    exact .waiting hstate hpath hk hn hhops hskins hpay
  | awaiting a b hstate hn hk hhops hskins hpay =>
    obtain ⟨purpose, marked, heq⟩ := circuitMarkForClose_eq probeSent c
    rw [heq]
    exact .awaiting a b hstate hn hk hhops hskins hpay
  | stuck a b hhops hstop =>
    rw [circuitMarkForClose]
    split_ifs with h1 h2
    · exact .stuck a b hhops hstop
    · exact .stuck a b hhops (hstop.imp_left fun h => absurd h h1)
    · exact .stuck a b hhops (.inl rfl)
  | done hstate hhops hskins =>
    obtain ⟨purpose, marked, heq⟩ := circuitMarkForClose_eq probeSent c
    rw [heq]
    exact .done hstate hhops hskins

theorem Building.closeOnError {r : OriginCircuit Info × ℤ} (h : Building given pay k n r.1)
    (probeSent : Bool) : Building given pay k n (CircuitBuild.closeOnError probeSent r) := by
  rw [CircuitBuild.closeOnError]
  split_ifs
  · exact h.markForClose probeSent
  · exact h

theorem circuitSendFirstOnionSkin_building {o : SkinOutcome} {b : ℕ} (hn : n = b + 1)
    (hk : k = 0) (hhops : c.hopStates = pathStates 0 .closed b) (hskins : c.skins = given)
    (hwait : c.nHop = false) (hpay : paymentAt c = pay) :
    Building given pay k n (circuitSendFirstOnionSkin o c).1 := by
  subst hk
  have hgive : (c.hand 0 (firstHopPayment c)).skins = given ++ handedSkins pay 0 1 := by
    show c.skins ++ [(0, paymentAt c 0)] = _
    rw [hskins, hpay, handedSkins_succ pay le_rfl, handedSkins_self, List.nil_append]
  rw [circuitSendFirstOnionSkin]
  simp only
  split_ifs
  · exact .stuck 0 b hhops (.inr (.inl hwait))
  · exact .stuck 0 b hhops (.inr (.inl hwait))
  · refine .awaiting 0 b rfl (by omega) le_rfl ?_ hgive ?_
    · show ((c.hand 0 (firstHopPayment c)).setHopState 0 .awaitingKeys).hopStates = _
      rw [hopStates_setHopState]
      show c.hopStates.set 0 .awaitingKeys = _
      rw [hhops, set_pathStates]
    · intro i hi
      rw [← hpay, paymentAt, if_neg (by omega)]
      rfl

theorem circuitSendIntermediateOnionSkin_building {o : SkinOutcome} {a b : ℕ}
    (hn : n = a + 1 + b) (hk : k ≤ a) (ha : 1 ≤ a) (hstate : c.state = .building)
    (hhops : c.hopStates = pathStates a .closed b)
    (hskins : c.skins = given ++ handedSkins pay k a)
    (hpay : ∀ i, 1 ≤ i → laterHopPayment c i = pay i) :
    Building given pay k n (circuitSendIntermediateOnionSkin o c a).1 := by
  have hstop : c.state ≠ .chanWait := by
    rw [hstate]
    exact CircuitState.noConfusion
  have hgive : (c.hand a (laterHopPayment c a)).skins = given ++ handedSkins pay k (a + 1) := by
    show c.skins ++ [(a, laterHopPayment c a)] = _
    rw [hskins, hpay a ha, handedSkins_succ pay hk, List.append_assoc]
  have hstuck : Building given pay k n (c.hand a (laterHopPayment c a)) :=
    .stuck a b hhops (.inr (.inr hstop))
  rw [circuitSendIntermediateOnionSkin]
  simp only
  split_ifs
  · exact .stuck a b hhops (.inr (.inr hstop))
  · exact hstuck
  · exact hstuck
  · exact hstuck.markForClose o.probeSent
  · refine .awaiting a b hstate hn hk ?_ hgive hpay
    rw [hopStates_setHopState]
    show c.hopStates.set a .awaitingKeys = _
    rw [hhops, set_pathStates]

theorem circuitBuildNoMoreHops_building {o : SkinOutcome} (hstate : c.state = .building)
    (hhops : c.hopStates = List.replicate n .opened)
    (hskins : c.skins = given ++ handedSkins pay k n) :
    Building given pay k n (circuitBuildNoMoreHops o c).1 := by
  have hdone : ∀ state : CircuitState, state ≠ .chanWait →
      Building given pay k n { c with state := state } :=
    fun state hne => .done hne hhops hskins
  have hmeasured : ∀ state : CircuitState, state ≠ .chanWait →
      Building given pay k n
        (circuitBuildNoMoreHops.closeMeasured o { c with state := state }) := by
    intro state hne
    rw [circuitBuildNoMoreHops.closeMeasured]
    split_ifs
    · exact (hdone state hne).markForClose o.probeSent
    · exact hdone state hne
  rw [circuitBuildNoMoreHops]
  cases o.guardUsable with
  | never => exact .done (by rw [hstate]; exact CircuitState.noConfusion) hhops hskins
  | maybeUsableLater => exact hmeasured _ CircuitState.noConfusion
  | now => exact hmeasured _ CircuitState.noConfusion

theorem circuitSendNextOnionSkin_of_head {o : SkinOutcome} {s : CpathState}
    (h : c.hopStates.head? = some s) :
    circuitSendNextOnionSkin o c =
      if s = .closed then some (circuitSendFirstOnionSkin o c)
      else if s ≠ .opened ∨ c.state ≠ .building then none
      else
        match cpathGetNextNonOpenHop c.cpath with
        | some i => some (circuitSendIntermediateOnionSkin o c i)
        | none => some (circuitBuildNoMoreHops o c) := by
  rw [OriginCircuit.hopStates] at h
  rw [circuitSendNextOnionSkin]
  cases hc : c.cpath with
  | nil => simp [hc] at h
  | cons hop rest =>
    rw [hc, List.map_cons, List.head?_cons, Option.some_inj] at h
    subst h
    rfl

theorem head?_pathStates (a b : ℕ) : (pathStates a .opened b).head? = some .opened := by
  cases a <;> rfl

theorem circuitSendNextOnionSkin_building {o : SkinOutcome} {a b : ℕ}
    {r : OriginCircuit Info × ℤ} (hn : n = a + 1 + b) (hk : k ≤ a + 1)
    (hstate : c.state = .building) (hhops : c.hopStates = pathStates a .opened b)
    (hskins : c.skins = given ++ handedSkins pay k (a + 1))
    (hpay : ∀ i, 1 ≤ i → laterHopPayment c i = pay i)
    (hr : circuitSendNextOnionSkin o c = some r) : Building given pay k n r.1 := by
  rw [circuitSendNextOnionSkin_of_head (s := .opened) (by rw [hhops, head?_pathStates]),
    if_neg CpathState.noConfusion, if_neg (by simp [hstate])] at hr
  cases b with
  | zero =>
    -- No hop is left: the circuit is built.
    rw [pathStates_opened_zero, show a + 1 = n by omega] at hhops
    rw [nextNonOpenHop_opened hhops, Option.some_inj] at hr
    rw [show a + 1 = n by omega] at hskins
    exact hr ▸ circuitBuildNoMoreHops_building hstate hhops hskins
  | succ b =>
    rw [pathStates_opened_succ] at hhops
    rw [nextNonOpenHop_pathStates hhops CpathState.noConfusion, Option.some_inj] at hr
    exact hr ▸ circuitSendIntermediateOnionSkin_building (by omega) hk (by omega) hstate hhops
      hskins hpay

theorem circuitSendNextOnionSkin_waiting {o : SkinOutcome} {r : OriginCircuit Info × ℤ}
    (hk : k = 0) (hn : 0 < n) (hhops : c.hopStates = List.replicate n .closed)
    (hskins : c.skins = given) (hwait : c.nHop = false) (hpay : paymentAt c = pay)
    (hr : circuitSendNextOnionSkin o c = some r) : Building given pay k n r.1 := by
  obtain ⟨b, rfl⟩ : ∃ b, n = b + 1 := ⟨n - 1, by omega⟩
  rw [circuitSendNextOnionSkin_of_head (s := .closed) (by rw [hhops]; rfl), if_pos rfl,
    Option.some_inj] at hr
  exact hr ▸ circuitSendFirstOnionSkin_building rfl hk hhops hskins hwait hpay

theorem circuitFinishHandshake_pathStates {o : HandshakeOutcome} {a b : ℕ} {s : CpathState}
    {r : OriginCircuit Info × ℤ} (hhops : c.hopStates = pathStates a s b) (hs : s ≠ .opened)
    (hr : circuitFinishHandshake o c = some r) :
    (r.1 = c ∧ r.2 < 0) ∨ (s = .awaitingKeys ∧ r = (c.setHopState a .opened, 0)) := by
  have hnext := nextNonOpenHop_pathStates hhops hs
  have hget : c.hopStates[a]? = some s := by rw [hhops, getElem?_pathStates]
  rw [circuitFinishHandshake] at hr
  by_cases hattempt : o.buildAttempt < 0
  · rw [if_pos hattempt] at hr
    exact .inl (Option.some_inj.mp hr ▸ ⟨rfl, hattempt⟩)
  rw [if_neg hattempt] at hr
  cases hc : c.hopStates with
  | nil => simp [hc] at hget
  | cons first rest =>
    have hhop : (if first = .awaitingKeys then some 0 else cpathGetNextNonOpenHop c.cpath) =
        some a := by
      split_ifs with hfirst
      · cases a with
        | zero => rfl
        | succ a =>
          rw [hhops, pathStates, List.replicate_succ, List.cons_append, List.cons.injEq] at hc
          rw [← hc.1] at hfirst
          exact CpathState.noConfusion hfirst
      · exact hnext
    simp only [hc] at hr hget
    rw [hhop] at hr
    simp only [hget] at hr
    split_ifs at hr with hkeys
    · exact .inl (Option.some_inj.mp hr ▸ ⟨rfl, show (-1 : ℤ) < 0 by decide⟩)
    · exact .inr ⟨by simpa using hkeys, (Option.some_inj.mp hr).symm⟩

theorem circuitFinishHandshake_opened {o : HandshakeOutcome} {r : OriginCircuit Info × ℤ}
    (hhops : c.hopStates = List.replicate n .opened)
    (hr : circuitFinishHandshake o c = some r) : r.1 = c ∧ r.2 < 0 := by
  have hnext := nextNonOpenHop_opened hhops
  rw [circuitFinishHandshake] at hr
  by_cases hattempt : o.buildAttempt < 0
  · rw [if_pos hattempt] at hr
    exact Option.some_inj.mp hr ▸ ⟨rfl, hattempt⟩
  rw [if_neg hattempt] at hr
  cases n with
  | zero => simp [hhops] at hr
  | succ n =>
    rw [List.replicate_succ] at hhops
    simp only [hhops, hnext] at hr
    exact Option.some_inj.mp hr ▸ ⟨rfl, show (-1 : ℤ) < 0 by decide⟩

theorem Building.step {e : BuildEvent} {c' : OriginCircuit Info} (h : Building given pay k n c)
    (hs : buildStep e c = some c') : Building given pay k n c' := by
  rw [buildStep.eq_def] at hs
  by_cases hmarked : c.markedForClose = true
  · rw [if_pos hmarked] at hs
    exact Option.some_inj.mp hs ▸ h
  rw [if_neg hmarked] at hs
  cases e with
  | nChanDone skin =>
    simp only at hs
    by_cases hguard : (!c.nHop) = true ∨ c.state ≠ .chanWait
    · rw [if_pos hguard] at hs
      exact Option.some_inj.mp hs ▸ h
    rw [if_neg hguard] at hs
    obtain ⟨hhop, hstate⟩ : c.nHop = true ∧ c.state = .chanWait := by simpa using hguard
    obtain ⟨r, hr, rfl⟩ := Option.map_eq_some_iff.mp hs
    cases h with
    | waiting _ _ hk hn hhops hskins hpay =>
      exact (circuitSendNextOnionSkin_waiting (c := { c with nHop := false }) hk hn hhops hskins
        rfl hpay hr).closeOnError _
    | awaiting a b hbuild => simp [hbuild] at hstate
    | stuck a b hhops hstop => simp [hmarked, hhop, hstate] at hstop
    | done hne => exact absurd hstate hne
  | created handshake skin =>
    simp only at hs
    split at hs
    · exact absurd hs (by simp)
    rename_i c1 errReason hfinish
    -- The reply failed and nothing moved, or the hop that was waiting is open now.
    have hfailed : c1 = c ∧ errReason < 0 → Building given pay k n c' := by
      rintro ⟨rfl, herr⟩
      rw [if_pos herr] at hs
      exact Option.some_inj.mp hs ▸ h.markForClose _
    cases h with
    | waiting _ _ _ hn hhops =>
      obtain ⟨b, rfl⟩ : ∃ b, n = b + 1 := ⟨n - 1, by omega⟩
      rcases circuitFinishHandshake_pathStates (a := 0) (s := .closed) hhops
        CpathState.noConfusion hfinish with hfail | ⟨hkeys, -⟩
      · exact hfailed hfail
      · exact CpathState.noConfusion hkeys
    | awaiting a b hbuild hn hk hhops hskins hpay =>
      rcases circuitFinishHandshake_pathStates hhops CpathState.noConfusion hfinish
        with hfail | ⟨-, hopened⟩
      · exact hfailed hfail
      · obtain ⟨rfl, rfl⟩ := Prod.mk.injEq .. ▸ hopened
        rw [if_neg (by decide)] at hs
        obtain ⟨r, hr, rfl⟩ := Option.map_eq_some_iff.mp hs
        refine (circuitSendNextOnionSkin_building (c := c.setHopState a .opened) hn (by omega)
          hbuild ?_ hskins hpay hr).closeOnError _
        rw [hopStates_setHopState, hhops, set_pathStates]
    | stuck a b hhops =>
      rcases circuitFinishHandshake_pathStates hhops CpathState.noConfusion hfinish
        with hfail | ⟨hkeys, -⟩
      · exact hfailed hfail
      · exact CpathState.noConfusion hkeys
    | done _ hhops => exact hfailed (circuitFinishHandshake_opened hhops hfinish)

theorem not_complete_of_pathStates {a b : ℕ} {s : CpathState}
    (hhops : c.hopStates = pathStates a s b) (hs : s ≠ .opened) : ¬ c.Complete := by
  intro hc
  have hmem : s ∈ c.hopStates := by
    rw [hhops, pathStates]
    simp
  obtain ⟨hop, hhop, rfl⟩ := List.mem_map.mp hmem
  exact hs (hc hop hhop)

theorem Building.skins_of_complete (h : Building given pay k n c) (hc : c.Complete) :
    c.skins = given ++ handedSkins pay k n := by
  cases h with
  | waiting _ _ _ hn hhops =>
    obtain ⟨b, rfl⟩ : ∃ b, n = b + 1 := ⟨n - 1, by omega⟩
    exact absurd hc (not_complete_of_pathStates (a := 0) (s := .closed) hhops
      CpathState.noConfusion)
  | awaiting a b _ _ _ hhops =>
    exact absurd hc (not_complete_of_pathStates hhops CpathState.noConfusion)
  | stuck a b hhops => exact absurd hc (not_complete_of_pathStates hhops CpathState.noConfusion)
  | done _ _ hskins => exact hskins

/-- Along a run that builds a circuit with `k` open hops up, the hops from `k` on
are each handed a skin once, in order, with the payment of their place. -/
theorem built_skins {c' : OriginCircuit Info} (h : Building given pay k n c)
    (hrun : BuiltFrom c c') (hc : c'.Complete) :
    c'.skins = given ++ handedSkins pay k n := by
  have hinv : Inductive (builder c) (fun _ _ => True) (Building given pay k n) :=
    { init := fun _ hs => hs ▸ h
      step := fun _ _ _ hb _ hs => hb.step hs }
  exact (hrun.invariant hinv).skins_of_complete hc

end Invariant

end CircuitBuild
