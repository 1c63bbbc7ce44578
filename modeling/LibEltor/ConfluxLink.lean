/-
Linking circuits into a conflux set (`core/or/conflux_pool.c`).

A client sends a LINK cell on each circuit of a new set and waits for the LINKED
cells; circuits that wait are the legs of an unlinked set, found by its nonce.
When all legs are linked the set is completed and every circuit is added to it.
-/
import LibEltor.Conflux
import LibEltor.IndexedList

open Word CongestionControl Smartlist

namespace Conflux

/-! ### The cells and the legs that wait -/

/-- `conflux_cell_link_t`, what LINK and LINKED carry. -/
structure ConfluxCellLink where
  version : UInt8
  desiredUx : UInt8
  nonce : Nonce
  lastSeqnoSent : ℕ
  lastSeqnoRecv : ℕ
  deriving DecidableEq

structure Leg where
  circ : Circ
  link : ConfluxCellLink
  linked : Bool
  linkSentUsec : ℕ
  rttUsec : ℕ
  deriving DecidableEq

structure UnlinkedCircuits (κ : Type) where
  isClient : Bool
  isForLinkedSet : Bool
  cfx : Conflux κ
  legs : List Leg

variable {κ : Type}

def torMemeq (a b : Nonce) (sz : ℕ) : Bool := decide (∀ i : Fin digest256Len, i.val < sz → a i = b i)

theorem torMemeq_digest256Len {a b : Nonce} : torMemeq a b digest256Len = true ↔ a = b := by
  simp [torMemeq, funext_iff]

theorem torMemeq_one {a b : Nonce} : torMemeq a b 1 = true ↔ a 0 = b 0 := by
  simp only [torMemeq, decide_eq_true_eq]
  constructor
  · exact fun h => h 0 (by decide)
  · intro h i hi
    obtain rfl : i = 0 := Fin.ext (by simpa using hi)
    exact h

def confluxChooseAlgorithm (desiredUx : UInt8) : ConfluxAlg :=
  if desiredUx = 0 then .lowrtt
  else if desiredUx = 1 then .minrtt
  else if desiredUx = 3 then .lowrtt
  else if desiredUx = 4 ∨ desiredUx = 2 then .minrtt
  else .lowrtt

def validateUnlinkedLegs (unlinked : UnlinkedCircuits κ) : Bool :=
  (match unlinked.legs with
    | [] => true
    | first :: rest => rest.all fun leg =>
        leg.link.version = first.link.version &&
          torMemeq leg.link.nonce first.link.nonce digest256Len) &&
    unlinked.legs.all fun leg => decide (leg.link.lastSeqnoSent ≤ unlinked.cfx.lastSeqDelivered)

/-- The leg that `cfx_add_leg` makes: its counters are those of the peer's cell. -/
def Leg.toConfluxLeg (leg : Leg) : ConfluxLeg where
  circ := leg.circ
  lastSeqRecv := leg.link.lastSeqnoSent
  lastSeqSent := leg.link.lastSeqnoRecv
  circRttsUsec := leg.rttUsec
  linkedSentUsec := leg.linkSentUsec

/-- `cfx_add_leg`: `none` where the leg is one of another set. -/
def cfxAddLeg (cfx : Conflux κ) (leg : Leg) : Option (Conflux κ) :=
  if !torMemeq cfx.nonce leg.link.nonce digest256Len then none
  else
    some { cfx with alg := confluxChooseAlgorithm leg.link.desiredUx
                    legs := cfx.legs ++ [leg.toConfluxLeg] }

def cfxDelLeg (ccontrol : CongestionControl) (cfx : Conflux κ) (circ : Circ) : Conflux κ × Bool :=
  match confluxGetLeg cfx circ with
  | none => (cfx, false)
  | some leg =>
    let removed := { cfx with legs := smartlistRemove cfx.legs leg }
    let fullTeardown := decide (ccontrol.inflight ≥ ccontrol.sendmeInc) ||
      (decide (removed.legs.length > 0) &&
        (decide (confluxGetMaxSeqSent removed < leg.lastSeqSent) ||
          decide (confluxGetMaxSeqRecv removed < leg.lastSeqRecv))) ||
      decide (cfx.currLeg = some circ)
    ({ removed with
        currLeg := if cfx.currLeg = some circ then none else cfx.currLeg
        prevLeg := if cfx.prevLeg = some circ then none else cfx.prevLeg }, fullTeardown)

/-- How `try_finalize_set` ends. -/
inductive Finalized (κ : Type)
  | missingLeg | tooManyLegs | notValid | waiting
  | linked (cfx : Conflux κ)

/-- The order of a loop that deletes the current element at every turn: the last one takes the place
of the one deleted. -/
def delCurrentOrder {α : Type*} : List α → List α
  | [] => []
  | x :: xs => x :: xs.reverse

/-- `try_finalize_set`, without the change to the pools. -/
def tryFinalizeSet (maxLegsSet : ℕ) (unlinked : UnlinkedCircuits κ) : Option (Finalized κ) :=
  if unlinked.legs.length = 0 then some .missingLeg
  else if unlinked.legs.length + unlinked.cfx.legs.length > maxLegsSet then some .tooManyLegs
  else if !validateUnlinkedLegs unlinked then some .notValid
  else if !unlinked.legs.all (·.linked) then some .waiting
  else
    ((delCurrentOrder unlinked.legs).foldlM cfxAddLeg unlinked.cfx).map fun cfx =>
      .linked { cfx with numLegLaunch := 0 }

/-! ### The client -/

/-- The pool of unlinked sets, by nonce: a set is under its own. -/
structure UnlinkedPool (κ : Type) where
  get : Nonce → Option (UnlinkedCircuits κ)
  keyed : ∀ nonce unlinked, get nonce = some unlinked → unlinked.cfx.nonce = nonce

structure CircuitConflux where
  confluxIsEnabled : Bool
  isOrigin : Bool
  confluxPendingNonce : Option Nonce
  conflux : Bool
  markedForClose : Bool

structure Client (κ : Type) where
  unlinkedPool : UnlinkedPool κ
  linkedPool : Nonce → Option (Conflux κ)
  circuits : Circ → CircuitConflux

def unlinkedPoolAdd (pool : UnlinkedPool κ) (unlinked : UnlinkedCircuits κ) : UnlinkedPool κ where
  get := Function.update pool.get unlinked.cfx.nonce (some unlinked)
  keyed := by
    intro nonce found h
    by_cases hn : nonce = unlinked.cfx.nonce
    · subst hn
      obtain rfl : unlinked = found := by simpa using h
      rfl
    · exact pool.keyed nonce found (by simpa [hn] using h)

def unlinkedPoolDel (pool : UnlinkedPool κ) (nonce : Nonce) : UnlinkedPool κ where
  get := Function.update pool.get nonce none
  keyed := by
    intro n found h
    by_cases hn : n = nonce
    · subst hn
      simp at h
    · exact pool.keyed n found (by simpa [hn] using h)

def legFind (unlinked : UnlinkedCircuits κ) (circ : Circ) : Option Leg :=
  unlinked.legs.find? (·.circ = circ)

def Client.markForClose (client : Client κ) (circs : List Circ) : Client κ :=
  { client with circuits := fun c =>
      if c ∈ circs then { client.circuits c with markedForClose := true } else client.circuits c }

def confluxMarkAllForClose (client : Client κ) (nonce : Nonce) : Client κ :=
  let client :=
    match client.unlinkedPool.get nonce with
    | none => client
    | some unlinked => client.markForClose (unlinked.legs.map Leg.circ)
  match client.linkedPool nonce with
  | none => client
  | some linked =>
    if linked.inFullTeardown then client
    else
      { client with linkedPool := Function.update client.linkedPool nonce
                      (some { linked with inFullTeardown := true }) }.markForClose
        (linked.legs.map ConfluxLeg.circ)

/-- `record_rtt_client`: the round trip, all ones where it is not known. -/
def recordRttClient (now : ℕ) (leg : Leg) : ℕ :=
  if leg.linkSentUsec = 0 then uint64Max else u64 (now - leg.linkSentUsec)

/-- `record_rtt` of a client: the round trip is known and below the timeout of building. -/
def recordRtt (now circuitBuildTimeoutUsec : ℕ) (leg : Leg) : Bool :=
  let rttUsec := recordRttClient now leg
  !decide (rttUsec = uint64Max) && !decide (rttUsec ≥ circuitBuildTimeoutUsec)

/-- The unlinked set with the answer and the round trip stored in the leg of a circuit. -/
def storeLinked (unlinked : UnlinkedCircuits κ) (circ : Circ) (now : ℕ) (link : ConfluxCellLink) :
    UnlinkedCircuits κ :=
  { unlinked with legs := unlinked.legs.map fun leg =>
      if leg.circ = circ then
        { leg with link := link, rttUsec := recordRttClient now leg, linked := true }
      else leg }

/-- `link_circuit`, for a leg that has been found, and what follows it in
`conflux_process_linked`. -/
def linkCircuit (maxLegsSet : ℕ) (client : Client κ) (unlinked : UnlinkedCircuits κ) (circ : Circ) :
    Option (Client κ) :=
  let client := { client with unlinkedPool := unlinkedPoolAdd client.unlinkedPool unlinked }
  (tryFinalizeSet maxLegsSet unlinked).map fun
    | .missingLeg => client.markForClose [circ]
    | .tooManyLegs => client
    | .notValid => confluxMarkAllForClose client unlinked.cfx.nonce
    | .waiting => client
    | .linked cfx =>
      { unlinkedPool := unlinkedPoolDel client.unlinkedPool unlinked.cfx.nonce
        linkedPool := Function.update client.linkedPool unlinked.cfx.nonce (some cfx)
        circuits := fun c =>
          if c ∈ unlinked.legs.map Leg.circ then
            { client.circuits c with confluxPendingNonce := none, conflux := true }
          else client.circuits c }

/-- `sizeof(*link->nonce)`: the size of one byte of the nonce. -/
abbrev sizeofNonceElem : ℕ := 1

/-- What a LINKED cell meets on arrival: the hop it came from is the last one, the cell as parsed,
the clock. -/
structure LinkedArrival where
  sourceHop : Bool
  link : Option ConfluxCellLink
  now : ℕ

def confluxProcessLinked (maxLegsSet circuitBuildTimeoutUsec : ℕ) (client : Client κ) (circ : Circ)
    (cell : LinkedArrival) : Option (Client κ) :=
  let close := some (client.markForClose [circ])
  let state := client.circuits circ
  if !state.confluxIsEnabled then close
  else if !state.isOrigin then close
  else
    match state.confluxPendingNonce with
    | none => close
    | some nonce =>
      if state.conflux then close
      else if !cell.sourceHop then close
      else
        match cell.link with
        | none => close
        | some link =>
          if !torMemeq link.nonce nonce sizeofNonceElem then close
          else
            match client.unlinkedPool.get nonce with
            | none => close
            | some unlinked =>
              match legFind unlinked circ with
              | none => close
              | some leg =>
                if !recordRtt cell.now circuitBuildTimeoutUsec leg then close
                else linkCircuit maxLegsSet client (storeLinked unlinked circ cell.now link) circ

/-! ### Completing a set -/

@[simp] theorem mem_delCurrentOrder {α : Type*} {x : α} {l : List α} :
    x ∈ delCurrentOrder l ↔ x ∈ l := by
  cases l <;> simp [delCurrentOrder]

theorem cfxAddLeg_eq_some {cfx cfx' : Conflux κ} {leg : Leg} (h : cfxAddLeg cfx leg = some cfx') :
    leg.link.nonce = cfx.nonce ∧
      cfx' = { cfx with alg := confluxChooseAlgorithm leg.link.desiredUx
                        legs := cfx.legs ++ [leg.toConfluxLeg] } := by
  unfold cfxAddLeg at h
  split at h
  · exact absurd h (by simp)
  · rename_i heq
    rw [Bool.not_eq_true', Bool.not_eq_false, torMemeq_digest256Len] at heq
    exact ⟨heq.symm, (Option.some.inj h).symm⟩

theorem cfxAddLeg_isSome {cfx : Conflux κ} {leg : Leg} (h : leg.link.nonce = cfx.nonce) :
    ∃ cfx', cfxAddLeg cfx leg = some cfx' ∧ cfx'.nonce = cfx.nonce := by
  have heq : torMemeq cfx.nonce leg.link.nonce digest256Len = true :=
    torMemeq_digest256Len.mpr h.symm
  unfold cfxAddLeg
  rw [heq, Bool.not_true, if_neg Bool.false_ne_true]
  exact ⟨_, rfl, rfl⟩

theorem foldlM_cfxAddLeg_isSome_iff (legs : List Leg) (cfx : Conflux κ) :
    (∃ cfx', legs.foldlM cfxAddLeg cfx = some cfx') ↔ ∀ leg ∈ legs, leg.link.nonce = cfx.nonce := by
  induction legs generalizing cfx with
  | nil => simp
  | cons leg legs ih =>
    rw [List.foldlM_cons, List.forall_mem_cons]
    constructor
    · rintro ⟨cfx', hfold⟩
      obtain ⟨mid, hmid, hrest⟩ := Option.bind_eq_some_iff.mp hfold
      obtain ⟨hleg, rfl⟩ := cfxAddLeg_eq_some hmid
      have hall := (ih _).mp ⟨cfx', hrest⟩
      exact ⟨hleg, hall⟩
    · rintro ⟨hleg, hlegs⟩
      obtain ⟨mid, hmid, hnonce⟩ := cfxAddLeg_isSome hleg
      obtain ⟨cfx', hrest⟩ := (ih mid).mpr (hnonce ▸ hlegs)
      exact ⟨cfx', Option.bind_eq_some_iff.mpr ⟨mid, hmid, hrest⟩⟩

theorem confluxChooseAlgorithm_ne_cwndrtt (desiredUx : UInt8) :
    confluxChooseAlgorithm desiredUx ≠ .cwndrtt := by
  unfold confluxChooseAlgorithm
  split_ifs <;> simp

theorem foldlM_cfxAddLeg_eq_some (legs : List Leg) {cfx cfx' : Conflux κ}
    (h : legs.foldlM cfxAddLeg cfx = some cfx') :
    (cfx.alg ≠ .cwndrtt → cfx'.alg ≠ .cwndrtt) ∧
      cfx' = { cfx with alg := cfx'.alg, legs := cfx.legs ++ legs.map Leg.toConfluxLeg } := by
  induction legs generalizing cfx with
  | nil =>
    obtain rfl := Option.some.inj h
    exact ⟨id, by simp⟩
  | cons leg legs ih =>
    rw [List.foldlM_cons] at h
    obtain ⟨mid, hmid, hrest⟩ := Option.bind_eq_some_iff.mp h
    obtain ⟨-, rfl⟩ := cfxAddLeg_eq_some hmid
    obtain ⟨halg, heq⟩ := ih hrest
    refine ⟨fun _ => halg (confluxChooseAlgorithm_ne_cwndrtt _), heq.trans ?_⟩
    simp [List.append_assoc]

theorem tryFinalizeSet_eq_linked {maxLegsSet : ℕ} {unlinked : UnlinkedCircuits κ} {cfx : Conflux κ}
    (h : tryFinalizeSet maxLegsSet unlinked = some (.linked cfx)) :
    (unlinked.cfx.alg ≠ .cwndrtt → cfx.alg ≠ .cwndrtt) ∧
      cfx = { unlinked.cfx with
        alg := cfx.alg
        numLegLaunch := 0
        legs := unlinked.cfx.legs ++ (delCurrentOrder unlinked.legs).map Leg.toConfluxLeg } := by
  unfold tryFinalizeSet at h
  split_ifs at h
  · exact absurd h (by simp)
  · exact absurd h (by simp)
  · exact absurd h (by simp)
  · exact absurd h (by simp)
  · obtain ⟨cfx', hfold, heq⟩ := Option.map_eq_some_iff.mp h
    obtain ⟨halg, hcfx⟩ := foldlM_cfxAddLeg_eq_some _ hfold
    obtain rfl := Finalized.linked.inj heq
    exact ⟨halg, by rw [hcfx]⟩

theorem linked_of_tryFinalizeSet {maxLegsSet : ℕ} {unlinked : UnlinkedCircuits κ} {cfx : Conflux κ}
    (h : tryFinalizeSet maxLegsSet unlinked = some (.linked cfx)) :
    ∀ leg ∈ unlinked.legs, leg.linked = true := by
  unfold tryFinalizeSet at h
  split_ifs at h with h1 h2 h3 h4
  · simp at h
  · simp at h
  · simp at h
  · simp at h
  · simpa using h4

theorem nonce_eq_of_validateUnlinkedLegs {unlinked : UnlinkedCircuits κ}
    (h : validateUnlinkedLegs unlinked = true) {leg leg' : Leg} (hl : leg ∈ unlinked.legs)
    (hl' : leg' ∈ unlinked.legs) : leg.link.nonce = leg'.link.nonce := by
  have hhead : ∀ l ∈ unlinked.legs, ∀ first ∈ unlinked.legs.head?,
      l.link.nonce = first.link.nonce := by
    intro l hmem first hfirst
    unfold validateUnlinkedLegs at h
    match hlegs : unlinked.legs with
    | [] => simp [hlegs] at hmem
    | first' :: rest =>
      rw [hlegs] at h hmem hfirst
      obtain rfl : first' = first := by simpa using hfirst
      rcases List.mem_cons.mp hmem with rfl | hrest
      · rfl
      · have hall := (Bool.and_eq_true_iff.mp h).1
        have hone := List.all_eq_true.mp hall l hrest
        exact torMemeq_digest256Len.mp (Bool.and_eq_true_iff.mp hone).2
  match hlegs : unlinked.legs with
  | [] => simp [hlegs] at hl
  | first :: rest =>
    rw [hhead leg hl first (by simp [hlegs]), hhead leg' hl' first (by simp [hlegs])]

theorem tryFinalizeSet_eq_none_iff {maxLegsSet : ℕ} {unlinked : UnlinkedCircuits κ} :
    tryFinalizeSet maxLegsSet unlinked = none ↔
      unlinked.legs.length ≠ 0 ∧ unlinked.legs.length + unlinked.cfx.legs.length ≤ maxLegsSet ∧
        validateUnlinkedLegs unlinked = true ∧ unlinked.legs.all (·.linked) = true ∧
          ∃ leg ∈ unlinked.legs, leg.link.nonce ≠ unlinked.cfx.nonce := by
  unfold tryFinalizeSet
  split_ifs with h1 h2 h3 h4
  · simp [h1]
  · simp [Nat.not_le.mpr h2]
  · simp_all
  · simp_all
  · have hfold := foldlM_cfxAddLeg_isSome_iff (delCurrentOrder unlinked.legs) unlinked.cfx
    simp only [← Option.isSome_iff_exists, mem_delCurrentOrder] at hfold
    rw [Option.map_eq_none_iff, ← Option.not_isSome_iff_eq_none, hfold]
    simp only [Bool.not_eq_true', Bool.not_eq_false] at h3 h4
    simp only [h1, h3, h4, ne_eq, not_false_eq_true, true_and, Nat.le_of_not_lt h2]
    push Not
    rfl

/-! ### LINKED cells -/

/-- What is to hold of a LINKED cell: no assertion fails, and the circuit stays open only where all
bytes of the nonce are those of the circuit's own. -/
def NonceChecked (result : Option (Client κ)) (circ : Circ) (nonce : Nonce)
    (link : Option ConfluxCellLink) : Prop :=
  ∃ client, result = some client ∧ ((client.circuits circ).markedForClose = true ∨
    ∃ l, link = some l ∧ l.nonce = nonce)

/-- The other grounds on which the circuit of a LINKED cell is closed: conflux is off, the circuit
is none of the client's or is linked, the cell is of another hop or does not parse, no leg waits for
it, the round trip is unknown or too long, and the legs do not validate where there are not too many
of them. -/
def RejectedOtherwise (maxLegsSet circuitBuildTimeoutUsec : ℕ) (client : Client κ) (circ : Circ)
    (nonce : Nonce) (cell : LinkedArrival) : Prop :=
  (client.circuits circ).confluxIsEnabled = false ∨ (client.circuits circ).isOrigin = false ∨
    (client.circuits circ).conflux = true ∨ cell.sourceHop = false ∨
      ∀ link, cell.link = some link → ∀ unlinked, client.unlinkedPool.get nonce = some unlinked →
        ∀ leg, legFind unlinked circ = some leg →
          recordRtt cell.now circuitBuildTimeoutUsec leg = false ∨
            (unlinked.legs.length + unlinked.cfx.legs.length ≤ maxLegsSet ∧
              validateUnlinkedLegs (storeLinked unlinked circ cell.now link) = false)

theorem nonceChecked_close {client : Client κ} {circ : Circ} {nonce : Nonce}
    {link : Option ConfluxCellLink} :
    NonceChecked (some (client.markForClose [circ])) circ nonce link :=
  ⟨_, rfl, .inl (by simp [Client.markForClose])⟩

@[simp] theorem markForClose_markedForClose {client : Client κ} {circs : List Circ} {circ : Circ} :
    ((client.markForClose circs).circuits circ).markedForClose =
      (decide (circ ∈ circs) || (client.circuits circ).markedForClose) := by
  simp only [Client.markForClose]
  split_ifs with h <;> simp [h]

theorem mem_storeLinked {unlinked : UnlinkedCircuits κ} {circ : Circ} (now : ℕ)
    (link : ConfluxCellLink) {leg : Leg} (h : legFind unlinked circ = some leg) :
    ∃ leg' ∈ (storeLinked unlinked circ now link).legs, leg'.circ = circ ∧ leg'.link = link := by
  have hmem := List.mem_of_find?_eq_some h
  have hcirc : leg.circ = circ := by simpa using List.find?_some h
  exact ⟨_, List.mem_map.mpr ⟨leg, hmem, rfl⟩, by simp [hcirc], by simp [hcirc]⟩

@[simp] theorem storeLinked_cfx {unlinked : UnlinkedCircuits κ} {circ : Circ} {now : ℕ}
    {link : ConfluxCellLink} : (storeLinked unlinked circ now link).cfx = unlinked.cfx := rfl

@[simp] theorem length_storeLinked {unlinked : UnlinkedCircuits κ} {circ : Circ} {now : ℕ}
    {link : ConfluxCellLink} :
    (storeLinked unlinked circ now link).legs.length = unlinked.legs.length := by
  simp [storeLinked]

theorem confluxMarkAllForClose_marks {client : Client κ} {nonce : Nonce}
    {unlinked : UnlinkedCircuits κ} (h : client.unlinkedPool.get nonce = some unlinked) {circ : Circ}
    (hc : circ ∈ unlinked.legs.map Leg.circ) :
    ((confluxMarkAllForClose client nonce).circuits circ).markedForClose = true := by
  have hmark : ((client.markForClose (unlinked.legs.map Leg.circ)).circuits circ).markedForClose =
      true := by simp [hc]
  unfold confluxMarkAllForClose
  simp only [h]
  split
  · exact hmark
  · split_ifs
    · exact hmark
    · rw [markForClose_markedForClose, Bool.or_eq_true]
      exact .inr hmark

theorem nonceChecked_linkCircuit_iff {maxLegsSet : ℕ} {client : Client κ}
    {unlinked : UnlinkedCircuits κ} {circ : Circ} {now : ℕ} {link : ConfluxCellLink} {leg : Leg}
    (hleg : legFind unlinked circ = some leg)
    (hopen : (client.circuits circ).markedForClose = false) :
    NonceChecked (linkCircuit maxLegsSet client (storeLinked unlinked circ now link) circ) circ
        unlinked.cfx.nonce (some link) ↔
      link.nonce = unlinked.cfx.nonce ∨
        (unlinked.legs.length + unlinked.cfx.legs.length ≤ maxLegsSet ∧
          validateUnlinkedLegs (storeLinked unlinked circ now link) = false) := by
  obtain ⟨own, hown, hcirc, hlink⟩ := mem_storeLinked now link hleg
  set stored := storeLinked unlinked circ now link with hstored
  have hcfx : stored.cfx = unlinked.cfx := storeLinked_cfx
  have hlen : stored.legs.length = unlinked.legs.length := length_storeLinked
  have hlen0 : stored.legs.length ≠ 0 := fun h => by
    rw [List.length_eq_zero_iff] at h
    simp [h] at hown
  have hsame : ∀ l : ConfluxCellLink, some link = some l ∧ l.nonce = unlinked.cfx.nonce →
      link.nonce = unlinked.cfx.nonce := fun l h => Option.some.inj h.1 ▸ h.2
  constructor
  · rintro ⟨client', hresult, hchecked⟩
    rw [linkCircuit, Option.map_eq_some_iff] at hresult
    obtain ⟨fin, hfin, rfl⟩ := hresult
    by_contra hnot
    push Not at hnot
    obtain ⟨hne, hvalid⟩ := hnot
    have hchecked := hchecked.resolve_right fun ⟨l, hl⟩ => hne (hsame l hl)
    unfold tryFinalizeSet at hfin
    rw [if_neg hlen0, hcfx, hlen] at hfin
    split_ifs at hfin with hmany hval hwait
    · obtain rfl := Option.some.inj hfin
      simp [hopen] at hchecked
    · exact hvalid (by omega) (by simpa using hval)
    · obtain rfl := Option.some.inj hfin
      simp [hopen] at hchecked
    · -- all legs validate and are linked: the leg of this cell fails the assertion
      obtain ⟨cfx', hfold, -⟩ := Option.map_eq_some_iff.mp hfin
      have hall := (foldlM_cfxAddLeg_isSome_iff _ _).mp ⟨cfx', hfold⟩
      exact hne (hlink ▸ hall own (mem_delCurrentOrder.mpr hown))
  · rintro (hnonce | ⟨hfew, hinvalid⟩)
    · -- the legs that validate have this cell's nonce, which is that of the set
      cases hfin : tryFinalizeSet maxLegsSet stored with
      | none =>
        obtain ⟨-, -, hval, -, other, hother, hne⟩ := tryFinalizeSet_eq_none_iff.mp hfin
        rw [nonce_eq_of_validateUnlinkedLegs hval hother hown, hlink, hcfx] at hne
        exact absurd hnonce hne
      | some fin => exact ⟨_, by rw [linkCircuit, hfin]; rfl, .inr ⟨link, rfl, hnonce⟩⟩
    · have hfin : tryFinalizeSet maxLegsSet stored = some .notValid := by
        unfold tryFinalizeSet
        rw [if_neg hlen0, hcfx, hlen, if_neg (by omega), hinvalid]
        rfl
      refine ⟨_, by rw [linkCircuit, hfin]; rfl, .inl ?_⟩
      have hget : (unlinkedPoolAdd client.unlinkedPool stored).get stored.cfx.nonce = some stored := by
        simp [unlinkedPoolAdd]
      exact confluxMarkAllForClose_marks hget (List.mem_map.mpr ⟨own, hown, hcirc⟩)

/-- A LINKED cell on an open circuit that waits for one: it is accepted with its own nonce alone, and
no assertion fails, exactly where the nonce is the circuit's, differs from it in the first byte, or
the circuit is closed on other grounds. -/
theorem nonceChecked_processLinked_iff (maxLegsSet circuitBuildTimeoutUsec : ℕ) (client : Client κ)
    (circ : Circ) (cell : LinkedArrival) {nonce : Nonce}
    (hpending : (client.circuits circ).confluxPendingNonce = some nonce)
    (hopen : (client.circuits circ).markedForClose = false) :
    NonceChecked (confluxProcessLinked maxLegsSet circuitBuildTimeoutUsec client circ cell) circ
        nonce cell.link ↔
      RejectedOtherwise maxLegsSet circuitBuildTimeoutUsec client circ nonce cell ∨
        ∀ link, cell.link = some link → link.nonce = nonce ∨ link.nonce 0 ≠ nonce 0 := by
  unfold confluxProcessLinked RejectedOtherwise
  simp only [hpending]
  cases henabled : (client.circuits circ).confluxIsEnabled with
  | false => simpa using nonceChecked_close
  | true =>
  cases horigin : (client.circuits circ).isOrigin with
  | false => simpa using nonceChecked_close
  | true =>
  cases hconflux : (client.circuits circ).conflux with
  | true => simpa using nonceChecked_close
  | false =>
  cases hhop : cell.sourceHop with
  | false => simpa using nonceChecked_close
  | true =>
  cases hlink : cell.link with
  | none => simpa using nonceChecked_close
  | some link =>
  simp only [Bool.not_true, Bool.false_eq_true, if_false, reduceCtorEq, false_or,
    Option.some.injEq, forall_eq']
  by_cases hbyte : link.nonce 0 = nonce 0
  · have hmemeq : torMemeq link.nonce nonce sizeofNonceElem = true := torMemeq_one.mpr hbyte
    simp only [hmemeq, Bool.not_true, Bool.false_eq_true, if_false, hbyte, ne_eq,
      not_true_eq_false, or_false]
    cases hpool : client.unlinkedPool.get nonce with
    | none => exact iff_of_true nonceChecked_close (by simp)
    | some unlinked =>
    cases hfind : legFind unlinked circ with
    | none =>
      simp only [hfind]
      exact iff_of_true nonceChecked_close (by simp [hfind])
    | some leg =>
    simp only [Option.some.injEq, forall_eq', hfind]
    cases hrtt : recordRtt cell.now circuitBuildTimeoutUsec leg with
    | false => simpa using nonceChecked_close
    | true =>
      obtain rfl := client.unlinkedPool.keyed nonce unlinked hpool
      simp only [Bool.not_true, Bool.false_eq_true, if_false, reduceCtorEq, false_or]
      rw [nonceChecked_linkCircuit_iff hfind hopen]
      exact or_comm
  · have hmemeq : torMemeq link.nonce nonce sizeofNonceElem = false := by
      rw [← Bool.not_eq_true, torMemeq_one]
      exact hbyte
    simpa [hmemeq, hbyte] using nonceChecked_close

def freshLink (a b : UInt8) : ConfluxCellLink where
  version := 1
  desiredUx := 1
  nonce := fun i => if i = 0 then a else if i = 1 then b else 0
  lastSeqnoSent := 0
  lastSeqnoRecv := 0

/-- A client with one circuit, the only leg of a set that waits for its LINKED cell. -/
def oneLegClient : Client Unit where
  unlinkedPool := unlinkedPoolAdd ⟨fun _ => none, by simp⟩
    { isClient := true
      isForLinkedSet := false
      cfx := confluxNew Unit (freshLink 7 0).nonce
      legs := [{ circ := 0, link := freshLink 7 0, linked := false, linkSentUsec := 1, rttUsec := 0 }] }
  linkedPool := fun _ => none
  circuits := fun _ =>
    { confluxIsEnabled := true
      isOrigin := true
      confluxPendingNonce := some (freshLink 7 0).nonce
      conflux := false
      markedForClose := false }

theorem oneLegClient_nonceChecked :
    NonceChecked (confluxProcessLinked 8 60000000 oneLegClient 0 ⟨true, some (freshLink 7 0), 1001⟩) 0
      (freshLink 7 0).nonce (some (freshLink 7 0)) :=
  (nonceChecked_processLinked_iff 8 60000000 oneLegClient 0 ⟨true, some (freshLink 7 0), 1001⟩ rfl
    rfl).mpr (.inr fun _ h => .inl (congrArg _ (Option.some.inj h).symm))

/-- The nonces differ in the second byte only: the cell passes and the assertion of `cfx_add_leg`
fails. -/
theorem not_nonceChecked_second_byte :
    confluxProcessLinked 8 60000000 oneLegClient 0 ⟨true, some (freshLink 7 1), 1001⟩ = none ∧
      ¬ NonceChecked (confluxProcessLinked 8 60000000 oneLegClient 0
        ⟨true, some (freshLink 7 1), 1001⟩) 0 (freshLink 7 0).nonce (some (freshLink 7 1)) := by
  have hnone : confluxProcessLinked 8 60000000 oneLegClient 0 ⟨true, some (freshLink 7 1), 1001⟩ =
      none := by decide
  exact ⟨hnone, fun ⟨_, hsome, _⟩ => absurd (hnone.symm.trans hsome) (by simp)⟩

end Conflux
