/-
Error replies of EXTENDPAIDCIRCUIT.

The handler changes the circuit as it goes and has many exits.  An error reply is
honest if it leaves no new circuit open and, for a circuit that was there before,
path and payments as they were.
-/
import LibEltor.ExtendPaidPayments

open Bytes PaymentUtil CircuitBuild

namespace ExtendPaidCircuit

variable {Node Info : Type*}

structure SamePayments (c c' : OriginCircuit Info) : Prop where
  cpath : c'.cpath = c.cpath
  payhashes : c'.payhashes = c.payhashes
  relayPayments : c'.relayPayments = c.relayPayments

/-- No circuit that did not exist before is left open, and those that did have
their path and their payments. -/
structure NoEffect (before after : List (OriginCircuit Info)) : Prop where
  closed : ∀ c ∈ after.drop before.length, c.markedForClose = true
  same : ∀ (i : ℕ) (c : OriginCircuit Info), before[i]? = some c →
    ∃ c', after[i]? = some c' ∧ SamePayments c c'

/-- If the handler answers with an error then the command had no effect. -/
def ErrorsHaveNoEffect (env : Env Node Info) (args : ControlCmdArgs) (s : ControlState Info) :
    Prop :=
  ∀ s' reply, handleControlExtendpaidcircuit env args s = some (s', reply) →
    reply.code ≠ 250 → NoEffect s.circuits s'.circuits

/-- Some router is not known, or has no descriptor, or no line names a router. -/
def Refused (env : Env Node Info) (zeroCirc : Bool) (lines : List Bytes) : Prop :=
  ∀ nodes, lookupAll env zeroCirc (keptLines lines) = .ok nodes → nodes = []

/-- The onion skin of the next hop cannot be made or sent, for a path that began
with hops in the states `old`. -/
def SendFails (o : SkinOutcome) (old : List CpathState) : Prop :=
  match old.head? with
  | some .awaitingKeys => False
  | some .opened => ¬ (o.addrSet ∧ o.skinCreated ∧ o.formatted)
  | _ => ¬ (o.skinCreated ∧ o.delivered)

/-- What the command does to the existing circuit `c` before an error is nothing. -/
def HarmlessOn (env : Env Node Info) (lines : List Bytes) (c : OriginCircuit Info) : Prop :=
  ∀ nodes, lookupAll env false (keptLines lines) = .ok nodes → nodes ≠ [] →
    if TooLong lines then c.payhashes = some (payhashString lines)
    else if (usableInfos env false nodes).length < nodes.length then
      usableInfos env false nodes = [] ∧ c.payhashes = some (payhashString lines) ∧
        c.relayPayments = some (paidItems lines)
    else (c.state = .opened ∨ c.state = .guardWait) ∧ ¬ SendFails env.skin c.hopStates

def Harmless (env : Env Node Info) (args : ControlCmdArgs) (s : ControlState Info) : Prop :=
  bodyLines args.cmddata = [] ∨
    if args.circId = ascii "0" then
      ¬ Refused env true (bodyLines args.cmddata) ∧ ¬ TooLong (bodyLines args.cmddata)
    else
      torParseUlong args.circId = 0 ∨
        ∀ i c, circuitGetByGlobalId s.circuits (torParseUlong args.circId) = some (i, c) →
          HarmlessOn env (bodyLines args.cmddata) c

/-! ### Building and errors -/

section Sending

variable {o : SkinOutcome} {c : OriginCircuit Info} {r : OriginCircuit Info × ℤ}

@[simp] theorem length_cpath_setHopState (c : OriginCircuit Info) (i : ℕ) (s : CpathState) :
    (c.setHopState i s).cpath.length = c.cpath.length := List.length_modify ..

theorem length_cpath_circuitMarkForClose (probeSent : Bool) (c : OriginCircuit Info) :
    (circuitMarkForClose probeSent c).cpath.length = c.cpath.length ∧
      (circuitMarkForClose probeSent c).pathState = c.pathState := by
  obtain ⟨purpose, marked, heq⟩ := circuitMarkForClose_eq probeSent c
  rw [heq]
  exact ⟨rfl, rfl⟩

theorem circuitSendNextOnionSkin_frame (h : circuitSendNextOnionSkin o c = some r) :
    r.1.cpath.length = c.cpath.length ∧ r.1.pathState = c.pathState := by
  rw [circuitSendNextOnionSkin] at h
  split at h
  · exact absurd h (by simp)
  split_ifs at h with hclosed hassert
  · rw [← Option.some_inj.mp h, circuitSendFirstOnionSkin]
    simp only
    split_ifs
    · exact ⟨rfl, rfl⟩
    · exact ⟨rfl, rfl⟩
    · exact ⟨length_cpath_setHopState _ _ _, rfl⟩
  split at h
  · rw [← Option.some_inj.mp h, circuitSendIntermediateOnionSkin]
    simp only
    split_ifs
    · exact ⟨rfl, rfl⟩
    · exact ⟨rfl, rfl⟩
    · exact ⟨rfl, rfl⟩
    · exact length_cpath_circuitMarkForClose _ _
    · exact ⟨length_cpath_setHopState _ _ _, rfl⟩
  · rw [← Option.some_inj.mp h, circuitBuildNoMoreHops]
    cases o.guardUsable with
    | never => exact ⟨rfl, rfl⟩
    | maybeUsableLater =>
      simp only [circuitBuildNoMoreHops.closeMeasured]
      split_ifs
      · exact length_cpath_circuitMarkForClose _ _
      · exact ⟨rfl, rfl⟩
    | now =>
      simp only [circuitBuildNoMoreHops.closeMeasured]
      split_ifs
      · exact length_cpath_circuitMarkForClose _ _
      · exact ⟨rfl, rfl⟩

theorem circuitHandleFirstHop_pathState {o : FirstHopOutcome}
    (h : circuitHandleFirstHop o c = some r) : r.1.pathState = c.pathState := by
  rw [circuitHandleFirstHop.eq_def] at h
  by_cases hnext : cpathGetNextNonOpenHop c.cpath = none
  · rw [if_pos hnext] at h
    exact absurd h (by simp)
  rw [if_neg hnext] at h
  cases o with
  | privateAddress => exact Option.some_inj.mp h ▸ rfl
  | connectFailed => exact Option.some_inj.mp h ▸ rfl
  | connecting => exact Option.some_inj.mp h ▸ rfl
  | channelOpen skin =>
    simp only at h
    split_ifs at h
    exact (circuitSendNextOnionSkin_frame h).2

theorem circuitSendFirstOnionSkin_neg_iff :
    (circuitSendFirstOnionSkin o c).2 < 0 ↔ ¬ (o.skinCreated ∧ o.delivered) := by
  rw [circuitSendFirstOnionSkin]
  simp only
  cases o.skinCreated <;> cases o.delivered <;>
    simp [endCircReasonInternal, endCircReasonResourcelimit]

theorem circuitSendIntermediateOnionSkin_neg_iff {i : ℕ} :
    (circuitSendIntermediateOnionSkin o c i).2 < 0 ↔
      ¬ (o.addrSet ∧ o.skinCreated ∧ o.formatted) := by
  rw [circuitSendIntermediateOnionSkin]
  simp only
  cases o.addrSet <;> cases o.skinCreated <;> cases o.formatted <;>
    cases o.delivered <;> simp [endCircReasonInternal]

theorem circuitSendNextOnionSkin_spec {old : List CpathState} {n : ℕ} (hn : 0 < n)
    (hhops : c.hopStates = old ++ List.replicate n .closed) (hstate : c.state = .building) :
    match circuitSendNextOnionSkin o c with
    | none => ¬ SendFails o old
    | some r => r.2 < 0 ↔ SendFails o old := by
  have hclosed : ∃ i, cpathGetNextNonOpenHop c.cpath = some i := by
    rw [← Option.isSome_iff_exists, cpathGetNextNonOpenHop_eq, List.findIdx?_isSome, hhops,
      List.any_append, Bool.or_eq_true]
    right
    rw [List.any_eq_true]
    exact ⟨.closed, List.mem_replicate.mpr ⟨by omega, rfl⟩, rfl⟩
  obtain ⟨i, hi⟩ := hclosed
  cases old with
  | nil =>
    have hhead : c.hopStates.head? = some .closed := by
      rw [hhops, List.nil_append, List.head?_replicate, if_neg (by omega)]
    rw [circuitSendNextOnionSkin_of_head hhead, if_pos rfl]
    exact circuitSendFirstOnionSkin_neg_iff
  | cons s old =>
    have hhead : c.hopStates.head? = some s := by rw [hhops]; rfl
    rw [circuitSendNextOnionSkin_of_head hhead]
    cases s with
    | closed => exact circuitSendFirstOnionSkin_neg_iff
    | awaitingKeys => exact fun h => h
    | opened =>
      rw [if_neg CpathState.noConfusion, if_neg (by simp [hstate]), hi]
      exact circuitSendIntermediateOnionSkin_neg_iff

end Sending

/-! ### One circuit -/

theorem not_samePayments_of_length {c c' : OriginCircuit Info}
    (h : c.cpath.length < c'.cpath.length) : ¬ SamePayments c c' := by
  intro hsame
  rw [hsame.cpath] at h
  exact lt_irrefl _ h

theorem length_cpath_prepared (c : OriginCircuit Info) (lines : List Bytes) (infos : List Info) :
    (prepared c lines infos).cpath.length = c.cpath.length + infos.length := by
  show (c.cpath ++ closedHops infos).length = _
  rw [List.length_append, closedHops, List.length_map]

theorem samePayments_prepared_iff (c : OriginCircuit Info) (lines : List Bytes)
    (infos : List Info) :
    SamePayments c (prepared c lines infos) ↔
      infos = [] ∧ c.payhashes = some (payhashString lines) ∧
        c.relayPayments = some (paidItems lines) := by
  constructor
  · rintro ⟨hcpath, hpayhashes, hrelay⟩
    have hlen := length_cpath_prepared c lines infos
    rw [hcpath] at hlen
    exact ⟨List.length_eq_zero_iff.mp (by omega), hpayhashes.symm, hrelay.symm⟩
  · rintro ⟨rfl, hpayhashes, hrelay⟩
    exact ⟨List.append_nil _, hpayhashes.symm, hrelay.symm⟩

theorem samePayments_circuitMarkForClose_iff (c c' : OriginCircuit Info) (probeSent : Bool) :
    SamePayments c (circuitMarkForClose probeSent c') ↔ SamePayments c c' := by
  obtain ⟨purpose, marked, heq⟩ := circuitMarkForClose_eq probeSent c'
  rw [heq]
  exact ⟨fun h => ⟨h.cpath, h.payhashes, h.relayPayments⟩,
    fun h => ⟨h.cpath, h.payhashes, h.relayPayments⟩⟩

theorem startBuilding_existing_iff (env : Env Node Info) {c p : OriginCircuit Info} {n : ℕ}
    (hn : 0 < n) (hhops : p.hopStates = c.hopStates ++ List.replicate n .closed) :
    (∀ c' reply, startBuilding env false p = some (c', reply) →
        reply.code ≠ 250 → SamePayments c c') ↔
      (p.state = .opened ∨ p.state = .guardWait) ∧ ¬ SendFails env.skin c.hopStates := by
  have hlonger : c.cpath.length < p.cpath.length := by
    have hlen := congrArg List.length hhops
    rw [List.length_append, List.length_replicate, OriginCircuit.hopStates,
      OriginCircuit.hopStates, List.length_map, List.length_map] at hlen
    omega
  rw [startBuilding, if_neg Bool.false_ne_true]
  by_cases hstate : p.state = .opened ∨ p.state = .guardWait
  · have hspec := circuitSendNextOnionSkin_spec (o := env.skin) (c := { p with state := .building })
      hn hhops rfl
    rw [if_pos hstate]
    simp only [hstate, true_and]
    cases hsend : circuitSendNextOnionSkin env.skin { p with state := .building } with
    | none =>
      rw [hsend] at hspec
      exact ⟨fun _ => hspec, fun _ c' reply h => absurd h (by simp)⟩
    | some r =>
      rw [hsend] at hspec
      have hframe := circuitSendNextOnionSkin_frame hsend
      simp only
      by_cases herr : r.2 < 0
      · -- The circuit is marked, but its path has the new hops.
        rw [if_pos herr]
        constructor
        · intro h
          have hsame := h _ _ rfl (show ¬ (551 : ℕ) = 250 by decide)
          rw [samePayments_circuitMarkForClose_iff] at hsame
          exact absurd hsame (not_samePayments_of_length (hframe.1 ▸ hlonger))
        · intro h
          exact absurd (hspec.mp herr) h
      · rw [if_neg herr]
        constructor
        · intro _ hfails
          exact herr (hspec.mpr hfails)
        · intro _ c' reply h hcode
          obtain ⟨-, rfl⟩ := Prod.mk.injEq .. ▸ Option.some_inj.mp h
          exact absurd rfl hcode
  · rw [if_neg hstate]
    constructor
    · intro h
      exact absurd (h _ _ rfl (show ¬ (551 : ℕ) = 250 by decide))
        (not_samePayments_of_length hlonger)
    · rintro ⟨h, -⟩
      exact absurd h hstate

/-- An error reply about an existing circuit is honest on the inputs of `HarmlessOn`. -/
theorem extendPaid_existing_iff (env : Env Node Info) {lines : List Bytes}
    (c : OriginCircuit Info) (hlines : lines ≠ []) :
    (∀ c' reply, extendPaid env false lines c = some (c', reply) →
        reply.code ≠ 250 → SamePayments c c') ↔ HarmlessOn env lines c := by
  rw [extendPaid_eq env false c hlines, HarmlessOn]
  cases hlook : lookupAll env false (keptLines lines) with
  | error r =>
    constructor
    · intro _ nodes hnodes
      exact absurd hnodes (by simp)
    · intro _ c' reply h _
      obtain ⟨rfl, -⟩ := Prod.mk.injEq .. ▸ Option.some_inj.mp h
      exact ⟨rfl, rfl, rfl⟩
  | ok nodes =>
    simp only
    by_cases hnil : nodes.length = 0
    · rw [if_pos hnil]
      constructor
      · intro _ nodes' heq hne
        obtain rfl := Except.ok.inj heq
        exact absurd (List.length_eq_zero_iff.mp hnil) hne
      · intro _ c' reply h _
        obtain ⟨rfl, -⟩ := Prod.mk.injEq .. ▸ Option.some_inj.mp h
        exact ⟨rfl, rfl, rfl⟩
    have hne : nodes ≠ [] := fun h => hnil (h ▸ rfl)
    -- the nodes are the ones that were found
    have hquant : ∀ P : List Node → Prop,
        (∀ nodes', (Except.ok nodes : Except Reply _) = .ok nodes' → nodes' ≠ [] → P nodes') ↔
          P nodes := by
      intro P
      constructor
      · intro h
        exact h nodes rfl hne
      · intro h nodes' heq _
        exact Except.ok.inj heq ▸ h
    rw [if_neg hnil, hquant]
    by_cases hlong : TooLong lines
    · rw [if_pos hlong, if_pos hlong]
      constructor
      · intro h
        exact (h _ _ rfl (show ¬ (552 : ℕ) = 250 by decide)).payhashes.symm
      · intro hpayhashes c' reply h _
        obtain ⟨rfl, -⟩ := Prod.mk.injEq .. ▸ Option.some_inj.mp h
        exact ⟨rfl, hpayhashes.symm, rfl⟩
    rw [if_neg hlong, if_neg hlong]
    by_cases hall : (usableInfos env false nodes).length = nodes.length
    · -- every node has its extend info, and what is left is whether the building fails
      rw [if_pos hall, if_neg (by omega)]
      exact startBuilding_existing_iff env (by omega) (hopStates_prepared c lines _)
    · have hle := length_usableInfos_le env false nodes
      rw [if_neg hall, if_pos (by omega), ← samePayments_prepared_iff]
      constructor
      · intro h
        exact (samePayments_circuitMarkForClose_iff _ _ _).mp
          (h _ _ rfl (show ¬ (551 : ℕ) = 250 by decide))
      · intro hsame c' reply h _
        obtain ⟨rfl, -⟩ := Prod.mk.injEq .. ▸ Option.some_inj.mp h
        exact (samePayments_circuitMarkForClose_iff _ _ _).mpr hsame

theorem startBuilding_zero_marked {env : Env Node Info} {c c' : OriginCircuit Info} {reply : Reply}
    (hpath : c.pathState ≠ .useAttempted) (h : startBuilding env true c = some (c', reply))
    (hcode : reply.code ≠ 250) : c'.markedForClose = true := by
  rw [startBuilding, if_pos rfl] at h
  split at h
  · exact absurd h (by simp)
  rename_i c1 errReason hfirst
  split_ifs at h with herr
  · obtain ⟨rfl, -⟩ := Prod.mk.injEq .. ▸ Option.some_inj.mp h
    have hframe : c1.pathState = c.pathState := circuitHandleFirstHop_pathState hfirst
    rw [circuitMarkForClose_marked (hframe ▸ hpath)]
  · obtain ⟨-, rfl⟩ := Prod.mk.injEq .. ▸ Option.some_inj.mp h
    exact absurd rfl hcode

theorem extendPaid_new_iff (env : Env Node Info) {lines : List Bytes} {c : OriginCircuit Info}
    (hlines : lines ≠ []) (hpath : c.pathState ≠ .useAttempted)
    (hopen : c.markedForClose = false) :
    (∀ c' reply, extendPaid env true lines c = some (c', reply) →
        reply.code ≠ 250 → c'.markedForClose = true) ↔
      ¬ Refused env true lines ∧ ¬ TooLong lines := by
  rw [extendPaid_eq env true c hlines, Refused]
  cases hlook : lookupAll env true (keptLines lines) with
  | error r =>
    simp only
    constructor
    · intro h
      have hcode : ¬ r.code = 250 := by
        rw [code_of_lookupAll hlook]
        decide
      have hmarked := h _ _ rfl hcode
      exact absurd (hopen.symm.trans hmarked) Bool.false_ne_true
    · rintro ⟨h, -⟩
      exact absurd (fun nodes hnodes => absurd hnodes (by simp)) h
  | ok nodes =>
    have hrefused : (∀ nodes', (Except.ok nodes : Except Reply _) = .ok nodes' → nodes' = []) ↔
        nodes.length = 0 := by
      rw [List.length_eq_zero_iff]
      constructor
      · intro h
        exact h nodes rfl
      · intro h nodes' heq
        exact Except.ok.inj heq ▸ h
    rw [hrefused]
    simp only
    by_cases hnil : nodes.length = 0
    · rw [if_pos hnil]
      constructor
      · intro h
        have hmarked := h _ _ rfl (show ¬ (512 : ℕ) = 250 by decide)
        exact absurd (hopen.symm.trans hmarked) Bool.false_ne_true
      · rintro ⟨h, -⟩
        exact absurd hnil h
    by_cases hlong : TooLong lines
    · rw [if_neg hnil, if_pos hlong]
      constructor
      · intro h
        have hmarked := h _ _ rfl (show ¬ (552 : ℕ) = 250 by decide)
        exact absurd (hopen.symm.trans hmarked) Bool.false_ne_true
      · rintro ⟨-, h⟩
        exact absurd hlong h
    rw [if_neg hnil, if_neg hlong]
    constructor
    · intro _
      exact ⟨hnil, hlong⟩
    · -- from here on a failure marks the circuit, whichever it is
      intro _ c' reply h hcode
      split_ifs at h with hall
      · exact startBuilding_zero_marked (c := prepared c lines _) hpath h hcode
      · obtain ⟨rfl, -⟩ := Prod.mk.injEq .. ▸ Option.some_inj.mp h
        rw [circuitMarkForClose_marked (c := prepared c lines _) hpath]

theorem noEffect_self (circuits : List (OriginCircuit Info)) : NoEffect circuits circuits where
  closed := by
    intro c hc
    rw [List.drop_length] at hc
    exact absurd hc (by simp)
  same := fun _ c hc => ⟨c, hc, rfl, rfl, rfl⟩

theorem noEffect_append_iff (circuits : List (OriginCircuit Info)) (c : OriginCircuit Info) :
    NoEffect circuits (circuits ++ [c]) ↔ c.markedForClose = true := by
  constructor
  · intro h
    exact h.closed c (by rw [List.drop_left]; exact List.mem_singleton_self c)
  · intro h
    refine ⟨fun c' hc' => ?_, fun i c' hc' => ⟨c', ?_, rfl, rfl, rfl⟩⟩
    · rw [List.drop_left] at hc'
      rw [List.mem_singleton.mp hc', h]
    · rw [List.getElem?_append_left (List.getElem?_eq_some_iff.mp hc').1, hc']

theorem noEffect_set_iff {circuits : List (OriginCircuit Info)} {i : ℕ} {c : OriginCircuit Info}
    (c' : OriginCircuit Info) (hc : circuits[i]? = some c) :
    NoEffect circuits (circuits.set i c') ↔ SamePayments c c' := by
  have hlt := (List.getElem?_eq_some_iff.mp hc).1
  constructor
  · intro h
    obtain ⟨c'', hget, hsame⟩ := h.same i c hc
    rw [List.getElem?_set_self hlt] at hget
    exact Option.some_inj.mp hget ▸ hsame
  · intro h
    refine ⟨fun c'' hc'' => ?_, fun j d hd => ?_⟩
    · rw [List.drop_eq_nil_of_le (by rw [List.length_set])] at hc''
      exact absurd hc'' (by simp)
    · by_cases hij : i = j
      · subst hij
        obtain rfl := Option.some_inj.mp (hc.symm.trans hd)
        exact ⟨c', List.getElem?_set_self hlt, h⟩
      · exact ⟨d, by rw [List.getElem?_set_ne hij, hd], rfl, rfl, rfl⟩

def emptyEnv : Env Unit Unit := { workingEnv with nodeGetByNickname := fun _ => none }

end ExtendPaidCircuit
