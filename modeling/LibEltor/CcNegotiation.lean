/-
Negotiation of congestion control by the client (`core/or/congestion_control_common.c`,
`core/crypto/onion_crypto.c`, `core/or/circuitbuild.c`).

The reply of an ntor-v3 handshake carries extensions.  The first field of type
`CC_RESPONSE` holds the SENDME increment of the circuit, which later divides the
count of cells at each cell sent or received.  What the parser of the reply
returns is read as whether congestion control is on: where it met no field of
that type, that is still the number of bytes the extensions took.
-/
import LibEltor.NtorV3
import LibEltor.CongestionControl

open Bytes Parser NtorV3 CongestionControl

namespace CcNegotiation

/-! ### The reply -/

abbrev ccFieldResponse : UInt8 := 2

def congestionControlSendmeInc (ns : Consensus) : ℕ :=
  Word.u8 (networkstatusGetParam ns .ccSendmeInc sendmeIncDflt 1 254)

def congestionControlValidateSendmeIncrement (ns : Consensus) (sendmeInc : UInt8) : Bool :=
  if sendmeInc = 0 then false
  else if (sendmeInc.toNat : ℤ) > congestionControlSendmeInc ns + 1 ∨
      (sendmeInc.toNat : ℤ) < congestionControlSendmeInc ns - 1 then false
  else true

/-- `trn_extension_field_cc_parse`: the increment is the first byte. -/
def trnExtensionFieldCcParse : Parser UInt8 := u8

/-- The loop over the fields, where `ret` is the result so far. -/
def parseResponseFields (ns : Consensus) (ret : ℤ) :
    List TrnExtensionField → CircuitParams → ℤ × CircuitParams
  | [], paramsOut => (ret, paramsOut)
  | field :: fields, paramsOut =>
    if field.fieldType = ccFieldResponse then
      match trnExtensionFieldCcParse field.field with
      | none => (-2, paramsOut)
      | some (sendmeIncCells, _) =>
        if ¬congestionControlValidateSendmeIncrement ns sendmeIncCells then (-1, paramsOut)
        -- the first response decides, and later fields are not looked at
        else (1, { paramsOut with sendmeIncCells := sendmeIncCells })
    else parseResponseFields ns ret fields paramsOut

/-- `congestion_control_parse_ext_response`: the result, and the parameters it
leaves. -/
def congestionControlParseExtResponse (ns : Consensus) (msg : Bytes) (paramsOut : CircuitParams) :
    ℤ × CircuitParams :=
  match trnExtensionParse msg with
  | none => (-1, paramsOut)
  | some (fields, rest) =>
    if fields.length = 0 then (0, paramsOut)
    -- where no field is a response, the result of the parse is still in `ret`
    else parseResponseFields ns (msg.length - rest.length) fields paramsOut

/-- What the client knows: the consensus, and whether congestion control is on
in it or in the configuration (`congestion_control_enabled`). -/
structure Client where
  ns : Consensus
  congestionControlEnabled : Bool

def negotiateV3NtorClientCircParams (client : Client) (paramResponseMsg : Bytes)
    (paramsOut : CircuitParams) : Option CircuitParams :=
  let (ret, paramsOut) := congestionControlParseExtResponse client.ns paramResponseMsg paramsOut
  if ret < 0 then none
  -- any result but zero counts as an agreement
  else if ret ≠ 0 ∧ ¬client.congestionControlEnabled then none
  else some { paramsOut with ccEnabled := decide (ret ≠ 0) }

/-- The types of a handshake, with what its own part made of the reply: it fails,
or accepts; ntor-v3 also yields the message of the server. -/
inductive Handshake
  | tap (accepted : Bool)
  | fast (accepted : Bool)
  | ntor (accepted : Bool)
  | ntorV3 (serverMsg : Option Bytes)
  deriving DecidableEq

def onionSkinClientHandshake (client : Client) (handshake : Handshake) : Option CircuitParams :=
  let paramsOut : CircuitParams := ⟨false, 0⟩
  match handshake with
  | .tap accepted | .fast accepted | .ntor accepted => if accepted then some paramsOut else none
  | .ntorV3 none => none
  | .ntorV3 (some serverMsg) => negotiateV3NtorClientCircParams client serverMsg paramsOut

/-- The flow control of the hop a handshake has finished, as
`circuit_finish_handshake` leaves it. -/
def finishHandshake (client : Client) (path : CcPath) (handshake : Handshake) : Option Edge := do
  let params ← onionSkinClientHandshake client handshake
  return {
    packageWindow := circuitInitialPackageWindow client.ns
    deliverWindow := circwindowStart
    ccontrol := if params.ccEnabled then some (congestionControlNew client.ns params path)
      else none }

def Validated (ns : Consensus) (fields : List TrnExtensionField) (sendmeInc : UInt8) : Prop :=
  ∃ field ∈ fields, field.fieldType = ccFieldResponse ∧ field.field.head? = some sendmeInc ∧
    congestionControlValidateSendmeIncrement ns sendmeInc

theorem Validated.ne_zero {ns : Consensus} {fields : List TrnExtensionField} {sendmeInc : UInt8}
    (h : Validated ns fields sendmeInc) : sendmeInc ≠ 0 := by
  obtain ⟨_, _, _, _, hv⟩ := h
  rintro rfl
  simp [congestionControlValidateSendmeIncrement] at hv

theorem parseResponseFields_spec (ns : Consensus) (ret : ℤ) (fields : List TrnExtensionField)
    (paramsOut : CircuitParams) :
    ((∀ field ∈ fields, field.fieldType ≠ ccFieldResponse) ∧
        parseResponseFields ns ret fields paramsOut = (ret, paramsOut)) ∨
      ((∃ field ∈ fields, field.fieldType = ccFieldResponse) ∧
        ((parseResponseFields ns ret fields paramsOut).1 < 0 ∨
          ∃ sendmeInc, Validated ns fields sendmeInc ∧
            parseResponseFields ns ret fields paramsOut =
              (1, { paramsOut with sendmeIncCells := sendmeInc }))) := by
  induction fields with
  | nil => exact .inl ⟨by simp, rfl⟩
  | cons field fields ih =>
    -- a response ends the loop; any other field leaves `ret` as it is
    by_cases hf : field.fieldType = ccFieldResponse
    · refine .inr ⟨⟨field, by simp, hf⟩, ?_⟩
      rw [parseResponseFields, if_pos hf]
      rcases hb : field.field with _ | ⟨b, rest⟩
      · refine .inl ?_
        show (-2 : ℤ) < 0
        norm_num
      · have hp : trnExtensionFieldCcParse (b :: rest) = some (b, rest) := rfl
        rw [hp]
        by_cases hv : congestionControlValidateSendmeIncrement ns b
        · refine .inr ⟨b, ⟨field, by simp, hf, by rw [hb]; rfl, hv⟩, ?_⟩
          simp [hv]
        · refine .inl ?_
          simp [hv]
    · rw [parseResponseFields, if_neg hf]
      rcases ih with ⟨hno, heq⟩ | ⟨⟨f, hmem, hft⟩, h⟩
      · exact .inl ⟨by simpa [hf] using hno, heq⟩
      · refine .inr ⟨⟨f, by simp [hmem], hft⟩, ?_⟩
        rcases h with h | ⟨inc, ⟨g, hg, hgt, hgh, hgv⟩, heq⟩
        · exact .inl h
        · exact .inr ⟨inc, ⟨g, by simp [hg], hgt, hgh, hgv⟩, heq⟩

theorem parseExtResponse_spec (ns : Consensus) (paramsOut : CircuitParams) {msg rest : Bytes}
    {fields : List TrnExtensionField} (h : trnExtensionParse msg = some (fields, rest)) :
    (fields = [] ∧ congestionControlParseExtResponse ns msg paramsOut = (0, paramsOut)) ∨
      (fields ≠ [] ∧ (∀ field ∈ fields, field.fieldType ≠ ccFieldResponse) ∧
        ∃ ret > 0, congestionControlParseExtResponse ns msg paramsOut = (ret, paramsOut)) ∨
      ((∃ field ∈ fields, field.fieldType = ccFieldResponse) ∧
        ((congestionControlParseExtResponse ns msg paramsOut).1 < 0 ∨
          ∃ sendmeInc, Validated ns fields sendmeInc ∧
            congestionControlParseExtResponse ns msg paramsOut =
              (1, { paramsOut with sendmeIncCells := sendmeInc }))) := by
  have hlt := length_lt_of_trnExtensionParse h
  have heq : congestionControlParseExtResponse ns msg paramsOut =
      if fields.length = 0 then (0, paramsOut)
      else parseResponseFields ns (msg.length - rest.length) fields paramsOut := by
    rw [congestionControlParseExtResponse, h]
  rw [heq]
  rcases fields with _ | ⟨field, fields⟩
  · exact .inl ⟨rfl, rfl⟩
  · rw [if_neg (by simp)]
    rcases parseResponseFields_spec ns (msg.length - rest.length) (field :: fields) paramsOut with
      ⟨hno, hres⟩ | hres
    · refine .inr (.inl ⟨by simp, hno, _, ?_, hres⟩)
      omega
    · exact .inr (.inr hres)

theorem negotiate_spec (client : Client) {msg : Bytes} {params : CircuitParams}
    (h : negotiateV3NtorClientCircParams client msg ⟨false, 0⟩ = some params) :
    ∃ fields rest, trnExtensionParse msg = some (fields, rest) ∧
      ((fields = [] ∧ params = ⟨false, 0⟩) ∨
        (client.congestionControlEnabled ∧ fields ≠ [] ∧
          (∀ field ∈ fields, field.fieldType ≠ ccFieldResponse) ∧ params = ⟨true, 0⟩) ∨
        (client.congestionControlEnabled ∧ (∃ field ∈ fields, field.fieldType = ccFieldResponse) ∧
          Validated client.ns fields params.sendmeIncCells ∧ params.ccEnabled)) := by
  unfold negotiateV3NtorClientCircParams at h
  rcases hp : trnExtensionParse msg with _ | ⟨fields, rest⟩
  · have hneg : congestionControlParseExtResponse client.ns msg ⟨false, 0⟩ = (-1, ⟨false, 0⟩) := by
      rw [congestionControlParseExtResponse, hp]
    rw [hneg] at h
    simp at h
  · refine ⟨fields, rest, rfl, ?_⟩
    rcases parseExtResponse_spec client.ns ⟨false, 0⟩ hp with
      ⟨hnil, heq⟩ | ⟨hne, hno, ret, hret, heq⟩ | ⟨hsome, hneg | ⟨inc, hv, heq⟩⟩
    · rw [heq] at h
      exact .inl ⟨hnil, by simpa using h.symm⟩
    · rw [heq] at h
      simp only [not_lt.mpr hret.le, if_false, ne_eq, hret.ne', not_false_eq_true, true_and,
        decide_true] at h
      split_ifs at h with hc
      -- the parameters are those of the start, with congestion control on
      exact .inr (.inl ⟨by simpa using hc, hne, hno, by simpa using h.symm⟩)
    · simp only [hneg, if_true] at h
      cases h
    · rw [heq] at h
      simp only [show ¬(1 : ℤ) < 0 by norm_num, if_false, ne_eq, one_ne_zero, not_false_eq_true,
        true_and, decide_true] at h
      split_ifs at h with hc
      cases h
      exact .inr (.inr ⟨by simpa using hc, hsome, hv, rfl⟩)

/-! ### The increment of a circuit -/

/-- The circuit later on: its counters are others, the increment is the same. -/
def Later (edge later : Edge) : Prop :=
  later.ccontrol.map (·.sendmeInc) = edge.ccontrol.map (·.sendmeInc)

/-- The increment a client uses was offered and validated, it divides, and
congestion control is off where none was offered. -/
structure Sound (client : Client) (handshake : Handshake) (edge : Edge) : Prop where
  offered : ∀ cc ∈ edge.ccontrol, ∃ serverMsg fields rest sendmeInc,
    handshake = .ntorV3 (some serverMsg) ∧ trnExtensionParse serverMsg = some (fields, rest) ∧
      Validated client.ns fields sendmeInc ∧ cc.sendmeInc = sendmeInc.toNat ∧ cc.sendmeInc ≠ 0
  divides : ∀ later, Later edge later → (circuitSentCellForSendme later).isSome ∧
    (circuitSendmeCellIsNext later.deliverWindow (sendmeGetIncCount later)).isSome
  off : ∀ serverMsg fields rest, handshake = .ntorV3 (some serverMsg) →
    trnExtensionParse serverMsg = some (fields, rest) →
    (∀ field ∈ fields, field.fieldType ≠ ccFieldResponse) → edge.ccontrol = none

/-- Extensions with fields, none of which is a `CC_RESPONSE`, to a client that
has congestion control on. -/
def SilentReply (client : Client) (handshake : Handshake) : Prop :=
  client.congestionControlEnabled ∧ ∃ serverMsg fields rest,
    handshake = .ntorV3 (some serverMsg) ∧ trnExtensionParse serverMsg = some (fields, rest) ∧
      fields ≠ [] ∧ ∀ field ∈ fields, field.fieldType ≠ ccFieldResponse

theorem sound_off {client : Client} {handshake : Handshake} {edge : Edge}
    (h : edge.ccontrol = none) : Sound client handshake edge where
  offered := by simp [h]
  divides later hl := by
    have hnone : later.ccontrol = none := by simpa [Later, h] using hl
    exact sendme_defined (by simp [hnone])
  off _ _ _ _ _ _ := h

theorem finishHandshake_eq_some {client : Client} {path : CcPath} {handshake : Handshake}
    {edge : Edge} (h : finishHandshake client path handshake = some edge) :
    ∃ params, onionSkinClientHandshake client handshake = some params ∧
      edge.ccontrol = if params.ccEnabled then some (congestionControlNew client.ns params path)
        else none := by
  simp only [finishHandshake, Option.bind_eq_bind, Option.bind_eq_some_iff] at h
  obtain ⟨params, hp, h⟩ := h
  exact ⟨params, hp, by cases h; rfl⟩

theorem onionSkinClientHandshake_spec {client : Client} {handshake : Handshake}
    {params : CircuitParams} (h : onionSkinClientHandshake client handshake = some params) :
    params = ⟨false, 0⟩ ∨ ∃ serverMsg, handshake = .ntorV3 (some serverMsg) ∧
      negotiateV3NtorClientCircParams client serverMsg ⟨false, 0⟩ = some params := by
  rcases handshake with accepted | accepted | accepted | _ | serverMsg
  · cases accepted <;> cases h
    exact .inl rfl
  · cases accepted <;> cases h
    exact .inl rfl
  · cases accepted <;> cases h
    exact .inl rfl
  · cases h
  · exact .inr ⟨serverMsg, rfl, h⟩

/-- The increment of the circuit is sound after every reply but a silent one. -/
theorem handshake_sound_iff (client : Client) (path : CcPath) (handshake : Handshake) :
    (∀ edge, finishHandshake client path handshake = some edge → Sound client handshake edge) ↔
      ¬SilentReply client handshake := by
  constructor
  · rintro hsound ⟨hon, serverMsg, fields, rest, rfl, hp, hne, hno⟩
    -- the length that was parsed is read as an answer
    obtain ⟨ret, hret, heq⟩ : ∃ ret > 0,
        congestionControlParseExtResponse client.ns serverMsg ⟨false, 0⟩ = (ret, ⟨false, 0⟩) := by
      rcases parseExtResponse_spec client.ns ⟨false, 0⟩ hp with ⟨hnil, _⟩ | ⟨_, _, h⟩ | ⟨hyes, _⟩
      · exact absurd hnil hne
      · exact h
      · obtain ⟨field, hmem, hft⟩ := hyes
        exact absurd hft (hno field hmem)
    have hnot : ¬ret < 0 := not_lt.mpr hret.le
    have hparams : onionSkinClientHandshake client (.ntorV3 (some serverMsg)) =
        some ⟨true, 0⟩ := by
      simp [onionSkinClientHandshake, negotiateV3NtorClientCircParams, heq, hnot, hret.ne', hon]
    have hfinish : ∃ edge, finishHandshake client path (.ntorV3 (some serverMsg)) = some edge ∧
        edge.ccontrol ≠ none := by
      refine ⟨_, by rw [finishHandshake, hparams]; rfl, ?_⟩
      simp
    obtain ⟨edge, hedge, hon'⟩ := hfinish
    exact hon' ((hsound edge hedge).off serverMsg fields rest rfl hp hno)
  · intro hsilent edge hedge
    obtain ⟨params, hparams, hcc⟩ := finishHandshake_eq_some hedge
    rcases onionSkinClientHandshake_spec hparams with rfl | ⟨serverMsg, rfl, hneg⟩
    · exact sound_off (by simpa using hcc)
    obtain ⟨fields, rest, hp, ⟨-, rfl⟩ | ⟨hon, hne, hno, -⟩ | ⟨-, ⟨field, hmem, hft⟩, hv, hen⟩⟩ :=
      negotiate_spec client hneg
    · exact sound_off (by simpa using hcc)
    · exact absurd ⟨hon, serverMsg, fields, rest, rfl, hp, hne, hno⟩ hsilent
    · rw [hen, if_pos rfl] at hcc
      have hne : params.sendmeIncCells.toNat ≠ 0 := fun h0 =>
        hv.ne_zero (UInt8.toNat_inj.mp (by simpa using h0))
      refine ⟨?_, ?_, ?_⟩
      · intro cc hmemcc
        rw [hcc, Option.mem_some_iff] at hmemcc
        subst hmemcc
        exact ⟨serverMsg, fields, rest, _, rfl, hp, hv, rfl, hne⟩
      · -- the increment is the validated one for as long as the circuit lives
        intro later hl
        refine sendme_defined fun cc hmemcc => ?_
        have hinc : cc.sendmeInc = params.sendmeIncCells.toNat := by
          rw [Later, hcc, Option.mem_def.mp hmemcc] at hl
          simpa [congestionControlNew] using hl
        rwa [hinc]
      · -- the reply did hold a response
        intro serverMsg' fields' rest' hmsg hp' hno
        cases hmsg
        rw [hp] at hp'
        cases hp'
        exact absurd hft (hno field hmem)

def emptyConsensus : Consensus := fun _ => none

/-- One field of another type turns congestion control on with an increment of
zero, and the first cell received divides by it. -/
theorem silentReply_divides_by_zero :
    ¬(∀ edge, finishHandshake ⟨emptyConsensus, true⟩ .exit (.ntorV3 (some [1, 9, 0])) = some edge →
      Sound ⟨emptyConsensus, true⟩ (.ntorV3 (some [1, 9, 0])) edge) ∧
    ∃ edge, finishHandshake ⟨emptyConsensus, true⟩ .exit (.ntorV3 (some [1, 9, 0])) = some edge ∧
      circuitSendmeCellIsNext edge.deliverWindow (sendmeGetIncCount edge) = none := by
  have hfinish : ∃ edge,
      finishHandshake ⟨emptyConsensus, true⟩ .exit (.ntorV3 (some [1, 9, 0])) = some edge ∧
        circuitSendmeCellIsNext edge.deliverWindow (sendmeGetIncCount edge) = none :=
    ⟨_, rfl, by decide⟩
  refine ⟨fun hsound => ?_, hfinish⟩
  obtain ⟨edge, hedge, hnone⟩ := hfinish
  have hdef := ((hsound edge hedge).divides edge rfl).2
  rw [hnone] at hdef
  cases hdef

end CcNegotiation
