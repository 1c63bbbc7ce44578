/-
The payment gate of a relay (`feature/relay/circuitbuild_relay.c`).

`circuit_extend` parses the EXTEND or EXTEND2 message of a relay cell and goes on
only if it finds a payment.  It looks for the payment in the whole payload of
the cell: in the relay header, in the message and in the padding behind it.
-/
import LibEltor.ExtendCell
import LibEltor.PaymentUtil

open Bytes ListSearch Onion PaymentUtil

namespace CircuitExtend

structure RelayHeader where
  command : UInt8
  recognized : UInt16
  streamId : UInt16
  integrity : Block 4
  length : UInt16

def relayHeaderUnpack (src : Bytes) : RelayHeader where
  command := src.headD 0
  recognized := getBe16 (src.drop 1)
  streamId := getBe16 (src.drop 3)
  integrity := zeroFill 4 ((src.drop 5).take 4)
  length := getBe16 (src.drop 9)

/-- How far `circuit_extend` comes with a cell.  Every outcome but the last
closes the circuit; from the last it goes on with the parsed cell. -/
inductive Verdict
  | badState
  | unparseable
  | unpaid
  | paid (ec : ExtendCell)

/-- The beginning of `circuit_extend`: the state of the circuit is checked, the
message parsed and a payment searched for.  `stateValid` is the result of
`circuit_extend_state_valid_helper`. -/
def circuitExtend (stateValid : Bool) (payload : Block cellPayloadSize) : Verdict :=
  let rh := relayHeaderUnpack payload.toList
  let message := (payload.toList.drop relayHeaderSize).take rh.length.toNat
  if ¬ stateValid then .badState
  else if rh.length.toNat > relayPayloadSize then .unparseable
  else
    match extendCellParse rh.command message with
    | none => .unparseable
    | some ec => if hasPaymentIdHash payload.toList then .paid ec else .unpaid

/-! ### A message and the cells that carry it -/

/-- A well-formed EXTEND or EXTEND2 message as it stands in a cell, its relay
header included. -/
structure ExtendMessage where
  bytes : Bytes
  length_eq : bytes.length = relayHeaderSize + (relayHeaderUnpack bytes).length.toNat
  length_le : bytes.length ≤ cellPayloadSize
  ec : ExtendCell
  rest : Bytes
  read : extendCellRead (relayHeaderUnpack bytes).command (bytes.drop relayHeaderSize) =
    some (ec, rest)
  check : CheckExtendCell ec

namespace ExtendMessage

def Carried (m : ExtendMessage) (payload : Block cellPayloadSize) : Prop :=
  m.bytes <+: payload.toList

/-- The bytes behind the encoded body are a payment that is not empty. -/
def Paid (m : ExtendMessage) : Prop := ∃ payment, payment ≠ [] ∧ m.rest = wireFormat payment

/-- At `i` the message, or the message together with padding, may hold the
prefix of a payment with a byte behind it. -/
def Open (m : ExtendMessage) (i : ℕ) : Prop :=
  i ≤ m.bytes.length ∧ i + 14 ≤ cellPayloadSize ∧ (m.bytes.drop i).take 13 <+: payhashMagic

end ExtendMessage

/-- `circuit_extend` finds a payment in the cell. -/
def Accepts (payload : Block cellPayloadSize) : Prop :=
  ∃ ec, circuitExtend true payload = .paid ec

def GateRespectsMessage (m : ExtendMessage) : Prop :=
  (∀ p p', m.Carried p → m.Carried p' → (Accepts p ↔ Accepts p')) ∧
    ∀ p, m.Carried p → (Accepts p ↔ m.Paid)

theorem relayHeaderUnpack_append {p t : Bytes} (h : 11 ≤ p.length) :
    relayHeaderUnpack (p ++ t) = relayHeaderUnpack p := by
  have hget : ∀ k, k + 2 ≤ 11 → getBe16 ((p ++ t).drop k) = getBe16 (p.drop k) := by
    intro k hk
    refine getBe16_eq_of_take_eq le_rfl ?_
    rw [List.drop_append_of_le_length (by omega), List.take_append_of_le_length]
    rw [List.length_drop]
    omega
  have hmac : ((p ++ t).drop 5).take 4 = (p.drop 5).take 4 := by
    rw [List.drop_append_of_le_length (by omega), List.take_append_of_le_length]
    rw [List.length_drop]
    omega
  have hcmd : (p ++ t).headD 0 = p.headD 0 := by
    cases p with
    | nil => simp at h
    | cons b p => rfl
  rw [relayHeaderUnpack, relayHeaderUnpack, hcmd, hget 1 (by omega), hget 3 (by omega), hmac,
    hget 9 (by omega)]

theorem circuitExtend_carried {m : ExtendMessage} {payload : Block cellPayloadSize}
    (h : m.Carried payload) :
    circuitExtend true payload =
      if hasPaymentIdHash payload.toList then .paid m.ec else .unpaid := by
  obtain ⟨pad, hpad⟩ := h
  have hlen := m.length_eq
  have hle := m.length_le
  have hheader : relayHeaderUnpack payload.toList = relayHeaderUnpack m.bytes := by
    rw [← hpad]
    exact relayHeaderUnpack_append (by rw [hlen]; simp)
  have hbody : (m.bytes.drop relayHeaderSize).length =
      (relayHeaderUnpack m.bytes).length.toNat := by
    rw [List.length_drop, hlen]
    simp
  have hmessage : (payload.toList.drop relayHeaderSize).take
      (relayHeaderUnpack m.bytes).length.toNat = m.bytes.drop relayHeaderSize := by
    rw [← hpad, List.drop_append_of_le_length (by rw [hlen]; simp), ← hbody, List.take_left]
  have hsize : (m.bytes.drop relayHeaderSize).length ≤ 2037 := by
    rw [List.length_drop]
    simp only [cellPayloadSize] at hle
    simp only [relayHeaderSize]
    omega
  have hparse := extendCellParse_of_read hsize m.read m.check
  simp only [circuitExtend, hheader, hmessage, hparse]
  rw [if_neg (by simp), if_neg (by rw [← hbody]; exact not_lt.mpr hsize)]

theorem accepts_iff {m : ExtendMessage} {payload : Block cellPayloadSize}
    (h : m.Carried payload) :
    Accepts payload ↔ ∃ i, payhashMagic <+: payload.toList.drop i ∧ i + 14 ≤ 2048 := by
  have hsearch : hasPaymentIdHash payload.toList = true ↔ _ := hasPaymentIdHash_iff
  rw [length_toList_block] at hsearch
  unfold Accepts
  rw [circuitExtend_carried h, ← hsearch]
  by_cases hp : hasPaymentIdHash payload.toList = true
  · simp [hp]
  · simp [hp]

theorem accepts_of_paid {m : ExtendMessage} {payload : Block cellPayloadSize}
    (h : m.Carried payload) (hp : m.Paid) : Accepts payload := by
  obtain ⟨payment, hne, hrest⟩ := hp
  obtain ⟨pre, hpre⟩ := (extendCellRead_isSuffix m.read).trans (List.drop_suffix _ _)
  obtain ⟨pad, hpad⟩ := h
  have hle := m.length_le
  have hpos : 0 < payment.length := List.length_pos_iff.mpr hne
  refine (accepts_iff ⟨pad, hpad⟩).mpr ⟨pre.length, ?_, ?_⟩
  · rw [← hpad, ← hpre, hrest, wireFormat, List.append_assoc, List.append_assoc, List.drop_left]
    exact List.prefix_append _ _
  · rw [← hpre, hrest, List.length_append, length_wireFormat] at hle
    simp only [cellPayloadSize] at hle
    omega

theorem open_of_accepts {m : ExtendMessage} {payload : Block cellPayloadSize}
    (h : m.Carried payload) (ha : Accepts payload) : ∃ i, m.Open i := by
  obtain ⟨i, hi, hroom⟩ := (accepts_iff h).mp ha
  obtain ⟨pad, hpad⟩ := h
  by_cases hin : i ≤ m.bytes.length
  · refine ⟨i, hin, hroom, ?_⟩
    rw [← hpad, List.drop_append_of_le_length hin] at hi
    refine List.prefix_of_prefix_length_le ((List.take_prefix 13 _).trans
      (List.prefix_append _ pad)) hi ?_
    rw [List.length_take]
    exact min_le_left _ _
  · -- The prefix stands in the padding, so there is room right behind the message.
    refine ⟨m.bytes.length, le_rfl, ?_, ?_⟩
    · simp only [cellPayloadSize]
      omega
    · rw [List.drop_length]
      exact List.nil_prefix

theorem accepts_of_open {m : ExtendMessage} {i : ℕ} (hi : m.Open i) :
    ∃ payload, m.Carried payload ∧ Accepts payload := by
  obtain ⟨hin, hroom, v, hv⟩ := hi
  have hle := m.length_le
  simp only [cellPayloadSize] at hroom hle
  have hvlen := congrArg List.length hv
  rw [List.length_append, List.length_take, List.length_drop, length_payhashMagic] at hvlen
  have hsize : (m.bytes ++ v).length ≤ 2048 := by
    rw [List.length_append]
    omega
  have hcarried : m.Carried (zeroFill 2048 (m.bytes ++ v)) := by
    unfold ExtendMessage.Carried
    rw [toList_zeroFill hsize, List.append_assoc]
    exact List.prefix_append _ _
  refine ⟨_, hcarried, (accepts_iff hcarried).mpr ⟨i, ?_, hroom⟩⟩
  rw [toList_zeroFill hsize, List.append_assoc, List.drop_append_of_le_length hin]
  by_cases hshort : m.bytes.length - i ≤ 13
  · rw [List.take_of_length_le (by rw [List.length_drop]; exact hshort)] at hv
    rw [← List.append_assoc, hv]
    exact List.prefix_append _ _
  · -- The whole prefix already stands in the message.
    have hv0 : v = [] := List.length_eq_zero_iff.mp (by omega)
    rw [hv0, List.append_nil] at hv
    rw [← hv]
    exact (List.take_prefix 13 _).trans (List.prefix_append _ _)

/-- **The gate decides by the message** exactly for the messages that carry a
payment and those that leave no place for one. -/
theorem gateRespectsMessage_iff (m : ExtendMessage) :
    GateRespectsMessage m ↔ m.Paid ∨ ∀ i, ¬ m.Open i := by
  constructor
  · rintro ⟨-, hgate⟩
    by_contra hcon
    obtain ⟨hunpaid, hopen⟩ := not_or.mp hcon
    obtain ⟨i, hi⟩ := not_forall_not.mp hopen
    obtain ⟨payload, hcarried, haccepts⟩ := accepts_of_open hi
    exact hunpaid ((hgate payload hcarried).mp haccepts)
  · rintro (hpaid | hclosed)
    · have hall : ∀ p, m.Carried p → Accepts p := fun p hp => accepts_of_paid hp hpaid
      exact ⟨fun p p' hp hp' => iff_of_true (hall p hp) (hall p' hp'),
        fun p hp => iff_of_true (hall p hp) hpaid⟩
    · have hnone : ∀ p, m.Carried p → ¬ Accepts p := fun p hp ha =>
        (open_of_accepts hp ha).elim hclosed
      refine ⟨fun p p' hp hp' => iff_of_false (hnone p hp) (hnone p' hp'),
        fun p hp => iff_of_false (hnone p hp) fun hpaid => hnone p hp (accepts_of_paid hp hpaid)⟩

def sampleBody : Extend1CellBody where
  ipv4addr := 0x7f000001
  port := 9001
  onionskin := zeroBlock 186
  identity := zeroFill 20 [1]

def sampleMessage : ExtendMessage where
  bytes := [relayCommandExtend, 0, 0, 0, 0, 0, 0, 0, 0, 0, 212] ++
    (be32 sampleBody.ipv4addr ++ (be16 sampleBody.port ++
      (sampleBody.onionskin.toList ++ sampleBody.identity.toList)))
  length_eq := by simp [relayHeaderUnpack, getBe16]
  length_le := by simp
  ec := extendCellFromExtend1CellBody sampleBody
  rest := []
  read := by
    have h := extendCellRead_extend1CellBody sampleBody []
    rwa [List.append_nil] at h
  check := by decide

/-- A cell with that message, and `"eltor_payhash1"` behind it. -/
def forgedCell : Block cellPayloadSize :=
  zeroFill _ (sampleMessage.bytes ++ (payhashMagic ++ [49]))

theorem gate_accepts_padding :
    sampleMessage.Carried forgedCell ∧ Accepts forgedCell ∧ ¬ sampleMessage.Paid := by
  have hlen : sampleMessage.bytes.length = 223 := by simp [sampleMessage]
  have hsize : (sampleMessage.bytes ++ (payhashMagic ++ [49])).length ≤ 2048 := by
    simp [hlen]
  have hlist : forgedCell.toList = _ := toList_zeroFill hsize
  have hcarried : sampleMessage.Carried forgedCell := by
    unfold ExtendMessage.Carried
    rw [hlist, List.append_assoc]
    exact List.prefix_append _ _
  refine ⟨hcarried, (accepts_iff hcarried).mpr ⟨223, ?_, by omega⟩, ?_⟩
  · rw [hlist, List.append_assoc, List.drop_left' hlen, List.append_assoc]
    exact List.prefix_append _ _
  · rintro ⟨payment, -, h⟩
    have h0 := congrArg List.length h
    rw [length_wireFormat] at h0
    have h1 : sampleMessage.rest.length = 0 := rfl
    omega

end CircuitExtend
