/-
Payments of a circuit (`feature/payment/payment_util.c`,
`feature/payment/relay_payments.c`).

A controller hands over one payment line for each hop: a fingerprint and a
payload of a payment hash, a preimage and the payment ids.  On the wire a payment
is `"eltor_payhash"` followed by the payload.  There are two stores for payments:
the list of parsed items, read by hop number, and the joined payloads, sliced at
a fixed stride of 768 bytes.
-/
import LibEltor.Bytes
import LibEltor.Search

open Bytes ListSearch

namespace PaymentUtil

def payhashMagic : Bytes := [101, 108, 116, 111, 114, 95, 112, 97, 121, 104, 97, 115, 104]

@[simp] theorem length_payhashMagic : payhashMagic.length = 13 := rfl

theorem payhashMagic_ne_nil : payhashMagic ≠ [] := by decide

theorem unbordered_payhashMagic : Unbordered payhashMagic := by decide

def wireFormat (payload : Bytes) : Bytes := payhashMagic ++ payload

@[simp] theorem length_wireFormat (payload : Bytes) :
    (wireFormat payload).length = 13 + payload.length := by
  rw [wireFormat, List.length_append, length_payhashMagic]

/-! ### Parsed payment lines -/

structure RelayPaymentItem where
  fingerprint : Bytes
  handshakePaymentHash : Bytes
  handshakePreimage : Bytes
  payhashes : Bytes
  wireFormat : Bytes
  deriving DecidableEq

abbrev minPayload : ℕ := 128

/-- `payment_util_parse_payment_line`: a fingerprint, a space and a payload. -/
def parsePaymentLine (line : Bytes) : Option RelayPaymentItem :=
  match line.dropWhile (· ≠ 32) with
  | [] => none
  | _ :: payload =>
    if payload.length < minPayload then none
    else some
      { fingerprint := line.takeWhile (· ≠ 32)
        handshakePaymentHash := payload.take 64
        handshakePreimage := (payload.drop 64).take 64
        payhashes := payload.drop 128
        wireFormat := wireFormat payload }

/-- The payload of a line, put together again from the fields of its item. -/
def RelayPaymentItem.payload (item : RelayPaymentItem) : Bytes :=
  item.handshakePaymentHash ++ item.handshakePreimage ++ item.payhashes

theorem parsePaymentLine_eq_some {line : Bytes} {item : RelayPaymentItem}
    (h : parsePaymentLine line = some item) :
    line = item.fingerprint ++ 32 :: item.payload ∧ 32 ∉ item.fingerprint ∧
      minPayload ≤ item.payload.length ∧ item.wireFormat = PaymentUtil.wireFormat item.payload := by
  rw [parsePaymentLine] at h
  split at h
  · exact absurd h (by simp)
  · rename_i b payload hdrop
    split_ifs at h with hlen
    obtain rfl := Option.some_inj.mp h
    have hb : b = 32 := by
      have hhead := List.head?_dropWhile_not (· ≠ (32 : UInt8)) line
      rw [hdrop] at hhead
      simpa using hhead
    have hpay : payload.take 64 ++ (payload.drop 64).take 64 ++ payload.drop 128 = payload := by
      rw [List.append_assoc, show payload.drop 128 = (payload.drop 64).drop 64 by simp,
        List.take_append_drop, List.take_append_drop]
    refine ⟨?_, ?_, ?_, ?_⟩
    · show line = line.takeWhile _ ++ 32 :: (_ ++ _ ++ _)
      rw [hb] at hdrop
      rw [hpay, ← hdrop, List.takeWhile_append_dropWhile]
    · intro hmem
      simpa using List.mem_takeWhile_imp hmem
    · show minPayload ≤ (_ ++ _ ++ _ : Bytes).length
      rw [hpay]
      omega
    · show wireFormat payload = wireFormat (_ ++ _ ++ _)
      rw [hpay]

theorem parsePaymentLine_append {fingerprint payload : Bytes} (hf : 32 ∉ fingerprint)
    (hp : minPayload ≤ payload.length) :
    parsePaymentLine (fingerprint ++ 32 :: payload) =
      some
        { fingerprint := fingerprint
          handshakePaymentHash := payload.take 64
          handshakePreimage := (payload.drop 64).take 64
          payhashes := payload.drop 128
          wireFormat := wireFormat payload } := by
  have hword : ∀ b ∈ fingerprint, decide (b ≠ 32) = true := by
    intro b hb
    exact decide_eq_true fun h => hf (h ▸ hb)
  rw [parsePaymentLine, List.dropWhile_append_of_pos hword, List.takeWhile_append_of_pos hword]
  simp [Nat.not_lt.mpr hp]

/-- `relay_payments_find_by_hop_num`: hops are counted from one. -/
def findByHopNum (payments : Option (List RelayPaymentItem)) (hopNum : ℕ) :
    Option RelayPaymentItem :=
  match payments with
  | none => none
  | some payments => if hopNum < 1 ∨ hopNum > payments.length then none else payments[hopNum - 1]?

/-! ### Joined payloads -/

abbrev payhashStride : ℕ := 768

def getPayhashFromCirc (payhash : Bytes) (hopNum : ℕ) : Bytes :=
  let offset := (hopNum - 1) * payhashStride
  if offset + payhashStride > payhash.length then wireFormat []
  else wireFormat ((payhash.drop offset).take payhashStride)

/-- `circuit_purpose_is_hidden_service`: vanguards, clients and services. -/
def circuitPurposeIsHiddenService (purpose : UInt8) : Bool :=
  purpose = 24 || (6 ≤ purpose && purpose ≤ 13) || (16 ≤ purpose && purpose ≤ 20)

def hiddenServicePayhash : Bytes :=
  ascii (
    "d5ddf78f461c67569046f8291e789163b8e13c9cc737552133abfadddcf0f054824601029cfe46aa978d" ++
    "ecd83e969c11bc17968a60ab96bf688e1352369105bb3e098bc3a359fd663a4545990b6cad089a85708a" ++
    "2cd2b323be78d2fbd32112b6ab64f093beee01533673dd75e27d4ad7626935ec0260be4efd40e2b51c80" ++
    "bf64472912c110796f1d83b2292f3652de52429249e1fd2ef82b64f7df8ea7e745f93d7265a70203ade5" ++
    "868599e24316227464592b1fd68a5d48e7953abd5e7ea76c93c90ad2db89593875ba121bb9177ca4d585" ++
    "a7c434013480c5d41669c5d75531727f5c952c1117a4d4869c0c14fa9e0780401c0ae1582a3410f199a3" ++
    "a03eb1f3a94073e0f0b47be9747b0619bb6c16cc225207e78c5bab155b90183a8e3477a07787dc4a27ff" ++
    "6abe69de62c80b0f23422cb540ed8947bc0987fe51310b8648695fae894b3c2cf45549342cac1c12607a" ++
    "9329163511a92be780203d9acc2be484589e63b904fb99a617852312844ef80b56d28ae253122e289c10" ++
    "80968e830192")

def getFirstHopPayhash (purpose : UInt8) (payhashes : Option Bytes) : Option Bytes :=
  if circuitPurposeIsHiddenService purpose then some hiddenServicePayhash
  else
    match payhashes with
    | none => none
    | some payhashes =>
      let extracted := getPayhashFromCirc payhashes 1
      if extracted.length > 0 then some extracted else none

theorem getFirstHopPayhash_some {purpose : UInt8} (payhashes : Bytes)
    (hp : circuitPurposeIsHiddenService purpose = false) :
    getFirstHopPayhash purpose (some payhashes) = some (getPayhashFromCirc payhashes 1) := by
  have hpos : (getPayhashFromCirc payhashes 1).length > 0 := by
    simp only [getPayhashFromCirc]
    split_ifs <;> rw [length_wireFormat] <;> omega
  rw [getFirstHopPayhash, hp, if_neg Bool.false_ne_true, if_pos hpos]

theorem getPayhashFromCirc_one_eq {payhashes payload : Bytes} (h : payload ≠ []) :
    getPayhashFromCirc payhashes 1 = wireFormat payload ↔
      payhashStride ≤ payhashes.length ∧ payhashes.take payhashStride = payload := by
  simp only [getPayhashFromCirc, Nat.sub_self, Nat.zero_mul, Nat.zero_add, List.drop_zero]
  split_ifs with hlen
  · constructor
    · intro heq
      exact absurd (List.append_cancel_left heq).symm h
    · intro hfit
      omega
  · constructor
    · intro heq
      exact ⟨by omega, List.append_cancel_left heq⟩
    · rintro ⟨-, rfl⟩
      rfl

theorem length_getPayhashFromCirc_one_le (payhashes : Bytes) :
    (getPayhashFromCirc payhashes 1).length ≤ 13 + payhashStride := by
  simp only [getPayhashFromCirc]
  split_ifs
  · simp
  · rw [length_wireFormat, List.length_take]
    omega

/-- `payment_util_has_payment_id_hash`: only the first place where the prefix
stands is looked at. -/
def hasPaymentIdHash (payload : Bytes) : Bool :=
  match memmem payhashMagic payload with
  | none => false
  | some index => payload.length - (index + payhashMagic.length) ≥ 1

theorem hasPaymentIdHash_iff {payload : Bytes} :
    hasPaymentIdHash payload = true ↔
      ∃ i, payhashMagic <+: payload.drop i ∧ i + 14 ≤ payload.length := by
  unfold hasPaymentIdHash
  constructor
  · intro h
    cases hm : memmem payhashMagic payload with
    | none => simp [hm] at h
    | some i =>
      have hroom : 1 ≤ payload.length - (i + 13) := by simpa [hm] using h
      exact ⟨i, ((memmem_eq_some payhashMagic_ne_nil).mp hm).1, by omega⟩
  · rintro ⟨i, hi, hroom⟩
    obtain ⟨k, hk, hm⟩ := memmem_le_of_prefix_drop payhashMagic_ne_nil hi
    simp only [hm, length_payhashMagic, ge_iff_le, decide_eq_true_eq]
    omega

end PaymentUtil
