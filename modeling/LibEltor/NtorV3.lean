/-
Payments in the ntor-v3 handshake (`core/crypto/onion_crypto.c`,
`core/crypto/onion_ntor_v3.c`, `core/or/congestion_control_common.c`,
`trunnel/extension.c`).

A client encrypts an extension message to the relay as part of its onionskin.  A
payment is appended to that message; the relay searches the decrypted message for
its prefix, and parses the extensions off the front of the same bytes.
-/
import LibEltor.Parser
import LibEltor.PaymentUtil

open Bytes ListSearch Parser PaymentUtil

namespace NtorV3

/-! ### Primitives -/

/-- The cryptography of the handshake, with what the handshake relies on. -/
structure Crypto where
  /-- The public key of a secret one. -/
  curve25519PublicKey : Block 32 → Block 32
  /-- A secret and a public key give a shared secret. -/
  curve25519Handshake : Block 32 → Block 32 → Block 32
  /-- The first 64 bytes squeezed out of SHAKE-256. -/
  xof : Bytes → Block 64
  sha3 : Bytes → Block 32
  cryptoCipherCryptInplace : Block 32 → Bytes → Bytes
  cryptoCipherDecrypt : Block 32 → Bytes → Bytes
  handshake_comm : ∀ x b, curve25519Handshake x (curve25519PublicKey b) =
    curve25519Handshake b (curve25519PublicKey x)
  length_crypt : ∀ key message, (cryptoCipherCryptInplace key message).length = message.length
  decrypt_crypt : ∀ key message,
    cryptoCipherDecrypt key (cryptoCipherCryptInplace key message) = message

structure Curve25519Keypair (crypto : Crypto) where
  seckey : Block 32
  pubkey : Block 32
  pubkey_eq : pubkey = crypto.curve25519PublicKey seckey

def protoid : Bytes := ascii "ntor3-curve25519-sha3_256-1"

def tMsgkdf : Bytes := protoid ++ ascii ":kdf_phase1"
def tMsgmac : Bytes := protoid ++ ascii ":msg_mac"

/-- `xof_add_encap`, `d_add_encap`: the data behind its length in 64 bits. -/
def encap (data : Bytes) : Bytes :=
  be32 (UInt32.ofNat (data.length / 2 ^ 32)) ++ (be32 (UInt32.ofNat data.length) ++ data)

variable (crypto : Crypto)

def phase1Keys (bx : Block 32) (relayId clientKey relayKey verification : Bytes) :
    Block 32 × Block 32 :=
  let stream := (crypto.xof (encap tMsgkdf ++ bx.toList ++ relayId ++ clientKey ++ relayKey ++
    protoid ++ encap verification)).toList
  (zeroFill 32 (stream.take 32), zeroFill 32 (stream.drop 32))

def msgMac (macKey : Block 32) (relayId relayKey clientKey encryptedMessage : Bytes) : Block 32 :=
  crypto.sha3 (encap tMsgmac ++ encap macKey.toList ++ relayId ++ relayKey ++ clientKey ++
    encryptedMessage)

def onionSkinNtor3CreateNokeygen (clientKeypair : Curve25519Keypair crypto)
    (relayId relayKey : Block 32) (verification message : Bytes) : Option Bytes :=
  let bx := crypto.curve25519Handshake clientKeypair.seckey relayKey
  if bx = zeroFill 32 [] then none
  else
    let keys := phase1Keys crypto bx relayId.toList clientKeypair.pubkey.toList relayKey.toList
      verification
    let encryptedMessage := crypto.cryptoCipherCryptInplace keys.1 message
    let mac := msgMac crypto keys.2 relayId.toList relayKey.toList clientKeypair.pubkey.toList
      encryptedMessage
    some (relayId.toList ++ (relayKey.toList ++ (clientKeypair.pubkey.toList ++
      (encryptedMessage ++ mac.toList))))

/-- The message of the client with the payment behind it, if there is one. -/
def extendedMsg (msg : Bytes) (eltorPayhash : Option Bytes) : Bytes :=
  match eltorPayhash with
  | none => msg
  | some payhash => if (cstr payhash).length > 0 then msg ++ cstr payhash else msg

/-- The ntor-v3 branch of `onion_skin_create`, from the message on. -/
def onionSkinCreate (clientKeypair : Curve25519Keypair crypto) (edIdentity onionKey : Block 32)
    (verification msg : Bytes) (eltorPayhash : Option Bytes) (onionSkinOutMaxlen : ℕ) :
    Option Bytes :=
  (onionSkinNtor3CreateNokeygen crypto clientKeypair edIdentity onionKey verification
    (extendedMsg msg eltorPayhash)).bind fun onionSkin =>
      if onionSkin.length > onionSkinOutMaxlen then none else some onionSkin

/-- The payment a relay finds in a decrypted message.  It is reported as a C
string. -/
def extractPayhash (message : Bytes) : Option Bytes :=
  if message.length > 0 then
    match memmem payhashMagic message with
    | none => none
    | some indexPayHash =>
      let remaining := message.length - (indexPayHash + payhashMagic.length)
      if remaining > 0 then some (cstr (message.drop (indexPayHash + payhashMagic.length)))
      else none
  else none

/-- What the first half of the handshake hands out: the message of the client,
and the payment of `control_event_payment_id_hash_received`. -/
structure Part1 where
  clientMessage : Bytes
  paymentIdHash : Option Bytes

/-- `onion_skin_ntor3_server_handshake_part1`.  `privateKeys` is the map of the
relay's onion keys. -/
def onionSkinNtor3ServerHandshakePart1 (privateKeys : Block 32 → Option (Curve25519Keypair crypto))
    (junkKey : Curve25519Keypair crypto) (myId : Block 32) (clientHandshake verification : Bytes) :
    Option Part1 :=
  if clientHandshake.length < 32 + 32 * 2 + 32 then none
  else
    let wantedId := clientHandshake.take 32
    let wantedKey := zeroFill 32 ((clientHandshake.drop 32).take 32)
    let clientKey := zeroFill 32 ((clientHandshake.drop 64).take 32)
    let remaining := clientHandshake.drop 96
    let encryptedMessage := remaining.take (remaining.length - 32)
    let mac := remaining.drop (remaining.length - 32)
    let keypair := (privateKeys wantedKey).getD junkKey
    let xb := crypto.curve25519Handshake keypair.seckey clientKey
    let keys := phase1Keys crypto xb wantedId clientKey.toList keypair.pubkey.toList verification
    let computedMac := msgMac crypto keys.2 myId.toList keypair.pubkey.toList clientKey.toList
      encryptedMessage
    if myId.toList ≠ wantedId ∨ xb = zeroFill 32 [] ∨ mac ≠ computedMac.toList then none
    else
      let clientMessage := crypto.cryptoCipherDecrypt keys.1 encryptedMessage
      some ⟨clientMessage, extractPayhash clientMessage⟩

/-! ### Extensions -/

structure TrnExtensionField where
  fieldType : UInt8
  field : Bytes
  deriving DecidableEq

def trnExtensionFieldParse : Parser TrnExtensionField := do
  let fieldType ← u8
  let fieldLen ← u8
  let field ← takeN fieldLen.toNat
  return ⟨fieldType, field⟩

def trnExtensionParse : Parser (List TrnExtensionField) := do
  let num ← u8
  repeatN trnExtensionFieldParse num.toNat

abbrev ccFieldRequest : UInt8 := 1

/-- `congestion_control_parse_ext_request`; `none` is a negative result.  Where
no field is a request, the length that was parsed is returned. -/
def parseExtRequest (msg : Bytes) : Option ℕ :=
  match trnExtensionParse msg with
  | none => none
  | some (fields, rest) =>
    if fields.length = 0 then some 0
    else if fields.any (·.fieldType = ccFieldRequest) then some 1
    else some (msg.length - rest.length)

def buildExtRequest (congestionControlEnabled : Bool) : Bytes :=
  if congestionControlEnabled then [1, ccFieldRequest, 0] else [0]

theorem unpack_onionSkin (a b c d : Block 32) (e : Bytes) :
    let skin := a.toList ++ (b.toList ++ (c.toList ++ (e ++ d.toList)))
    skin.length = 128 + e.length ∧ skin.take 32 = a.toList ∧
      (skin.drop 32).take 32 = b.toList ∧ (skin.drop 64).take 32 = c.toList ∧
      skin.drop 96 = e ++ d.toList := by
  have h32 : ∀ x : Block 32, x.toList.length = 32 := length_toList_block
  have h1 : (a.toList ++ (b.toList ++ (c.toList ++ (e ++ d.toList)))).drop 32 =
      b.toList ++ (c.toList ++ (e ++ d.toList)) := List.drop_left' (h32 a)
  have h2 : (b.toList ++ (c.toList ++ (e ++ d.toList))).drop 32 =
      c.toList ++ (e ++ d.toList) := List.drop_left' (h32 b)
  have h3 : (c.toList ++ (e ++ d.toList)).drop 32 = e ++ d.toList := List.drop_left' (h32 c)
  refine ⟨?_, List.take_left' (h32 a), ?_, ?_, ?_⟩
  · simp only [List.length_append, h32]
    omega
  · rw [h1]
    exact List.take_left' (h32 b)
  · rw [show 64 = 32 + 32 from rfl, ← List.drop_drop, h1, h2]
    exact List.take_left' (h32 c)
  · rw [show 96 = 32 + (32 + 32) from rfl, ← List.drop_drop, h1, ← List.drop_drop, h2, h3]

theorem exists_onionSkinCreate {clientKeypair : Curve25519Keypair crypto} {relayKey : Block 32}
    (relayId : Block 32) (verification msg : Bytes) (payhash : Option Bytes) {maxlen : ℕ}
    (hbx : crypto.curve25519Handshake clientKeypair.seckey relayKey ≠ zeroFill 32 [])
    (hlen : 128 + (extendedMsg msg payhash).length ≤ maxlen) :
    ∃ skin, onionSkinNtor3CreateNokeygen crypto clientKeypair relayId relayKey verification
        (extendedMsg msg payhash) = some skin ∧
      onionSkinCreate crypto clientKeypair relayId relayKey verification msg payhash maxlen =
        some skin := by
  have hcreate : onionSkinNtor3CreateNokeygen crypto clientKeypair relayId relayKey verification
      (extendedMsg msg payhash) = some _ := if_neg hbx
  refine ⟨_, hcreate, ?_⟩
  rw [onionSkinCreate, hcreate, Option.bind_some, if_neg]
  simp only [List.length_append, length_toList_block, crypto.length_crypt]
  omega

theorem part1_create {clientKeypair relayKeypair junkKey : Curve25519Keypair crypto}
    {privateKeys : Block 32 → Option (Curve25519Keypair crypto)} {myId : Block 32}
    {verification message skin : Bytes}
    (hkey : privateKeys relayKeypair.pubkey = some relayKeypair)
    (h : onionSkinNtor3CreateNokeygen crypto clientKeypair myId relayKeypair.pubkey verification
      message = some skin) :
    onionSkinNtor3ServerHandshakePart1 crypto privateKeys junkKey myId skin verification =
      some ⟨message, extractPayhash message⟩ := by
  have hdh : crypto.curve25519Handshake relayKeypair.seckey clientKeypair.pubkey =
      crypto.curve25519Handshake clientKeypair.seckey relayKeypair.pubkey := by
    rw [clientKeypair.pubkey_eq, relayKeypair.pubkey_eq, crypto.handshake_comm]
  simp only [onionSkinNtor3CreateNokeygen] at h
  split_ifs at h with hzero
  set keys := phase1Keys crypto
    (crypto.curve25519Handshake clientKeypair.seckey relayKeypair.pubkey) myId.toList
    clientKeypair.pubkey.toList relayKeypair.pubkey.toList verification with hkeys
  set enc := crypto.cryptoCipherCryptInplace keys.1 message with henc
  set mac := msgMac crypto keys.2 myId.toList relayKeypair.pubkey.toList
    clientKeypair.pubkey.toList enc with hmac
  obtain rfl := Option.some_inj.mp h
  obtain ⟨hlen, hid, hwanted, hclient, hrest⟩ :=
    unpack_onionSkin myId relayKeypair.pubkey clientKeypair.pubkey mac enc
  have hrlen : (enc ++ mac.toList).length - 32 = enc.length := by
    rw [List.length_append, length_toList_block, Nat.add_sub_cancel]
  have hdecrypt : crypto.cryptoCipherDecrypt keys.1 enc = message := by
    rw [henc]
    exact crypto.decrypt_crypt keys.1 message
  simp only [onionSkinNtor3ServerHandshakePart1]
  rw [if_neg (by omega)]
  simp only [hid, hwanted, hclient, hrest, hrlen, zeroFill_toList, hkey, Option.getD_some, hdh,
    List.take_left, List.drop_left, ← hkeys, ← hmac, hdecrypt]
  rw [if_neg (by simp [hzero])]

theorem cstr_wireFormat {payment : Bytes} (h : 0 ∉ payment) :
    cstr (wireFormat payment) = wireFormat payment := by
  refine cstr_eq_self ?_
  rw [wireFormat, List.mem_append]
  rintro (h0 | h0)
  · exact absurd h0 (by decide)
  · exact h h0

theorem extendedMsg_wireFormat {msg payment : Bytes} (h : 0 ∉ payment) :
    extendedMsg msg (some (wireFormat payment)) = msg ++ wireFormat payment := by
  rw [extendedMsg, cstr_wireFormat h, if_pos]
  rw [length_wireFormat]
  omega

theorem extractPayhash_append {msg payment : Bytes} (hm : ¬ payhashMagic <:+: msg)
    (h0 : 0 ∉ payment) (hne : payment ≠ []) :
    extractPayhash (msg ++ wireFormat payment) = some payment := by
  have hpos : 0 < payment.length := List.length_pos_iff.mpr hne
  have hfind := @memmem_append_of_unbordered _ _ _ _ payment payhashMagic_ne_nil
    unbordered_payhashMagic hm
  have hdrop : (msg ++ payhashMagic ++ payment).drop (msg.length + 13) = payment :=
    List.drop_left' (by simp)
  have hlen : (msg ++ payhashMagic ++ payment).length = msg.length + 13 + payment.length := by
    simp only [List.length_append, length_payhashMagic]
  rw [wireFormat, ← List.append_assoc]
  simp only [extractPayhash, hfind, length_payhashMagic, hdrop, hlen]
  rw [if_pos (by omega), if_pos (by omega), cstr_eq_self h0]

theorem extractPayhash_eq_none {msg : Bytes} (hm : ¬ payhashMagic <:+: msg) :
    extractPayhash msg = none := by
  simp only [extractPayhash, memmem_eq_none_of_not_infix payhashMagic_ne_nil hm, ite_self]

/-- No message that `congestion_control_build_ext_request` builds holds the prefix. -/
theorem not_isInfix_buildExtRequest (enabled : Bool) :
    ¬ payhashMagic <:+: buildExtRequest enabled := by
  intro h
  have hlen := h.length_le
  have h3 : (buildExtRequest enabled).length ≤ 3 := by
    cases enabled <;> decide
  rw [length_payhashMagic] at hlen
  omega

/-! ### The extensions in the message -/

theorem framed_trnExtensionFieldParse : trnExtensionFieldParse.Framed :=
  framed_u8.bind fun _ => framed_u8.bind fun fieldLen => (framed_takeN fieldLen.toNat).bind
    fun _ => Framed.pure _

theorem framed_trnExtensionParse : trnExtensionParse.Framed :=
  framed_u8.bind fun num => framed_trnExtensionFieldParse.repeatN num.toNat

theorem parseExtRequest_append {msg rest : Bytes} {fields : List TrnExtensionField}
    (h : trnExtensionParse msg = some (fields, rest)) (t : Bytes) :
    trnExtensionParse (msg ++ t) = some (fields, rest ++ t) ∧
      parseExtRequest (msg ++ t) = parseExtRequest msg := by
  have happend := framed_trnExtensionParse.append h t
  refine ⟨happend, ?_⟩
  simp only [parseExtRequest, h, happend, List.length_append, Nat.add_sub_add_right]

theorem length_lt_of_trnExtensionParse {msg rest : Bytes} {fields : List TrnExtensionField}
    (h : trnExtensionParse msg = some (fields, rest)) : rest.length < msg.length := by
  obtain ⟨w, rfl, hw⟩ := framed_trnExtensionParse h
  have hne : w ≠ [] := by
    rintro rfl
    exact absurd (hw []) (by simp [trnExtensionParse, u8, bind, StateT.bind])
  have hpos := List.length_pos_iff.mpr hne
  rw [List.length_append]
  omega

/-- What is said of the result of `congestion_control_parse_ext_request`: that it is negative where
the message cannot be parsed, that it is zero where no field is a request, and that it tells whether
one is. -/
structure TellsRequest (msg : Bytes) : Prop where
  error : parseExtRequest msg = none ↔ trnExtensionParse msg = none
  absent : ∀ fields rest, trnExtensionParse msg = some (fields, rest) →
    (∀ field ∈ fields, field.fieldType ≠ ccFieldRequest) → parseExtRequest msg = some 0
  present : ∀ fields rest, trnExtensionParse msg = some (fields, rest) →
    ((∃ ret, parseExtRequest msg = some ret ∧ ret ≠ 0) ↔
      ∃ field ∈ fields, field.fieldType = ccFieldRequest)

theorem parseExtRequest_eq {msg rest : Bytes} {fields : List TrnExtensionField}
    (h : trnExtensionParse msg = some (fields, rest)) :
    parseExtRequest msg = some (if fields = [] then 0
      else if ∃ field ∈ fields, field.fieldType = ccFieldRequest then 1
      else msg.length - rest.length) := by
  rw [parseExtRequest, h]
  simp only [List.length_eq_zero_iff, List.any_eq_true, decide_eq_true_eq]
  split_ifs <;> rfl

/-- **Requests are told** of every message, unless it holds fields and none of them is a request:
then the length of the extensions is returned, as if one were. -/
theorem parseExtRequest_tells_iff (msg : Bytes) :
    TellsRequest msg ↔ ∀ fields rest, trnExtensionParse msg = some (fields, rest) →
      fields ≠ [] → ∃ field ∈ fields, field.fieldType = ccFieldRequest := by
  constructor
  · intro h fields rest hparse hne
    have hlt := length_lt_of_trnExtensionParse hparse
    refine (h.present fields rest hparse).mp ?_
    refine ⟨_, parseExtRequest_eq hparse, ?_⟩
    rw [if_neg hne]
    split_ifs <;> omega
  · intro h
    rcases hparse : trnExtensionParse msg with _ | ⟨fields, rest⟩
    · -- the parser has failed, and nothing else is asked
      have hnone : parseExtRequest msg = none := by rw [parseExtRequest, hparse]
      exact ⟨by simp [hnone, hparse], fun _ _ hsome => absurd (hparse.symm.trans hsome) (by simp),
        fun _ _ hsome => absurd (hparse.symm.trans hsome) (by simp)⟩
    · have hres := parseExtRequest_eq hparse
      have hsame {fields' rest'} (hsome : trnExtensionParse msg = some (fields', rest')) :
          fields' = fields := by
        rw [hparse] at hsome
        exact (Prod.mk.inj (Option.some_inj.mp hsome)).1.symm
      have hreq := h fields rest hparse
      refine ⟨by rw [hres, hparse]; simp, fun fields' rest' hsome hno => ?_,
        fun fields' rest' hsome => ?_⟩
      · obtain rfl := hsame hsome
        have hnil : fields' = [] := by
          by_contra hne
          obtain ⟨field, hmem, hrequest⟩ := hreq hne
          exact hno field hmem hrequest
        rw [hres, if_pos hnil]
      · obtain rfl := hsame hsome
        rw [hres]
        by_cases hnil : fields' = []
        · simp [hnil]
        · simp [hnil, hreq hnil]

/-- A field of type 9 and no other. -/
theorem unknown_field_requests : ¬TellsRequest [1, 9, 0] := by
  intro h
  have hzero := h.absent [⟨9, []⟩] [] rfl (by decide)
  exact absurd hzero (by decide)

theorem trnExtensionParse_buildExtRequest (enabled : Bool) :
    ∃ fields, trnExtensionParse (buildExtRequest enabled) = some (fields, []) := by
  cases enabled
  · exact ⟨[], rfl⟩
  · exact ⟨[⟨ccFieldRequest, []⟩], rfl⟩

/-! ### Payment and extensions together -/

/-- The payments a client can append: none, or a string that is not empty. -/
def Payable (payment : Option Bytes) : Prop := ∀ p ∈ payment, 0 ∉ p ∧ p ≠ []

theorem extractPayhash_extendedMsg {msg : Bytes} {payment : Option Bytes}
    (hm : ¬ payhashMagic <:+: msg) (hpay : Payable payment) :
    extractPayhash (extendedMsg msg (payment.map wireFormat)) = payment := by
  cases payment with
  | none => exact extractPayhash_eq_none hm
  | some p =>
    obtain ⟨h0, hne⟩ := hpay p rfl
    rw [Option.map_some, extendedMsg_wireFormat h0, extractPayhash_append hm h0 hne]

theorem parseExtRequest_extendedMsg {msg rest : Bytes} {payment : Option Bytes}
    {fields : List TrnExtensionField} (hpay : Payable payment)
    (h : trnExtensionParse msg = some (fields, rest)) :
    (trnExtensionParse (extendedMsg msg (payment.map wireFormat))).map Prod.fst = some fields ∧
      parseExtRequest (extendedMsg msg (payment.map wireFormat)) = parseExtRequest msg := by
  cases payment with
  | none => exact ⟨by rw [Option.map_none, extendedMsg, h]; rfl, rfl⟩
  | some p =>
    obtain ⟨happend, hrequest⟩ := parseExtRequest_append h (wireFormat p)
    rw [Option.map_some, extendedMsg_wireFormat (hpay p rfl).1, happend]
    exact ⟨rfl, hrequest⟩

/-- **A payment reaches the relay with the handshake.**  The relay reports the
payment that was appended, and none where none was, for every message that does
not hold the prefix; it parses the extensions of every well-formed message as if
nothing was appended; and both hold of what the client builds. -/
theorem ntor3_payment_delivered {clientKeypair relayKeypair : Curve25519Keypair crypto}
    (junkKey : Curve25519Keypair crypto)
    {privateKeys : Block 32 → Option (Curve25519Keypair crypto)} {myId : Block 32}
    {verification msg skin : Bytes} {payment : Option Bytes} {maxlen : ℕ}
    (hkey : privateKeys relayKeypair.pubkey = some relayKeypair) (hpay : Payable payment)
    (h : onionSkinCreate crypto clientKeypair myId relayKeypair.pubkey verification msg
      (payment.map wireFormat) maxlen = some skin) :
    ∃ out, onionSkinNtor3ServerHandshakePart1 crypto privateKeys junkKey myId skin
        verification = some out ∧
      (¬ payhashMagic <:+: msg → out.paymentIdHash = payment) ∧
      (∀ fields rest, trnExtensionParse msg = some (fields, rest) →
        (trnExtensionParse out.clientMessage).map Prod.fst = some fields ∧
          parseExtRequest out.clientMessage = parseExtRequest msg) ∧
      ∀ enabled, msg = buildExtRequest enabled → out.paymentIdHash = payment ∧
        parseExtRequest out.clientMessage = parseExtRequest msg := by
  obtain ⟨onionSkin, hcreate, hif⟩ := Option.bind_eq_some_iff.mp h
  split_ifs at hif
  obtain rfl := Option.some_inj.mp hif
  refine ⟨_, part1_create crypto hkey hcreate,
    fun hm => extractPayhash_extendedMsg hm hpay,
    fun fields rest hparse => parseExtRequest_extendedMsg hpay hparse, ?_⟩
  rintro enabled rfl
  obtain ⟨fields, hparse⟩ := trnExtensionParse_buildExtRequest enabled
  exact ⟨extractPayhash_extendedMsg (not_isInfix_buildExtRequest enabled) hpay,
    (parseExtRequest_extendedMsg hpay hparse).2⟩

/-- A stream cipher and a commutative exchange, as the handshake relies on them. -/
def xorCrypto : Crypto where
  curve25519PublicKey := id
  curve25519Handshake x b := List.Vector.map₂ (· ^^^ ·) x b
  xof _ := zeroFill 64 [7]
  sha3 _ := zeroFill 32 []
  cryptoCipherCryptInplace key message := message.map (· ^^^ key.head)
  cryptoCipherDecrypt key message := message.map (· ^^^ key.head)
  handshake_comm x b := by
    apply List.Vector.ext
    intro i
    simp [UInt8.xor_comm]
  length_crypt _ _ := List.length_map _
  decrypt_crypt key message := by
    rw [List.map_map]
    refine (List.map_congr_left fun b _ => ?_).trans (List.map_id message)
    show b ^^^ key.head ^^^ key.head = b
    rw [UInt8.xor_assoc, UInt8.xor_self, UInt8.xor_zero]

def xorKeypair (k : UInt8) : Curve25519Keypair xorCrypto := ⟨zeroFill 32 [k], zeroFill 32 [k], rfl⟩

def xorPrivateKeys : Block 32 → Option (Curve25519Keypair xorCrypto) :=
  fun key => if key = (xorKeypair 2).pubkey then some (xorKeypair 2) else none

theorem xorPrivateKeys_relay :
    xorPrivateKeys (xorKeypair 2).pubkey = some (xorKeypair 2) := if_pos rfl

theorem xorHandshake_ne_zero :
    xorCrypto.curve25519Handshake (xorKeypair 1).seckey (xorKeypair 2).pubkey ≠
      zeroFill 32 [] := by
  decide

theorem ntor3_payment_delivered_sample :
    ∃ skin out, onionSkinNtor3ServerHandshakePart1 xorCrypto xorPrivateKeys (xorKeypair 3)
        (zeroFill 32 [9]) skin (ascii "circuit extend") = some out ∧
      out.paymentIdHash = some [112, 49] := by
  have hpay : Payable (some [112, 49]) := by
    rintro p ⟨⟩
    decide
  obtain ⟨skin, -, hskin⟩ := exists_onionSkinCreate xorCrypto (zeroFill 32 [9])
    (ascii "circuit extend") (buildExtRequest true) ((some [112, 49]).map wireFormat)
    xorHandshake_ne_zero (by decide : _ ≤ 2044)
  obtain ⟨out, hout, hfound, -⟩ := ntor3_payment_delivered xorCrypto (xorKeypair 3)
    xorPrivateKeys_relay hpay hskin
  exact ⟨skin, out, hout, hfound (not_isInfix_buildExtRequest true)⟩

def misleadingMsg : Bytes := [1, 9, 14] ++ payhashMagic ++ [88]

/-- From that message a payment is found that nobody appended. -/
theorem misleadingMsg_reported :
    trnExtensionParse misleadingMsg = some ([⟨9, payhashMagic ++ [88]⟩], []) ∧
      ∃ skin out, onionSkinCreate xorCrypto (xorKeypair 1) (zeroFill 32 [9])
          (xorKeypair 2).pubkey (ascii "circuit extend") misleadingMsg none 2044 = some skin ∧
        onionSkinNtor3ServerHandshakePart1 xorCrypto xorPrivateKeys (xorKeypair 3)
          (zeroFill 32 [9]) skin (ascii "circuit extend") = some out ∧
        out.paymentIdHash = some [88] := by
  obtain ⟨skin, hcreate, hskin⟩ := exists_onionSkinCreate xorCrypto (zeroFill 32 [9])
    (ascii "circuit extend") misleadingMsg none xorHandshake_ne_zero (by decide : _ ≤ 2044)
  exact ⟨rfl, skin, _, hskin, part1_create xorCrypto xorPrivateKeys_relay hcreate, by decide⟩

end NtorV3
