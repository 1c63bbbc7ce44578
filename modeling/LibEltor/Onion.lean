/-
Create, created and extended cells (`core/or/onion.c`).

The cells with which a hop of a circuit is asked for and answered, the checks
the code makes on them, and the two directions of their encoding.  A parsed
cell is a record with a fixed array and a length; a parser clears the record
first, so what stands behind the length is zero.
-/
import LibEltor.Bytes
import LibEltor.Codec

open Bytes Codec

namespace Onion

/-! ### Constants of the wire format -/

@[simp] abbrev cellPayloadSize : ℕ := 2048
@[simp] abbrev relayHeaderSize : ℕ := 11
@[simp] abbrev relayPayloadSize : ℕ := cellPayloadSize - relayHeaderSize

@[simp] abbrev cellCreate : UInt8 := 1
@[simp] abbrev cellCreated : UInt8 := 2
@[simp] abbrev cellCreateFast : UInt8 := 5
@[simp] abbrev cellCreatedFast : UInt8 := 6
@[simp] abbrev cellCreate2 : UInt8 := 10
@[simp] abbrev cellCreated2 : UInt8 := 11

@[simp] abbrev relayCommandExtend : UInt8 := 6
@[simp] abbrev relayCommandExtended : UInt8 := 7
@[simp] abbrev relayCommandExtend2 : UInt8 := 14
@[simp] abbrev relayCommandExtended2 : UInt8 := 15

@[simp] abbrev onionHandshakeTypeTap : UInt16 := 0
@[simp] abbrev onionHandshakeTypeFast : UInt16 := 1
@[simp] abbrev onionHandshakeTypeNtor : UInt16 := 2
@[simp] abbrev onionHandshakeTypeNtorV3 : UInt16 := 3

@[simp] abbrev tapOnionskinChallengeLen : UInt16 := 186
@[simp] abbrev tapOnionskinReplyLen : UInt16 := 148
@[simp] abbrev createFastLen : UInt16 := 20
@[simp] abbrev createdFastLen : UInt16 := 40
@[simp] abbrev ntorOnionskinLen : UInt16 := 84
@[simp] abbrev ntorReplyLen : UInt16 := 64

/-- `"ntorNTORntorNTOR"`: marks a seeming TAP payload as an ntor one. -/
def ntorCreateMagic : Bytes :=
  [110, 116, 111, 114, 78, 84, 79, 82, 110, 116, 111, 114, 78, 84, 79, 82]

@[simp] theorem length_ntorCreateMagic : ntorCreateMagic.length = 16 := rfl

/-- The part of `cell_t` these functions read and write. -/
structure Cell where
  command : UInt8
  payload : Block cellPayloadSize
  deriving DecidableEq

/-! ### Create cells -/

structure CreateCell where
  cellType : UInt8
  handshakeType : UInt16
  handshakeLen : UInt16
  onionskin : Block (cellPayloadSize - 4)
  deriving DecidableEq

namespace CreateCell

def skin (cell : CreateCell) : Bytes := cell.onionskin.toList.take cell.handshakeLen.toNat

/-- The cell with the unused end of `onionskin` cleared. -/
def clean (cell : CreateCell) : CreateCell :=
  { cell with onionskin := keep cell.handshakeLen.toNat cell.onionskin }

end CreateCell

def CheckCreateCell (cell : CreateCell) (unknownOk : Bool) : Prop :=
  (if cell.cellType = cellCreate then
      cell.handshakeType = onionHandshakeTypeTap ∨ cell.handshakeType = onionHandshakeTypeNtor
    else if cell.cellType = cellCreateFast then
      cell.handshakeType = onionHandshakeTypeFast
    else cell.cellType = cellCreate2) ∧
  (if cell.handshakeType = onionHandshakeTypeTap then
      cell.handshakeLen = tapOnionskinChallengeLen
    else if cell.handshakeType = onionHandshakeTypeFast then
      cell.handshakeLen = createFastLen
    else if cell.handshakeType = onionHandshakeTypeNtor then
      cell.handshakeLen = ntorOnionskinLen
    else if cell.handshakeType = onionHandshakeTypeNtorV3 then
      True
    else unknownOk = true)

instance (cell : CreateCell) (unknownOk : Bool) :
    Decidable (CheckCreateCell cell unknownOk) := by
  delta CheckCreateCell
  infer_instance

/-- `create_cell_init`: the record is cleared, then filled. -/
def createCellInit (cellType : UInt8) (handshakeType handshakeLen : UInt16)
    (onionskin : Bytes) : CreateCell where
  cellType := cellType
  handshakeType := handshakeType
  handshakeLen := handshakeLen
  onionskin := zeroFill _ (onionskin.take handshakeLen.toNat)

/-- `parse_create2_payload`, on the bytes `p` of which it is told the length. -/
def parseCreate2Payload (p : Bytes) : Option CreateCell :=
  if p.length < 4 then none
  else
    let handshakeType := getBe16 p
    let handshakeLen := getBe16 (p.drop 2)
    if handshakeLen.toNat > cellPayloadSize - 4 ∨ handshakeLen.toNat > p.length - 4 then none
    else if handshakeType = onionHandshakeTypeFast then none
    else some (createCellInit cellCreate2 handshakeType handshakeLen (p.drop 4))

/-- The `switch` of `create_cell_parse`, before the check. -/
def createCellRead (cellIn : Cell) : Option CreateCell :=
  let p := cellIn.payload.toList
  if cellIn.command = cellCreate then
    if p.take 16 = ntorCreateMagic then
      some (createCellInit cellCreate onionHandshakeTypeNtor ntorOnionskinLen (p.drop 16))
    else
      some (createCellInit cellCreate onionHandshakeTypeTap tapOnionskinChallengeLen p)
  else if cellIn.command = cellCreateFast then
    some (createCellInit cellCreateFast onionHandshakeTypeFast createFastLen p)
  else if cellIn.command = cellCreate2 then
    parseCreate2Payload p
  else none

def createCellParse (cellIn : Cell) : Option CreateCell :=
  (createCellRead cellIn).bind fun cell =>
    if CheckCreateCell cell false then some cell else none

/-- `create_cell_format_impl`.  A failed `tor_assert` stops the process, and no
cell is written. -/
def createCellFormatImpl (cellIn : CreateCell) (relayed : Bool) : Option Cell :=
  let len := cellIn.handshakeLen.toNat
  if ¬ CheckCreateCell cellIn relayed then none
  else if cellIn.cellType = cellCreate ∧
      cellIn.handshakeType = onionHandshakeTypeNtorV3 then none
  else if cellIn.cellType = cellCreate ∨ cellIn.cellType = cellCreateFast then
    -- CREATE falls through to CREATE_FAST, with the magic in front for ntor.
    let magic := if cellIn.cellType = cellCreate ∧
      cellIn.handshakeType = onionHandshakeTypeNtor then ntorCreateMagic else []
    if len ≤ cellPayloadSize - magic.length then
      some ⟨cellIn.cellType, zeroFill _ (magic ++ cellIn.skin)⟩
    else none
  else if cellIn.cellType = cellCreate2 then
    if len ≤ cellPayloadSize - 4 then
      some ⟨cellIn.cellType,
        zeroFill _ (be16 cellIn.handshakeType ++ (be16 cellIn.handshakeLen ++ cellIn.skin))⟩
    else none
  else none

def createCellFormat (cellIn : CreateCell) : Option Cell := createCellFormatImpl cellIn false

def createCellFormatRelayed (cellIn : CreateCell) : Option Cell :=
  createCellFormatImpl cellIn true

/-! ### Created cells -/

structure CreatedCell where
  cellType : UInt8
  handshakeLen : UInt16
  reply : Block (cellPayloadSize - 2)
  deriving DecidableEq

/-- `check_created_cell` returns 0.  A cell of any other type passes. -/
def CheckCreatedCell (cell : CreatedCell) : Prop :=
  if cell.cellType = cellCreated then
    cell.handshakeLen = tapOnionskinReplyLen ∨ cell.handshakeLen = ntorReplyLen
  else if cell.cellType = cellCreatedFast then
    cell.handshakeLen = createdFastLen
  else if cell.cellType = cellCreated2 then
    cell.handshakeLen.toNat ≤ relayPayloadSize - 2
  else True

instance (cell : CreatedCell) : Decidable (CheckCreatedCell cell) := by
  delta CheckCreatedCell
  infer_instance

namespace CreatedCell

def answer (cell : CreatedCell) : Bytes := cell.reply.toList.take cell.handshakeLen.toNat

end CreatedCell

/-- The `switch` of `created_cell_parse`, before the check.  There is no default
case: for any other command the cleared record is left. -/
def createdCellRead (cellIn : Cell) : Option CreatedCell :=
  let p := cellIn.payload.toList
  if cellIn.command = cellCreated then
    some ⟨cellCreated, tapOnionskinReplyLen, zeroFill _ (p.take tapOnionskinReplyLen.toNat)⟩
  else if cellIn.command = cellCreatedFast then
    some ⟨cellCreatedFast, createdFastLen, zeroFill _ (p.take createdFastLen.toNat)⟩
  else if cellIn.command = cellCreated2 then
    let handshakeLen := getBe16 p
    if handshakeLen.toNat > cellPayloadSize - 2 then none
    else some ⟨cellCreated2, handshakeLen, zeroFill _ ((p.drop 2).take handshakeLen.toNat)⟩
  else some ⟨0, 0, zeroFill _ []⟩

def createdCellParse (cellIn : Cell) : Option CreatedCell :=
  (createdCellRead cellIn).bind fun cell =>
    if CheckCreatedCell cell then some cell else none

def createdCellFormat (cellIn : CreatedCell) : Option Cell :=
  let len := cellIn.handshakeLen.toNat
  if ¬ CheckCreatedCell cellIn then none
  else if cellIn.cellType = cellCreated ∨ cellIn.cellType = cellCreatedFast then
    if len ≤ cellPayloadSize then some ⟨cellIn.cellType, zeroFill _ cellIn.answer⟩ else none
  else if cellIn.cellType = cellCreated2 then
    if len ≤ cellPayloadSize - 2 then
      some ⟨cellIn.cellType, zeroFill _ (be16 cellIn.handshakeLen ++ cellIn.answer)⟩
    else none
  else none

/-! ### Extended cells -/

structure ExtendedCell where
  cellType : UInt8
  createdCell : CreatedCell
  deriving DecidableEq

def CheckExtendedCell (cell : ExtendedCell) : Prop :=
  (if cell.createdCell.cellType = cellCreated then cell.cellType = relayCommandExtended
    else cell.createdCell.cellType = cellCreated2 ∧ cell.cellType = relayCommandExtended2) ∧
  CheckCreatedCell cell.createdCell

instance (cell : ExtendedCell) : Decidable (CheckExtendedCell cell) := by
  delta CheckExtendedCell
  infer_instance

/-- A relay message as it lies in a cell: its command, its length, and the
buffer that holds it, of which the message is the first `len` bytes. -/
structure RelayMsg where
  command : UInt8
  len : ℕ
  payload : Block relayPayloadSize
  deriving DecidableEq

namespace RelayMsg

def body (msg : RelayMsg) : Bytes := msg.payload.toList.take msg.len

/-- `msg'` is `msg` as it may arrive: what follows the message is padding. -/
def Arrives (msg msg' : RelayMsg) : Prop :=
  msg'.command = msg.command ∧ msg'.len = msg.len ∧ msg'.body = msg.body

end RelayMsg

/-- The `switch` of `extended_cell_parse`, before the check.  The length is a
`size_t`, so `payload_len - 2` wraps below 2. -/
def extendedCellRead (msg : RelayMsg) : Option ExtendedCell :=
  let p := msg.payload.toList
  if msg.command = relayCommandExtended then
    if msg.len ≠ tapOnionskinReplyLen.toNat then none
    else some ⟨relayCommandExtended, cellCreated, tapOnionskinReplyLen,
      zeroFill _ (p.take tapOnionskinReplyLen.toNat)⟩
  else if msg.command = relayCommandExtended2 then
    let handshakeLen := getBe16 p
    if handshakeLen.toNat > relayPayloadSize - 2 ∨
        handshakeLen.toNat > (msg.len + 2 ^ 64 - 2) % 2 ^ 64 then none
    else some ⟨relayCommandExtended2, cellCreated2, handshakeLen,
      zeroFill _ ((p.drop 2).take handshakeLen.toNat)⟩
  else none

def extendedCellParse (msg : RelayMsg) : Option ExtendedCell :=
  if msg.len > relayPayloadSize then none
  else (extendedCellRead msg).bind fun cell =>
    if CheckExtendedCell cell then some cell else none

def extendedCellFormat (cellIn : ExtendedCell) : Option RelayMsg :=
  let len := cellIn.createdCell.handshakeLen.toNat
  if ¬ CheckExtendedCell cellIn then none
  else if cellIn.cellType = relayCommandExtended then
    -- The whole width of a TAP reply, also where an ntor one is shorter.
    some ⟨relayCommandExtended, tapOnionskinReplyLen.toNat,
      zeroFill _ (cellIn.createdCell.reply.toList.take tapOnionskinReplyLen.toNat)⟩
  else if cellIn.cellType = relayCommandExtended2 then
    if 2 + len > relayPayloadSize then none
    else some ⟨relayCommandExtended2, 2 + len,
      zeroFill _ (be16 cellIn.createdCell.handshakeLen ++ cellIn.createdCell.answer)⟩
  else none

def extendedOfCreated (created : CreatedCell) : ExtendedCell where
  cellType :=
    if created.cellType = cellCreated2 then relayCommandExtended2 else relayCommandExtended
  createdCell := created

/-- `command_process_created_cell` at a relay: the reply of the next hop is
packed into an extended message for the client. -/
def commandProcessCreatedCell : Cell → Option RelayMsg :=
  relay createdCellParse extendedOfCreated extendedCellFormat

/-! ### What the encoder of create cells writes -/

namespace CreateCell

def body (cell : CreateCell) : Bytes :=
  if cell.cellType = cellCreate2 then
    be16 cell.handshakeType ++ (be16 cell.handshakeLen ++ cell.skin)
  else if cell.cellType = cellCreate ∧ cell.handshakeType = onionHandshakeTypeNtor then
    ntorCreateMagic ++ cell.skin
  else cell.skin

/-- A CREATE2 cell that holds a fast handshake, which `parse_create2_payload` refuses. -/
def Fast2 (cell : CreateCell) : Prop :=
  cell.cellType = cellCreate2 ∧ cell.handshakeType = onionHandshakeTypeFast

def Tagged (cell : CreateCell) : Prop :=
  cell.cellType = cellCreate ∧ cell.handshakeType = onionHandshakeTypeTap ∧
    cell.skin.take 16 = ntorCreateMagic

instance (cell : CreateCell) : Decidable cell.Fast2 := inferInstanceAs (Decidable (_ ∧ _))

instance (cell : CreateCell) : Decidable cell.Tagged := inferInstanceAs (Decidable (_ ∧ _ ∧ _))

theorem length_skin {cell : CreateCell} (h : cell.handshakeLen.toNat ≤ 2044) :
    cell.skin.length = cell.handshakeLen.toNat := by
  rw [skin, List.length_take, length_toList_block]
  exact min_eq_left h

theorem length_body_le {cell : CreateCell} {unknownOk : Bool}
    (hc : CheckCreateCell cell unknownOk) (h : cell.handshakeLen.toNat ≤ 2044) :
    cell.body.length ≤ 2048 := by
  have hskin := length_skin h
  unfold body
  split_ifs with h2 hn
  · simp only [List.length_append, length_be16, hskin]
    omega
  · obtain ⟨-, hlen⟩ := hc
    rw [if_neg (by rw [hn.2]; decide), if_neg (by rw [hn.2]; decide), if_pos hn.2] at hlen
    rw [List.length_append, hskin, hlen]
    decide
  · omega

end CreateCell

theorem createCellInit_eq_clean {cell : CreateCell} {p : Bytes}
    (h : p.take cell.handshakeLen.toNat = cell.skin) :
    createCellInit cell.cellType cell.handshakeType cell.handshakeLen p = cell.clean := by
  simp only [createCellInit, CreateCell.clean, keep, h]
  rfl

theorem checkCreateCell_cases {cell : CreateCell} (h : CheckCreateCell cell false) :
    (cell.cellType = cellCreate ∧ cell.handshakeType = onionHandshakeTypeTap ∧
      cell.handshakeLen = tapOnionskinChallengeLen) ∨
    (cell.cellType = cellCreate ∧ cell.handshakeType = onionHandshakeTypeNtor ∧
      cell.handshakeLen = ntorOnionskinLen) ∨
    (cell.cellType = cellCreateFast ∧ cell.handshakeType = onionHandshakeTypeFast ∧
      cell.handshakeLen = createFastLen) ∨
    cell.cellType = cellCreate2 := by
  obtain ⟨htype, hlen⟩ := h
  by_cases h1 : cell.cellType = cellCreate
  · rw [if_pos h1] at htype
    rcases htype with ht | ht
    · rw [if_pos ht] at hlen
      exact Or.inl ⟨h1, ht, hlen⟩
    · rw [if_neg (by rw [ht]; decide), if_neg (by rw [ht]; decide), if_pos ht] at hlen
      exact Or.inr (Or.inl ⟨h1, ht, hlen⟩)
  · rw [if_neg h1] at htype
    by_cases h5 : cell.cellType = cellCreateFast
    · rw [if_pos h5] at htype
      rw [if_neg (by rw [htype]; decide), if_pos htype] at hlen
      exact Or.inr (Or.inr (Or.inl ⟨h5, htype, hlen⟩))
    · rw [if_neg h5] at htype
      exact Or.inr (Or.inr (Or.inr htype))

theorem createCellFormatImpl_eq_some {cell : CreateCell} {relayed : Bool} {w : Cell} :
    createCellFormatImpl cell relayed = some w ↔
      CheckCreateCell cell relayed ∧ cell.handshakeLen.toNat ≤ 2044 ∧
        w = ⟨cell.cellType, zeroFill _ cell.body⟩ := by
  unfold createCellFormatImpl
  by_cases hc : CheckCreateCell cell relayed
  swap
  · simp [hc]
  obtain ⟨htype, hlen⟩ := id hc
  by_cases h1 : cell.cellType = cellCreate
  · -- CREATE holds a TAP or an ntor handshake of its one length.
    rw [if_pos h1] at htype
    rcases htype with ht | ht
    · rw [if_pos ht] at hlen
      simp [hc, h1, ht, hlen, CreateCell.body, eq_comm]
    · rw [if_neg (by rw [ht]; decide), if_neg (by rw [ht]; decide), if_pos ht] at hlen
      simp [hc, h1, ht, hlen, CreateCell.body, eq_comm]
  · rw [if_neg h1] at htype
    by_cases h5 : cell.cellType = cellCreateFast
    · rw [if_pos h5] at htype
      rw [if_neg (by rw [htype]; decide), if_pos htype] at hlen
      simp [hc, h5, htype, hlen, CreateCell.body, eq_comm]
    · rw [if_neg h5] at htype
      simp [hc, htype, CreateCell.body, eq_comm]

theorem createCellFormat_eq_some {cell : CreateCell} {w : Cell} :
    createCellFormat cell = some w ↔
      CheckCreateCell cell false ∧ cell.handshakeLen.toNat ≤ 2044 ∧
        w = ⟨cell.cellType, zeroFill _ cell.body⟩ :=
  createCellFormatImpl_eq_some

/-! ### Create cells are read back -/

theorem checkCreateCell_clean {cell : CreateCell} {unknownOk : Bool}
    (h : CheckCreateCell cell unknownOk) : CheckCreateCell cell.clean unknownOk := h

theorem parseCreate2Payload_body {cell : CreateCell} (h2 : cell.cellType = cellCreate2)
    (hlen : cell.handshakeLen.toNat ≤ 2044) (t : Bytes) :
    parseCreate2Payload (cell.body ++ t) =
      if cell.handshakeType = onionHandshakeTypeFast then none else some cell.clean := by
  have hskin := CreateCell.length_skin hlen
  have hbody : cell.body ++ t = be16 cell.handshakeType ++
      (be16 cell.handshakeLen ++ (cell.skin ++ t)) := by
    rw [CreateCell.body, if_pos h2, List.append_assoc, List.append_assoc]
  have hl : getBe16 ((cell.body ++ t).drop 2) = cell.handshakeLen := by
    rw [hbody]
    exact getBe16_be16 _ _
  have hrest : (cell.body ++ t).drop 4 = cell.skin ++ t := by
    rw [hbody]
    rfl
  have hlength : (cell.body ++ t).length = 4 + cell.handshakeLen.toNat + t.length := by
    simp only [hbody, List.length_append, length_be16, hskin]
    omega
  unfold parseCreate2Payload
  rw [if_neg (by omega), hl, hrest, if_neg (by simp only [cellPayloadSize]; omega), hbody,
    getBe16_be16, ← h2, createCellInit_eq_clean]
  rw [← hskin, List.take_left]

/-- What `create_cell_parse` makes of a tagged TAP onionskin. -/
def CreateCell.asNtor (cell : CreateCell) : CreateCell :=
  createCellInit cellCreate onionHandshakeTypeNtor ntorOnionskinLen (cell.skin.drop 16)

theorem createCellInit_congr {p q : Bytes} {cellType : UInt8} {handshakeType len : UInt16}
    (h : p.take len.toNat = q.take len.toNat) :
    createCellInit cellType handshakeType len p = createCellInit cellType handshakeType len q := by
  rw [createCellInit, createCellInit, h]

theorem createCellParse_of_read {w : Cell} {cell : CreateCell}
    (h : createCellRead w = some cell) (hc : CheckCreateCell cell false) :
    createCellParse w = some cell := by
  rw [createCellParse, h, Option.bind_some, if_pos hc]

section Format

variable {cell : CreateCell} (hc : CheckCreateCell cell false)

include hc

theorem createCellParse_tap (h1 : cell.cellType = cellCreate)
    (ht : cell.handshakeType = onionHandshakeTypeTap)
    (hlen : cell.handshakeLen = tapOnionskinChallengeLen) :
    createCellParse ⟨cell.cellType, zeroFill _ cell.body⟩ =
      if cell.skin.take 16 = ntorCreateMagic then some cell.asNtor else some cell.clean := by
  have hskin : cell.skin.length = 186 := by
    rw [CreateCell.length_skin (by rw [hlen]; decide), hlen]
    rfl
  have hbody : cell.body = cell.skin := by simp [CreateCell.body, h1, ht]
  have htake : ∀ k ≤ 186, (zeroFill 2048 cell.skin).toList.take k = cell.skin.take k :=
    fun k hk => take_zeroFill (by omega) (by omega)
  rw [hbody]
  by_cases hm : cell.skin.take 16 = ntorCreateMagic
  · rw [if_pos hm]
    refine createCellParse_of_read ?_ (by simp [CheckCreateCell, CreateCell.asNtor, createCellInit])
    rw [createCellRead, if_pos h1, if_pos ((htake 16 (by omega)).trans hm)]
    refine congrArg some (createCellInit_congr ?_)
    have h100 := congrArg (List.drop 16) (htake 100 (by omega))
    rwa [List.drop_take, List.drop_take] at h100
  · rw [if_neg hm]
    refine createCellParse_of_read ?_ (checkCreateCell_clean hc)
    rw [createCellRead, if_pos h1, if_neg (fun h => hm ((htake 16 (by omega)).symm.trans h)),
      ← h1, ← ht, ← hlen, createCellInit_eq_clean]
    rw [hlen]
    exact (htake 186 le_rfl).trans (List.take_of_length_le (by omega))

theorem createCellParse_ntor (h1 : cell.cellType = cellCreate)
    (ht : cell.handshakeType = onionHandshakeTypeNtor)
    (hlen : cell.handshakeLen = ntorOnionskinLen) :
    createCellParse ⟨cell.cellType, zeroFill _ cell.body⟩ = some cell.clean := by
  have hskin : cell.skin.length = 84 := by
    rw [CreateCell.length_skin (by rw [hlen]; decide), hlen]
    rfl
  have hbody : cell.body = ntorCreateMagic ++ cell.skin := by
    simp [CreateCell.body, h1, ht]
  have htake : ∀ k ≤ 100, (zeroFill 2048 cell.body).toList.take k = cell.body.take k :=
    fun k hk => take_zeroFill (by simp [hbody, hskin]) (by simp [hbody, hskin]; omega)
  refine createCellParse_of_read ?_ (checkCreateCell_clean hc)
  rw [createCellRead, if_pos h1, if_pos, ← h1, ← ht, ← hlen, createCellInit_eq_clean]
  · rw [hlen]
    have h100 := congrArg (List.drop 16) (htake 100 le_rfl)
    rw [List.drop_take, List.drop_take, hbody] at h100
    rw [hbody]
    refine h100.trans (List.take_of_length_le ?_)
    rw [← length_ntorCreateMagic, List.drop_left, hskin]
    decide
  · exact (htake 16 (by omega)).trans (by rw [hbody]; rfl)

theorem createCellParse_fast (h5 : cell.cellType = cellCreateFast)
    (ht : cell.handshakeType = onionHandshakeTypeFast)
    (hlen : cell.handshakeLen = createFastLen) :
    createCellParse ⟨cell.cellType, zeroFill _ cell.body⟩ = some cell.clean := by
  have hskin : cell.skin.length = 20 := by
    rw [CreateCell.length_skin (by rw [hlen]; decide), hlen]
    rfl
  have hbody : cell.body = cell.skin := by simp [CreateCell.body, h5]
  refine createCellParse_of_read ?_ (checkCreateCell_clean hc)
  rw [hbody, createCellRead, if_neg (by simp [h5]), if_pos h5, ← h5, ← ht, ← hlen,
    createCellInit_eq_clean]
  rw [hlen]
  exact (take_zeroFill (by rw [hskin]; decide) (by rw [hskin]; decide)).trans
    (List.take_of_length_le (by rw [hskin]; decide))

theorem createCellParse_create2 (h2 : cell.cellType = cellCreate2)
    (hlen : cell.handshakeLen.toNat ≤ 2044) :
    createCellParse ⟨cell.cellType, zeroFill _ cell.body⟩ =
      if cell.handshakeType = onionHandshakeTypeFast then none else some cell.clean := by
  have hread : createCellRead ⟨cell.cellType, zeroFill _ cell.body⟩ =
      if cell.handshakeType = onionHandshakeTypeFast then none else some cell.clean := by
    rw [createCellRead, if_neg (by simp [h2]), if_neg (by simp [h2]), if_pos h2,
      toList_zeroFill (CreateCell.length_body_le hc hlen), parseCreate2Payload_body h2 hlen]
  rw [createCellParse, hread]
  split_ifs with ht
  · rfl
  · rw [Option.bind_some, if_pos (checkCreateCell_clean hc)]

end Format

/-- What `create_cell_format` wrote is read back, but for the two encodings that
`create_cell_parse` refuses or takes for an ntor handshake. -/
theorem createCellParse_format {cell : CreateCell} {w : Cell}
    (h : createCellFormat cell = some w) :
    createCellParse w =
      if cell.Fast2 then none
      else if cell.Tagged then some cell.asNtor
      else some cell.clean := by
  obtain ⟨hc, hlen, rfl⟩ := createCellFormat_eq_some.mp h
  rcases checkCreateCell_cases hc with ⟨h1, ht, hl⟩ | ⟨h1, ht, hl⟩ | ⟨h5, ht, hl⟩ | h2
  · rw [createCellParse_tap hc h1 ht hl]
    simp [CreateCell.Fast2, CreateCell.Tagged, h1, ht]
  · rw [createCellParse_ntor hc h1 ht hl]
    simp [CreateCell.Fast2, CreateCell.Tagged, h1, ht]
  · rw [createCellParse_fast hc h5 ht hl]
    simp [CreateCell.Fast2, CreateCell.Tagged, h5]
  · rw [createCellParse_create2 hc h2 hlen]
    simp [CreateCell.Fast2, CreateCell.Tagged, h2]

theorem skin_createCellInit (cellType : UInt8) (handshakeType len : UInt16) {p : Bytes}
    (hlen : len.toNat ≤ 2044) (hp : len.toNat ≤ p.length) :
    (createCellInit cellType handshakeType len p).skin = p.take len.toNat :=
  take_zeroFill_of_length (List.length_take_of_le hp) hlen

def Cell.front (k : ℕ) (w : Cell) : Cell := { w with payload := keep k w.payload }

theorem createCellRead_spec {w : Cell} {cell : CreateCell} (h : createCellRead w = some cell) :
    cell.cellType = w.command ∧ cell.handshakeLen.toNat ≤ 2044 ∧
      cell.body = w.payload.toList.take cell.body.length := by
  have hp : w.payload.toList.length = 2048 := length_toList_block _
  have hdrop : ∀ k, (w.payload.toList.drop k).length = 2048 - k := by simp [hp]
  simp only [createCellRead] at h
  split_ifs at h with h1 hm h5 h2
  · obtain rfl := Option.some_inj.mp h
    have hskin := skin_createCellInit cellCreate onionHandshakeTypeNtor ntorOnionskinLen
      (by decide) ((by decide : _ ≤ 2048 - 16).trans_eq (hdrop 16).symm)
    refine ⟨h1.symm, by simp [createCellInit], ?_⟩
    have hbody : (createCellInit cellCreate onionHandshakeTypeNtor ntorOnionskinLen
        (w.payload.toList.drop 16)).body = w.payload.toList.take 100 := by
      rw [CreateCell.body, if_neg (by simp [createCellInit]), if_pos ⟨rfl, rfl⟩, hskin, ← hm,
        show (100 : ℕ) = 16 + 84 from rfl, List.take_add]
      rfl
    rw [hbody, List.length_take_of_le (by omega)]
  · obtain rfl := Option.some_inj.mp h
    have hskin := skin_createCellInit cellCreate onionHandshakeTypeTap tapOnionskinChallengeLen
      (by decide) ((by decide : _ ≤ 2048).trans_eq hp.symm)
    refine ⟨h1.symm, by simp [createCellInit], ?_⟩
    rw [CreateCell.body, if_neg (by simp [createCellInit]),
      if_neg (by simp [createCellInit]), hskin,
      List.length_take_of_le (by rw [hp]; decide)]
  · obtain rfl := Option.some_inj.mp h
    have hskin := skin_createCellInit cellCreateFast onionHandshakeTypeFast createFastLen
      (by decide) ((by decide : _ ≤ 2048).trans_eq hp.symm)
    refine ⟨h5.symm, by simp [createCellInit], ?_⟩
    rw [CreateCell.body, if_neg (by simp [createCellInit]),
      if_neg (by simp [createCellInit]), hskin,
      List.length_take_of_le (by rw [hp]; decide)]
  · simp only [parseCreate2Payload] at h
    split_ifs at h with hshort hbig hfast
    obtain rfl := Option.some_inj.mp h
    have hlen : (getBe16 (w.payload.toList.drop 2)).toNat ≤ 2044 := by
      simp only [cellPayloadSize] at hbig
      omega
    have hskin := skin_createCellInit cellCreate2 (getBe16 w.payload.toList) _ hlen
      (hlen.trans_eq (hdrop 4).symm)
    refine ⟨h2.symm, hlen, ?_⟩
    have hbody : (createCellInit cellCreate2 (getBe16 w.payload.toList)
        (getBe16 (w.payload.toList.drop 2)) (w.payload.toList.drop 4)).body =
        w.payload.toList.take (2 + (2 + (getBe16 (w.payload.toList.drop 2)).toNat)) := by
      rw [CreateCell.body, if_pos (by rfl), hskin, List.take_add, List.take_add, List.drop_drop,
        ← be16_getBe16 (show 2 ≤ w.payload.toList.length by omega),
        ← be16_getBe16 (show 2 ≤ (w.payload.toList.drop 2).length by rw [hdrop]; omega)]
      rfl
    rw [hbody, List.length_take_of_le (by omega)]

/-- Whatever `create_cell_parse` accepts is written again. -/
theorem createCell_reproduces :
    Reproduces (fun _ => True) createCellParse createCellFormat
      fun cell w w' => w' = w.front cell.body.length := by
  intro w cell _ h
  obtain ⟨cell', hread, hif⟩ := Option.bind_eq_some_iff.mp h
  split_ifs at hif with hc
  obtain rfl := Option.some_inj.mp hif
  obtain ⟨htype, hlen, hbody⟩ := createCellRead_spec hread
  refine ⟨_, createCellFormat_eq_some.mpr ⟨hc, hlen, rfl⟩, ?_⟩
  simp only [Cell.front, keep, ← hbody, htype]

/-! ### Created cells -/

namespace CreatedCell

def body (cell : CreatedCell) : Bytes :=
  if cell.cellType = cellCreated2 then be16 cell.handshakeLen ++ cell.answer else cell.answer

/-- The cell as its reader has it: a CREATED cell always comes at the width of a
TAP reply, with zeros behind a shorter answer. -/
def received (cell : CreatedCell) : CreatedCell where
  cellType := cell.cellType
  handshakeLen :=
    if cell.cellType = cellCreated then tapOnionskinReplyLen else cell.handshakeLen
  reply := zeroFill _ cell.answer

def Known (cell : CreatedCell) : Prop :=
  cell.cellType = cellCreated ∨ cell.cellType = cellCreatedFast ∨ cell.cellType = cellCreated2

theorem handshakeLen_le {cell : CreatedCell} (hc : CheckCreatedCell cell) (hk : cell.Known) :
    cell.handshakeLen.toNat ≤ 2035 := by
  unfold CheckCreatedCell at hc
  rcases hk with h | h | h
  · rw [if_pos h] at hc
    rcases hc with hl | hl <;> rw [hl] <;> decide
  · rw [if_neg (by simp [h]), if_pos h] at hc
    rw [hc]
    decide
  · rw [if_neg (by simp [h]), if_neg (by simp [h]), if_pos h] at hc
    exact hc

theorem length_answer {cell : CreatedCell} (h : cell.handshakeLen.toNat ≤ 2035) :
    cell.answer.length = cell.handshakeLen.toNat := by
  rw [answer, List.length_take, length_toList_block]
  exact min_eq_left (h.trans (by decide))

theorem length_body_le {cell : CreatedCell} (h : cell.handshakeLen.toNat ≤ 2035) :
    cell.body.length ≤ 2037 := by
  have hanswer := length_answer h
  unfold body
  split_ifs
  · rw [List.length_append, length_be16, hanswer]
    omega
  · omega

end CreatedCell

theorem createdCellFormat_eq_some {cell : CreatedCell} {w : Cell} :
    createdCellFormat cell = some w ↔
      CheckCreatedCell cell ∧ cell.Known ∧ w = ⟨cell.cellType, zeroFill _ cell.body⟩ := by
  unfold createdCellFormat
  by_cases hc : CheckCreatedCell cell
  swap
  · simp [hc]
  by_cases hk : cell.Known
  swap
  · have hk' := hk
    simp only [CreatedCell.Known, not_or] at hk'
    simp [hc, hk, hk']
  have hlen := CreatedCell.handshakeLen_le hc hk
  have h48 : cell.handshakeLen.toNat ≤ 2048 := by omega
  have h46 : cell.handshakeLen.toNat ≤ 2046 := by omega
  rcases id hk with h | h | h
  · simp [hc, hk, h, h48, CreatedCell.body, eq_comm]
  · simp [hc, hk, h, h48, CreatedCell.body, eq_comm]
  · simp [hc, hk, h, h46, CreatedCell.body, eq_comm]

theorem createdCellParse_eq_some {w : Cell} {cell : CreatedCell} :
    createdCellParse w = some cell ↔ createdCellRead w = some cell ∧ CheckCreatedCell cell := by
  unfold createdCellParse
  rw [Option.bind_eq_some_iff]
  constructor
  · rintro ⟨cell', hread, hif⟩
    split_ifs at hif with hc
    obtain rfl := Option.some_inj.mp hif
    exact ⟨hread, hc⟩
  · rintro ⟨hread, hc⟩
    exact ⟨cell, hread, if_pos hc⟩

theorem createdCell_carries :
    Carries createdCellFormat Eq createdCellParse CreatedCell.received := by
  rintro cell w _ h rfl
  obtain ⟨hc, hk, rfl⟩ := createdCellFormat_eq_some.mp h
  have hlen := CreatedCell.handshakeLen_le hc hk
  have hanswer := CreatedCell.length_answer hlen
  rw [createdCellParse_eq_some]
  unfold CheckCreatedCell at hc
  rcases hk with h1 | h1 | h1
  · -- a CREATED cell, which the reader takes at its full length
    have hbody : cell.body = cell.answer := by simp [CreatedCell.body, h1]
    rw [if_pos h1] at hc
    have hle : cell.answer.length ≤ 148 := by
      rw [hanswer]
      rcases hc with hl | hl <;> rw [hl] <;> decide
    refine ⟨?_, by simp [CheckCreatedCell, CreatedCell.received, h1]⟩
    have hreply : zeroFill 2046 ((zeroFill 2048 cell.answer).toList.take 148) =
        zeroFill 2046 cell.answer :=
      zeroFill_take_zeroFill hle (by decide) (by decide)
    rw [createdCellRead, if_pos h1, CreatedCell.received, if_pos h1, h1, hbody]
    exact congrArg (fun reply => some (CreatedCell.mk cellCreated tapOnionskinReplyLen reply))
      hreply
  · -- a CREATED_FAST cell
    have hbody : cell.body = cell.answer := by simp [CreatedCell.body, h1]
    rw [if_neg (by simp [h1]), if_pos h1] at hc
    have hle : cell.answer.length = 40 := by
      rw [hanswer, hc]
      rfl
    refine ⟨?_, by simp [CheckCreatedCell, CreatedCell.received, h1, hc]⟩
    have hreply : zeroFill 2046 ((zeroFill 2048 cell.answer).toList.take 40) =
        zeroFill 2046 cell.answer :=
      zeroFill_take_zeroFill hle.le (by decide) (by decide)
    rw [createdCellRead, if_neg (by simp [h1]), if_pos h1, CreatedCell.received,
      if_neg (by simp [h1]), h1, hc, hbody]
    exact congrArg (fun reply => some (CreatedCell.mk cellCreatedFast createdFastLen reply))
      hreply
  · -- a CREATED2 cell, which says its length
    have hbody : cell.body = be16 cell.handshakeLen ++ cell.answer := by
      simp [CreatedCell.body, h1]
    rw [if_neg (by simp [h1]), if_neg (by simp [h1]), if_pos h1] at hc
    have hbl := CreatedCell.length_body_le hlen
    refine ⟨?_, by simpa [CheckCreatedCell, CreatedCell.received, h1] using hc⟩
    have hread : getBe16 (zeroFill 2048 cell.body).toList = cell.handshakeLen := by
      rw [toList_zeroFill (by omega), hbody, List.append_assoc, getBe16_be16]
    have hrest : ((zeroFill 2048 cell.body).toList.drop 2).take cell.handshakeLen.toNat =
        cell.answer := by
      rw [toList_zeroFill (by omega), hbody, List.append_assoc,
        List.drop_left' (length_be16 _), ← hanswer, List.take_left]
    rw [createdCellRead, if_neg (by simp [h1]), if_neg (by simp [h1]), if_pos h1]
    simp only [hread, hrest]
    rw [if_neg (by simp only [cellPayloadSize]; omega), CreatedCell.received,
      if_neg (by simp [h1]), h1]

theorem createdCellRead_spec {w : Cell} {cell : CreatedCell}
    (hw : w.command = cellCreated ∨ w.command = cellCreatedFast ∨ w.command = cellCreated2)
    (h : createdCellRead w = some cell) :
    cell.cellType = w.command ∧ cell.body = w.payload.toList.take cell.body.length := by
  have hp : w.payload.toList.length = 2048 := length_toList_block _
  have hdrop : (w.payload.toList.drop 2).length = 2046 := by simp [hp]
  have hfixed : ∀ (t : UInt8) (l : UInt16), t ≠ cellCreated2 → l.toNat ≤ 2046 →
      (CreatedCell.mk t l (zeroFill _ (w.payload.toList.take l.toNat))).body =
        w.payload.toList.take l.toNat := fun t l ht hl => by
    rw [CreatedCell.body, if_neg ht]
    exact take_zeroFill_of_length (List.length_take_of_le (by omega)) hl
  simp only [createdCellRead] at h
  split_ifs at h with h1 h2 h3 hbig
  · obtain rfl := Option.some_inj.mp h
    refine ⟨h1.symm, ?_⟩
    rw [hfixed _ _ (by decide) (by decide), List.length_take_of_le (by rw [hp]; decide)]
  · obtain rfl := Option.some_inj.mp h
    refine ⟨h2.symm, ?_⟩
    rw [hfixed _ _ (by decide) (by decide), List.length_take_of_le (by rw [hp]; decide)]
  · obtain rfl := Option.some_inj.mp h
    have hl : (getBe16 w.payload.toList).toNat ≤ 2046 := not_lt.mp hbig
    refine ⟨h3.symm, ?_⟩
    have hanswer := take_zeroFill_of_length
      (List.length_take_of_le (hl.trans_eq hdrop.symm)) hl
    have hbody : (CreatedCell.mk cellCreated2 (getBe16 w.payload.toList)
        (zeroFill _ ((w.payload.toList.drop 2).take (getBe16 w.payload.toList).toNat))).body =
        w.payload.toList.take (2 + (getBe16 w.payload.toList).toNat) := by
      rw [CreatedCell.body, if_pos rfl, List.take_add, ← be16_getBe16 (by omega)]
      exact congrArg _ hanswer
    rw [hbody, List.length_take_of_le (by omega)]
  · simp [h1, h2, h3] at hw

/-- Whatever `created_cell_parse` accepts as one of its three cells is written again. -/
theorem createdCell_reproduces :
    Reproduces (fun w : Cell => w.command = cellCreated ∨ w.command = cellCreatedFast ∨
        w.command = cellCreated2) createdCellParse createdCellFormat
      fun cell w w' => w' = w.front cell.body.length := by
  intro w cell hw h
  obtain ⟨hread, hc⟩ := createdCellParse_eq_some.mp h
  obtain ⟨htype, hbody⟩ := createdCellRead_spec hw hread
  refine ⟨_, createdCellFormat_eq_some.mpr ⟨hc, by rwa [CreatedCell.Known, htype], rfl⟩, ?_⟩
  simp only [Cell.front, keep, ← hbody, htype]

/-! ### Extended cells -/

namespace ExtendedCell

/-- The meaningful bytes of the encoded cell: the whole TAP width for EXTENDED. -/
def body (cell : ExtendedCell) : Bytes :=
  if cell.cellType = relayCommandExtended then
    cell.createdCell.reply.toList.take tapOnionskinReplyLen.toNat
  else be16 cell.createdCell.handshakeLen ++ cell.createdCell.answer

def received (cell : ExtendedCell) : ExtendedCell where
  cellType := cell.cellType
  createdCell :=
    if cell.cellType = relayCommandExtended then
      ⟨cell.createdCell.cellType, tapOnionskinReplyLen,
        keep tapOnionskinReplyLen.toNat cell.createdCell.reply⟩
    else
      ⟨cell.createdCell.cellType, cell.createdCell.handshakeLen,
        keep cell.createdCell.handshakeLen.toNat cell.createdCell.reply⟩

end ExtendedCell

theorem checkExtendedCell_cases {cell : ExtendedCell} (h : CheckExtendedCell cell) :
    (cell.cellType = relayCommandExtended ∧ cell.createdCell.cellType = cellCreated) ∨
    (cell.cellType = relayCommandExtended2 ∧ cell.createdCell.cellType = cellCreated2 ∧
      cell.createdCell.handshakeLen.toNat ≤ 2035) := by
  obtain ⟨htype, hc⟩ := h
  by_cases h1 : cell.createdCell.cellType = cellCreated
  · rw [if_pos h1] at htype
    exact Or.inl ⟨htype, h1⟩
  · rw [if_neg h1] at htype
    refine Or.inr ⟨htype.2, htype.1, ?_⟩
    rw [CheckCreatedCell, if_neg h1, if_neg (by simp [htype.1]), if_pos htype.1] at hc
    exact hc

theorem extendedCellFormat_eq_some {cell : ExtendedCell} {msg : RelayMsg} :
    extendedCellFormat cell = some msg ↔
      CheckExtendedCell cell ∧
        msg = ⟨cell.cellType, cell.body.length, zeroFill _ cell.body⟩ := by
  unfold extendedCellFormat
  by_cases hc : CheckExtendedCell cell
  swap
  · simp [hc]
  rcases checkExtendedCell_cases hc with ⟨ht, -⟩ | ⟨ht, -, hlen⟩
  · simp [hc, ht, ExtendedCell.body, eq_comm]
  · have hbody : cell.body = be16 cell.createdCell.handshakeLen ++ cell.createdCell.answer := by
      simp [ExtendedCell.body, ht]
    have hl : cell.body.length = 2 + cell.createdCell.handshakeLen.toNat := by
      rw [hbody, List.length_append, CreatedCell.length_answer hlen, length_be16]
    rw [hl, hbody]
    simp [hc, ht, eq_comm]
    omega

theorem extendedCellParse_eq_some {msg : RelayMsg} {cell : ExtendedCell} :
    extendedCellParse msg = some cell ↔
      msg.len ≤ 2037 ∧ extendedCellRead msg = some cell ∧ CheckExtendedCell cell := by
  unfold extendedCellParse
  by_cases hlen : msg.len > relayPayloadSize
  · rw [if_pos hlen]
    exact iff_of_false (by simp) fun h => absurd h.1 (not_le.mpr hlen)
  rw [if_neg hlen, Option.bind_eq_some_iff]
  constructor
  · rintro ⟨cell', hread, hif⟩
    split_ifs at hif with hc
    obtain rfl := Option.some_inj.mp hif
    exact ⟨not_lt.mp hlen, hread, hc⟩
  · rintro ⟨-, hread, hc⟩
    exact ⟨cell, hread, if_pos hc⟩

theorem extendedCellRead_extended2 {msg : RelayMsg} {len : UInt16} {answer : Bytes}
    (hcmd : msg.command = relayCommandExtended2) (hlen : msg.len = 2 + len.toNat)
    (hle : len.toNat ≤ 2035) (hl : answer.length = len.toNat)
    (hbody : msg.body = be16 len ++ answer) :
    extendedCellRead msg =
      some ⟨relayCommandExtended2, cellCreated2, len, zeroFill _ answer⟩ := by
  have hp : msg.payload.toList = be16 len ++ (answer ++ msg.payload.toList.drop msg.len) := by
    rw [← List.append_assoc, ← hbody, RelayMsg.body, List.take_append_drop]
  have hget : getBe16 msg.payload.toList = len := by
    rw [hp]
    exact getBe16_be16 _ _
  have hrest : (msg.payload.toList.drop 2).take len.toNat = answer := by
    rw [hp, List.drop_left' (length_be16 len), ← hl, List.take_left]
  rw [extendedCellRead, if_neg (by simp [hcmd]), if_pos hcmd]
  simp only [hget, hrest, hlen]
  rw [if_neg]
  simp only [relayPayloadSize, cellPayloadSize, relayHeaderSize]
  omega

theorem extendedCell_carries :
    Carries extendedCellFormat RelayMsg.Arrives extendedCellParse ExtendedCell.received := by
  rintro cell msg msg' h ⟨hcmd, hlen, hbody⟩
  obtain ⟨hc, rfl⟩ := extendedCellFormat_eq_some.mp h
  have hlen : msg'.len = cell.body.length := hlen
  rw [extendedCellParse_eq_some]
  rcases checkExtendedCell_cases hc with ⟨ht, hct⟩ | ⟨ht, hct, hle⟩
  · have hb : cell.body = cell.createdCell.reply.toList.take 148 := by
      simp [ExtendedCell.body, ht]
    have hl : cell.body.length = 148 := by
      rw [hb, List.length_take, length_toList_block]
      rfl
    have hp : msg'.payload.toList.take 148 = cell.body := by
      have htake := take_zeroFill_of_length (n := 2037) hl (by decide)
      rw [RelayMsg.body, RelayMsg.body, hlen, hl] at hbody
      exact hbody.trans htake
    refine ⟨by omega, ?_, ?_⟩
    · rw [extendedCellRead, if_pos (hcmd.trans ht), if_neg (by simp [hlen, hl]),
        ExtendedCell.received, if_pos ht, ht, hct]
      refine congrArg (fun b => some (ExtendedCell.mk relayCommandExtended
        (CreatedCell.mk cellCreated tapOnionskinReplyLen (zeroFill _ b)))) ?_
      exact hp.trans hb
    · simp [CheckExtendedCell, CheckCreatedCell, ExtendedCell.received, ht, hct]
  · have hb : cell.body = be16 cell.createdCell.handshakeLen ++ cell.createdCell.answer := by
      simp [ExtendedCell.body, ht]
    have hanswer := CreatedCell.length_answer hle
    have hl : cell.body.length = 2 + cell.createdCell.handshakeLen.toNat := by
      rw [hb, List.length_append, hanswer, length_be16]
    refine ⟨by omega, ?_, ?_⟩
    · rw [extendedCellRead_extended2 (hcmd.trans ht) (hlen.trans hl) hle hanswer,
        ExtendedCell.received, if_neg (by simp [ht]), ht, ← hct]
      · rfl
      · rw [hbody, ← hb]
        exact take_zeroFill_of_length rfl (hl.trans_le (by simp; omega))
    · simpa [CheckExtendedCell, CheckCreatedCell, ExtendedCell.received, ht, hct] using hle

/-- What of a message an extended cell of `k` bytes makes. -/
def RelayMsg.front (k : ℕ) (msg : RelayMsg) : RelayMsg where
  command := msg.command
  len := k
  payload := keep k msg.payload

theorem extendedCellRead_spec {msg : RelayMsg} {cell : ExtendedCell}
    (h : extendedCellRead msg = some cell) :
    cell.cellType = msg.command ∧ cell.body = msg.payload.toList.take cell.body.length ∧
      (2 ≤ msg.len → msg.len ≤ 2037 → cell.body.length ≤ msg.len) := by
  have hp : msg.payload.toList.length = 2037 := length_toList_block _
  have hdrop : (msg.payload.toList.drop 2).length = 2035 := by simp [hp]
  simp only [extendedCellRead] at h
  split_ifs at h with h1 hne h2 hbig
  · obtain rfl := Option.some_inj.mp h
    have hbody : (ExtendedCell.mk relayCommandExtended ⟨cellCreated, tapOnionskinReplyLen,
        zeroFill _ (msg.payload.toList.take tapOnionskinReplyLen.toNat)⟩).body =
        msg.payload.toList.take tapOnionskinReplyLen.toNat := by
      rw [ExtendedCell.body, if_pos rfl]
      exact take_zeroFill_of_length (List.length_take_of_le (by rw [hp]; decide)) (by decide)
    have hl : (msg.payload.toList.take tapOnionskinReplyLen.toNat).length =
        tapOnionskinReplyLen.toNat := List.length_take_of_le (by rw [hp]; decide)
    rw [hbody, hl]
    exact ⟨h1.symm, rfl, fun _ _ => (not_not.mp hne).ge⟩
  · obtain rfl := Option.some_inj.mp h
    have hle : (getBe16 msg.payload.toList).toNat ≤ 2035 := by
      simp only [relayPayloadSize, cellPayloadSize, relayHeaderSize] at hbig
      omega
    have hanswer := take_zeroFill_of_length (n := 2046)
      (List.length_take_of_le (hle.trans_eq hdrop.symm)) (by omega)
    have hbody : (ExtendedCell.mk relayCommandExtended2 ⟨cellCreated2,
        getBe16 msg.payload.toList, zeroFill _ ((msg.payload.toList.drop 2).take
          (getBe16 msg.payload.toList).toNat)⟩).body =
        msg.payload.toList.take (2 + (getBe16 msg.payload.toList).toNat) := by
      rw [ExtendedCell.body, if_neg (by simp), List.take_add, ← be16_getBe16 (by omega)]
      exact congrArg _ hanswer
    have hl : (msg.payload.toList.take (2 + (getBe16 msg.payload.toList).toNat)).length =
        2 + (getBe16 msg.payload.toList).toNat := List.length_take_of_le (by omega)
    rw [hbody, hl]
    refine ⟨h2.symm, rfl, fun hlo hhi => ?_⟩
    have hwrap : (msg.len + 2 ^ 64 - 2) % 2 ^ 64 = msg.len - 2 := by omega
    rw [hwrap] at hbig
    omega

/-- Whatever `extended_cell_parse` accepts is written again, and is no longer
than the message it was parsed from. -/
theorem extendedCell_reproduces :
    Reproduces (fun _ => True) extendedCellParse extendedCellFormat
      fun cell msg msg' => msg' = msg.front cell.body.length ∧
        (2 ≤ msg.len → msg'.len ≤ msg.len) := by
  intro msg cell _ h
  obtain ⟨hlen, hread, hc⟩ := extendedCellParse_eq_some.mp h
  obtain ⟨htype, hbody, hle⟩ := extendedCellRead_spec hread
  refine ⟨_, extendedCellFormat_eq_some.mpr ⟨hc, rfl⟩, ?_, fun h2 => hle h2 hlen⟩
  simp only [RelayMsg.front, keep, ← hbody, htype]

/-! ### The bytes an extended message is parsed from -/

/-- The message alone decides: what stands behind its end makes no difference, and an EXTENDED2
body is accepted only where the message holds all of it. -/
structure RelayMsg.Decides (msg : RelayMsg) : Prop where
  congr : ∀ msg', msg.Arrives msg' → extendedCellParse msg' = extendedCellParse msg
  holds : msg.command = relayCommandExtended2 → ∀ cell, extendedCellParse msg = some cell →
    2 + cell.createdCell.handshakeLen.toNat ≤ msg.len

/-- Too short for the length field of an EXTENDED2 body, and what there is of the field does not
make it too large already. -/
def RelayMsg.Truncated (msg : RelayMsg) : Prop :=
  msg.command = relayCommandExtended2 ∧
    (msg.len = 0 ∨ msg.len = 1 ∧ (msg.payload.toList[0]?.getD 0).toNat < 8)

theorem extendedCellParse_extended2 {msg : RelayMsg} (h : msg.command = relayCommandExtended2) :
    extendedCellParse msg =
      if msg.len ≤ 2037 ∧ (getBe16 msg.payload.toList).toNat ≤ 2035 ∧
          (getBe16 msg.payload.toList).toNat ≤ (msg.len + 2 ^ 64 - 2) % 2 ^ 64 then
        some ⟨relayCommandExtended2, cellCreated2, getBe16 msg.payload.toList,
          zeroFill _ ((msg.payload.toList.drop 2).take (getBe16 msg.payload.toList).toNat)⟩
      else none := by
  have hread : extendedCellRead msg =
      if (getBe16 msg.payload.toList).toNat > 2035 ∨
          (getBe16 msg.payload.toList).toNat > (msg.len + 2 ^ 64 - 2) % 2 ^ 64 then none
      else some ⟨relayCommandExtended2, cellCreated2, getBe16 msg.payload.toList,
        zeroFill _ ((msg.payload.toList.drop 2).take (getBe16 msg.payload.toList).toNat)⟩ := by
    rw [extendedCellRead, if_neg (by rw [h]; decide), if_pos h]
    rfl
  rw [extendedCellParse, hread]
  simp only [relayPayloadSize, cellPayloadSize, relayHeaderSize]
  by_cases hfits : msg.len ≤ 2037 ∧ (getBe16 msg.payload.toList).toNat ≤ 2035 ∧
      (getBe16 msg.payload.toList).toNat ≤ (msg.len + 2 ^ 64 - 2) % 2 ^ 64
  · rw [if_pos hfits, if_neg (by omega), if_neg (by omega)]
    refine if_pos ⟨by simp, ?_⟩
    simpa [CheckCreatedCell] using hfits.2.1
  · rw [if_neg hfits]
    split_ifs with hlong hbad
    · rfl
    · rfl
    · exact absurd ⟨by omega, by omega, by omega⟩ hfits

theorem toNat_getBe16 (p : Bytes) :
    (getBe16 p).toNat = (p[0]?.getD 0).toNat * 256 + (p[1]?.getD 0).toNat := by
  have h0 : (p[0]?.getD 0).toNat < 256 := (p[0]?.getD 0).toNat_lt
  have h1 : (p[1]?.getD 0).toNat < 256 := (p[1]?.getD 0).toNat_lt
  simp [getBe16]
  omega

theorem RelayMsg.body_front {msg : RelayMsg} (h : msg.len ≤ 2037) :
    (msg.front msg.len).body = msg.body := by
  have hp : msg.payload.toList.length = 2037 := length_toList_block _
  exact take_zeroFill_of_length (List.length_take_of_le (by omega)) h

theorem decides_of_two_le {msg : RelayMsg} (h : msg.command = relayCommandExtended2)
    (hlen : 2 ≤ msg.len) : msg.Decides := by
  constructor
  · rintro msg' ⟨hcmd, hl, hbody⟩
    have hget : getBe16 msg'.payload.toList = getBe16 msg.payload.toList := by
      refine getBe16_eq_of_take_eq hlen ?_
      rwa [RelayMsg.body, RelayMsg.body, hl] at hbody
    rw [extendedCellParse_extended2 h, extendedCellParse_extended2 (hcmd.trans h), hl, hget]
    split_ifs with hfits
    · -- the handshake is within the message
      have hwrap : (msg.len + 2 ^ 64 - 2) % 2 ^ 64 = msg.len - 2 := by omega
      have htake : (msg'.payload.toList.drop 2).take (getBe16 msg.payload.toList).toNat =
          (msg.payload.toList.drop 2).take (getBe16 msg.payload.toList).toNat := by
        rw [RelayMsg.body, RelayMsg.body, hl] at hbody
        have hfront := congrArg (fun l => l.take (2 + (getBe16 msg.payload.toList).toNat)) hbody
        simp only [List.take_take] at hfront
        rw [min_eq_left (by omega)] at hfront
        have hdrop := congrArg (List.drop 2) hfront
        rwa [List.drop_take, List.drop_take, Nat.add_sub_cancel_left] at hdrop
      rw [htake]
    · rfl
  · intro _ cell hcell
    rw [extendedCellParse_extended2 h] at hcell
    split_ifs at hcell with hfits
    obtain rfl := Option.some_inj.mp hcell
    show 2 + (getBe16 msg.payload.toList).toNat ≤ msg.len
    omega

theorem getBe16_front_le {msg : RelayMsg} (h : msg.Truncated) :
    (getBe16 (msg.front msg.len).payload.toList).toNat ≤ 2035 := by
  have hp : msg.payload.toList.length = 2037 := length_toList_block _
  have hlist : (msg.front msg.len).payload.toList =
      msg.payload.toList.take msg.len ++ List.replicate (2037 - msg.len) 0 := by
    have hfill := toList_zeroFill (n := 2037) (l := msg.payload.toList.take msg.len)
      (by rw [List.length_take]; omega)
    rw [List.length_take, hp] at hfill
    rcases h.2 with h0 | ⟨h1, -⟩
    · rw [h0] at hfill ⊢
      exact hfill
    · rw [h1] at hfill ⊢
      exact hfill
  have hzero (n i : ℕ) : (List.replicate n (0 : UInt8))[i]?.getD 0 = 0 := by
    rw [List.getElem?_replicate]
    split <;> rfl
  rw [toNat_getBe16, hlist]
  rcases h.2 with h0 | ⟨h1, hsmall⟩
  · rw [h0, List.take_zero, List.nil_append, hzero, hzero]
    decide
  · obtain ⟨b, rest, hcons⟩ := List.exists_cons_of_length_pos (l := msg.payload.toList) (by omega)
    rw [hcons] at hsmall ⊢
    rw [h1]
    simp only [List.getElem?_cons_zero, Option.getD_some] at hsmall
    simp only [List.take_succ_cons, List.take_zero, List.cons_append, List.nil_append,
      List.getElem?_cons_zero, List.getElem?_cons_succ, Option.getD_some, hzero]
    have : (0 : UInt8).toNat = 0 := rfl
    omega

theorem not_decides_of_truncated {msg : RelayMsg} (htrunc : msg.Truncated) : ¬msg.Decides := by
  intro hdecides
  obtain ⟨h, hshort⟩ := id htrunc
  have hle := getBe16_front_le htrunc
  -- with zeros behind its end, the message is accepted
  have harrives : msg.Arrives (msg.front msg.len) := ⟨rfl, rfl, RelayMsg.body_front (by omega)⟩
  have hfront : (msg.front msg.len).command = relayCommandExtended2 := h
  have haccept := extendedCellParse_extended2 hfront
  rw [if_pos ⟨by show msg.len ≤ 2037; omega, hle,
    by show _ ≤ (msg.len + 2 ^ 64 - 2) % 2 ^ 64; omega⟩, hdecides.congr _ harrives] at haccept
  have hholds := hdecides.holds h _ haccept
  omega

/-- **The declared length bounds what `extended_cell_parse` looks at**, unless an EXTENDED2 message
is shorter than its length field: then the field is read from behind the message, and the check
against the length wraps. -/
theorem decides_iff (msg : RelayMsg) : msg.Decides ↔ ¬msg.Truncated := by
  constructor
  · exact fun hdecides htrunc => not_decides_of_truncated htrunc hdecides
  · intro hshort
    by_cases h : msg.command = relayCommandExtended2
    · by_cases hlen : 2 ≤ msg.len
      · exact decides_of_two_le h hlen
      · have hlen1 : msg.len = 1 := by
          by_contra hne
          exact hshort ⟨h, .inl (by omega)⟩
        have hlarge : 8 ≤ (msg.payload.toList[0]?.getD 0).toNat := by
          by_contra hsmall
          exact hshort ⟨h, .inr ⟨hlen1, by omega⟩⟩
        -- the first byte of the field alone makes it too large
        have hnone {msg' : RelayMsg} (hmsg : msg.Arrives msg') : extendedCellParse msg' = none := by
          obtain ⟨hcmd, hl, hbody⟩ := hmsg
          have hfirst : msg'.payload.toList[0]? = msg.payload.toList[0]? := by
            rw [RelayMsg.body, RelayMsg.body, hl, hlen1] at hbody
            rw [← List.getElem?_take_of_lt (show 0 < 1 by omega), hbody,
              List.getElem?_take_of_lt (show 0 < 1 by omega)]
          rw [extendedCellParse_extended2 (hcmd.trans h), if_neg]
          rw [toNat_getBe16, hfirst]
          omega
        have hself := hnone ⟨rfl, rfl, rfl⟩
        exact ⟨fun msg' hmsg => (hnone hmsg).trans hself.symm,
          fun _ cell hcell => absurd (hself.symm.trans hcell) (by simp)⟩
    · refine ⟨?_, fun hcmd => absurd hcmd h⟩
      rintro msg' ⟨hcmd, hl, hbody⟩
      simp only [extendedCellParse, extendedCellRead, hcmd, hl, if_neg h]
      split_ifs with hlong h1 hne
      · rfl
      · rfl
      · -- a TAP reply has a fixed length
        have hlen : msg.len = tapOnionskinReplyLen.toNat := not_not.mp hne
        rw [RelayMsg.body, RelayMsg.body, hl, hlen] at hbody
        rw [hbody]
      · rfl

/-- An empty EXTENDED2 message in a buffer of zeros. -/
theorem empty_extended2_accepted :
    ¬RelayMsg.Decides ⟨relayCommandExtended2, 0, zeroFill _ []⟩ :=
  not_decides_of_truncated ⟨rfl, .inl rfl⟩

/-! ### A reply on its way back to the client -/

theorem received_extendedOfCreated {cell : CreatedCell} (hc : CheckCreatedCell cell)
    (hk : cell.cellType = cellCreated ∨ cell.cellType = cellCreated2) :
    (extendedOfCreated cell.received).received.createdCell = cell.received := by
  have hlen := CreatedCell.handshakeLen_le hc (by tauto)
  have hanswer := CreatedCell.length_answer hlen
  rcases hk with h | h
  · rw [CheckCreatedCell, if_pos h] at hc
    have hle : cell.answer.length ≤ 148 := by
      rw [hanswer]
      rcases hc with hl | hl <;> rw [hl] <;> decide
    have hreply := zeroFill_take_zeroFill hle (by decide : 148 ≤ 2046) (by decide : 148 ≤ 2046)
    simp [extendedOfCreated, ExtendedCell.received, CreatedCell.received, h, keep, hreply]
  · have hreply := zeroFill_take_zeroFill hanswer.le (hlen.trans (by decide : 2035 ≤ 2046))
      (hlen.trans (by decide : 2035 ≤ 2046))
    simp [extendedOfCreated, ExtendedCell.received, CreatedCell.received, h, keep, hreply]

theorem checkCreatedCell_received {cell : CreatedCell} (hc : CheckCreatedCell cell) :
    CheckCreatedCell cell.received := by
  by_cases h : cell.cellType = cellCreated
  · simp [CheckCreatedCell, CreatedCell.received, h]
  · simpa [CheckCreatedCell, CreatedCell.received, h] using hc

theorem commandProcessCreatedCell_delivers {cell : CreatedCell} {w : Cell}
    (h : createdCellFormat cell = some w)
    (hk : cell.cellType = cellCreated ∨ cell.cellType = cellCreated2) :
    ∃ msg, commandProcessCreatedCell w = some msg ∧
      ∀ msg', msg.Arrives msg' →
        (extendedCellParse msg').map ExtendedCell.createdCell = some cell.received := by
  obtain ⟨hc, -, -⟩ := createdCellFormat_eq_some.mp h
  have hcheck : CheckExtendedCell (extendedOfCreated cell.received) := by
    refine ⟨?_, checkCreatedCell_received hc⟩
    rcases hk with h | h <;> simp [extendedOfCreated, CreatedCell.received, h]
  obtain ⟨msg, hformat⟩ : ∃ msg, extendedCellFormat (extendedOfCreated cell.received) = some msg :=
    ⟨_, extendedCellFormat_eq_some.mpr ⟨hcheck, rfl⟩⟩
  have hrelay : commandProcessCreatedCell w = some msg := by
    rw [commandProcessCreatedCell, relay, createdCell_carries h rfl, Option.bind_some]
    exact hformat
  refine ⟨msg, hrelay, fun msg' hmsg => ?_⟩
  rw [createdCell_carries.trans extendedCell_carries h rfl hrelay hmsg, Option.map_some,
    received_extendedOfCreated hc hk]

theorem answer_received {cell : CreatedCell} (hc : CheckCreatedCell cell) (hk : cell.Known) :
    cell.received.answer =
      cell.answer ++ List.replicate (cell.received.handshakeLen.toNat - cell.answer.length) 0 := by
  have hlen := CreatedCell.handshakeLen_le hc hk
  have hanswer := CreatedCell.length_answer hlen
  have hle : cell.answer.length ≤ cell.received.handshakeLen.toNat ∧
      cell.received.handshakeLen.toNat ≤ 2046 := by
    rw [hanswer]
    by_cases h : cell.cellType = cellCreated
    · have hr : cell.received.handshakeLen = tapOnionskinReplyLen := if_pos h
      rw [CheckCreatedCell, if_pos h] at hc
      rw [hr]
      rcases hc with hl | hl <;> rw [hl] <;> decide
    · have hr : cell.received.handshakeLen = cell.handshakeLen := if_neg h
      rw [hr]
      exact ⟨le_rfl, by omega⟩
  exact take_zeroFill_of_le hle.1 hle.2

theorem answer_received_cases {cell : CreatedCell} (hc : CheckCreatedCell cell)
    (hk : cell.Known) :
    cell.received.answer = cell.answer ∨
      cell.cellType = cellCreated ∧ cell.handshakeLen = ntorReplyLen ∧
        cell.received.answer = cell.answer ++ List.replicate 84 0 := by
  have hlen := CreatedCell.length_answer (CreatedCell.handshakeLen_le hc hk)
  have hanswer := answer_received hc hk
  by_cases h : cell.cellType = cellCreated
  · have hr : cell.received.handshakeLen = tapOnionskinReplyLen := if_pos h
    rw [CheckCreatedCell, if_pos h] at hc
    rw [hr, hlen] at hanswer
    rcases hc with hl | hl
    · rw [hl] at hanswer
      simp only [tapOnionskinReplyLen, Nat.sub_self, List.replicate_zero,
        List.append_nil] at hanswer
      exact Or.inl hanswer
    · rw [hl] at hanswer
      exact Or.inr ⟨h, hl, hanswer⟩
  · have hr : cell.received.handshakeLen = cell.handshakeLen := if_neg h
    rw [hr, hlen, Nat.sub_self, List.replicate_zero, List.append_nil] at hanswer
    exact Or.inl hanswer

/-- **Create, created and extended cells round trip.**  A create cell is read
back exactly when it is neither of the two the parser refuses or re-reads;
created and extended cells are read back at the width their type is read with;
whatever a parser accepts is written again; and a reply of the next hop reaches
the client through a relay. -/
theorem cells_round_trip :
    (∀ cell w, createCellFormat cell = some w →
      (createCellParse w = some cell.clean ↔ ¬ cell.Fast2 ∧ ¬ cell.Tagged)) ∧
    Reproduces (fun _ => True) createCellParse createCellFormat
      (fun cell w w' => w' = w.front cell.body.length) ∧
    Carries createdCellFormat Eq createdCellParse CreatedCell.received ∧
    Reproduces (fun w => w.command = cellCreated ∨ w.command = cellCreatedFast ∨
        w.command = cellCreated2) createdCellParse createdCellFormat
      (fun cell w w' => w' = w.front cell.body.length) ∧
    Carries extendedCellFormat RelayMsg.Arrives extendedCellParse ExtendedCell.received ∧
    Reproduces (fun _ => True) extendedCellParse extendedCellFormat
      (fun cell msg msg' => msg' = msg.front cell.body.length ∧
        (2 ≤ msg.len → msg'.len ≤ msg.len)) ∧
    ∀ cell w, createdCellFormat cell = some w →
      cell.cellType = cellCreated ∨ cell.cellType = cellCreated2 →
      ∃ msg, commandProcessCreatedCell w = some msg ∧
        ∀ msg', msg.Arrives msg' → ∃ e, extendedCellParse msg' = some e ∧
          e.createdCell.cellType = cell.cellType ∧
          (e.createdCell.answer = cell.answer ∨
            cell.cellType = cellCreated ∧ cell.handshakeLen = ntorReplyLen ∧
              e.createdCell.answer = cell.answer ++ List.replicate 84 0) := by
  refine ⟨fun cell w h => ?_, createCell_reproduces, createdCell_carries,
    createdCell_reproduces, extendedCell_carries, extendedCell_reproduces,
    fun cell w h hk => ?_⟩
  · rw [createCellParse_format h]
    split_ifs with hf ht
    · simp [hf]
    · -- An ntor handshake is not the TAP one that was written.
      have hne : cell.asNtor ≠ cell.clean := fun he => by
        have htype : onionHandshakeTypeNtor = cell.handshakeType :=
          congrArg CreateCell.handshakeType he
        simp [← htype, CreateCell.Tagged] at ht
      simp [ht, hne]
    · simp [hf, ht]
  · obtain ⟨hc, hknown, -⟩ := createdCellFormat_eq_some.mp h
    obtain ⟨msg, hrelay, hdeliver⟩ := commandProcessCreatedCell_delivers h hk
    refine ⟨msg, hrelay, fun msg' hmsg => ?_⟩
    obtain ⟨e, he, hcreated⟩ := Option.map_eq_some_iff.mp (hdeliver msg' hmsg)
    exact ⟨e, he, by rw [hcreated]; rfl, by rw [hcreated]; exact answer_received_cases hc hknown⟩

/-- A CREATE2 cell with a fast handshake, as `check_create_cell` admits it. -/
def fast2Cell : CreateCell :=
  ⟨cellCreate2, onionHandshakeTypeFast, createFastLen, zeroFill _ []⟩

def taggedCell : CreateCell :=
  ⟨cellCreate, onionHandshakeTypeTap, tapOnionskinChallengeLen, zeroFill _ ntorCreateMagic⟩

theorem create_cells_not_read_back :
    (∃ w, createCellFormat fast2Cell = some w ∧ createCellParse w = none) ∧
    ∃ w cell', createCellFormat taggedCell = some w ∧ createCellParse w = some cell' ∧
      cell'.handshakeType ≠ taggedCell.handshakeType := by
  have hfast : createCellFormat fast2Cell = some _ :=
    createCellFormat_eq_some.mpr ⟨by decide, by decide, rfl⟩
  have htagged : createCellFormat taggedCell = some _ :=
    createCellFormat_eq_some.mpr ⟨by decide, by decide, rfl⟩
  have ht : taggedCell.Tagged := by
    refine ⟨rfl, rfl, ?_⟩
    rw [CreateCell.skin, List.take_take]
    exact take_zeroFill_of_length rfl (by decide)
  have hf : ¬ taggedCell.Fast2 := by decide
  refine ⟨⟨_, hfast, ?_⟩, _, taggedCell.asNtor, htagged, ?_, by decide⟩
  · rw [createCellParse_format hfast, if_pos (by decide)]
  · rw [createCellParse_format htagged, if_neg hf, if_pos ht]

end Onion
