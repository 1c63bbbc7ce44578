/-
Extend cells (`core/or/onion.c`, `trunnel/ed25519_cert.c`, `lib/net/address.c`).

A client asks the last hop of a circuit for one more with an EXTEND or EXTEND2
message.  Three encodings share one record: the fixed EXTEND body, the same body
with the ntor magic in front of its onionskin, and the EXTEND2 body with its
link specifiers.  Behind the body stands the payment for the hop, if there is
one: a trailer the parser never looks at.
-/
import LibEltor.Parser
import LibEltor.Onion

open Bytes Parser

namespace Onion

/-! ### Addresses -/

/-- `tor_addr_t`, by family.  An IPv4 address is in host order. -/
inductive TorAddr
  | unspec
  | inet (addr : UInt32)
  | inet6 (addr : Block 16)
  deriving DecidableEq

structure TorAddrPort where
  addr : TorAddr
  port : UInt16
  deriving DecidableEq

def zeroBlock (n : ℕ) : Block n := zeroFill n []

def TorAddrIsNull : TorAddr → Prop
  | .unspec => True
  | .inet addr => addr = 0
  | .inet6 addr => addr = zeroBlock 16

instance : DecidablePred TorAddrIsNull
  | .unspec => isTrue trivial
  | .inet addr => inferInstanceAs (Decidable (addr = 0))
  | .inet6 addr => inferInstanceAs (Decidable (addr = zeroBlock 16))

/-- `tor_addr_port_is_valid_ap`, not for listening. -/
def TorAddrPortIsValid (ap : TorAddrPort) : Prop := ¬ TorAddrIsNull ap.addr ∧ ap.port ≠ 0

instance (ap : TorAddrPort) : Decidable (TorAddrPortIsValid ap) :=
  inferInstanceAs (Decidable (_ ∧ _))

def torAddrToIpv4h : TorAddr → UInt32
  | .inet addr => addr
  | _ => 0

def torAddrCopyIpv6Bytes : TorAddr → Block 16
  | .inet6 addr => addr
  | _ => zeroBlock 16

structure ExtendCell where
  cellType : UInt8
  orportIpv4 : TorAddrPort
  orportIpv6 : TorAddrPort
  nodeId : Block 20
  edPubkey : Block 32
  createCell : CreateCell
  deriving DecidableEq

def CheckExtendCell (cell : ExtendCell) : Prop :=
  cell.nodeId ≠ zeroBlock 20 ∧
  (TorAddrPortIsValid cell.orportIpv4 ∨
    cell.cellType = relayCommandExtend2 ∧ TorAddrPortIsValid cell.orportIpv6) ∧
  (if cell.createCell.cellType = cellCreate then cell.cellType = relayCommandExtend
    else cell.createCell.cellType = cellCreate2 ∧
      (cell.cellType = relayCommandExtend2 ∨ cell.cellType = relayCommandExtend)) ∧
  cell.createCell.handshakeType ≠ onionHandshakeTypeFast ∧
  CheckCreateCell cell.createCell true

instance (cell : ExtendCell) : Decidable (CheckExtendCell cell) := by
  delta CheckExtendCell
  infer_instance

/-! ### The bodies on the wire -/

structure Extend1CellBody where
  ipv4addr : UInt32
  port : UInt16
  onionskin : Block 186
  identity : Block 20

inductive LinkSpecifier
  | ipv4 (addr : UInt32) (port : UInt16)
  | ipv6 (addr : Block 16) (port : UInt16)
  | legacyId (id : Block 20)
  | ed25519Id (id : Block 32)
  | unrecognized (lsType : UInt8) (data : Bytes)

@[simp] abbrev lsIpv4 : UInt8 := 0
@[simp] abbrev lsIpv6 : UInt8 := 1
@[simp] abbrev lsLegacyId : UInt8 := 2
@[simp] abbrev lsEd25519Id : UInt8 := 3

structure Create2CellBody where
  handshakeType : UInt16
  handshakeLen : UInt16
  handshakeData : Bytes

structure Extend2CellBody where
  ls : List LinkSpecifier
  create2 : Create2CellBody

def extend1CellBodyParse : Parser Extend1CellBody := do
  let ipv4addr ← u32
  let port ← u16
  let onionskin ← block 186
  let identity ← block 20
  return ⟨ipv4addr, port, onionskin, identity⟩

/-- The union of `link_specifier_parse`, on the `ls_len` bytes that hold it.  A
type that is known has to fill them. -/
def linkSpecifierUnion (lsType : UInt8) (un : Bytes) : Parser LinkSpecifier :=
  if lsType = lsIpv4 then
    if un.length = 6 then return .ipv4 (getBe32 un) (getBe16 (un.drop 4)) else fail
  else if lsType = lsIpv6 then
    if un.length = 18 then return .ipv6 (zeroFill 16 (un.take 16)) (getBe16 (un.drop 16))
    else fail
  else if lsType = lsLegacyId then
    if un.length = 20 then return .legacyId (zeroFill 20 un) else fail
  else if lsType = lsEd25519Id then
    if un.length = 32 then return .ed25519Id (zeroFill 32 un) else fail
  else return .unrecognized lsType un

def linkSpecifierParse : Parser LinkSpecifier := do
  let lsType ← u8
  let lsLen ← u8
  let un ← takeN lsLen.toNat
  linkSpecifierUnion lsType un

def create2CellBodyParse : Parser Create2CellBody := do
  let handshakeType ← u16
  let handshakeLen ← u16
  let handshakeData ← takeN handshakeLen.toNat
  return ⟨handshakeType, handshakeLen, handshakeData⟩

def extend2CellBodyParse : Parser Extend2CellBody := do
  let nSpec ← u8
  let ls ← repeatN linkSpecifierParse nSpec.toNat
  let create2 ← create2CellBodyParse
  return ⟨ls, create2⟩

/-! ### From a body to a cell -/

def emptyExtendCell (cellType : UInt8) : ExtendCell where
  cellType := cellType
  orportIpv4 := ⟨.unspec, 0⟩
  orportIpv6 := ⟨.unspec, 0⟩
  nodeId := zeroBlock 20
  edPubkey := zeroBlock 32
  createCell := ⟨0, 0, 0, zeroBlock _⟩

def createCellFromOnionskin (onionskin : Block 186) : CreateCell :=
  if onionskin.toList.take 16 = ntorCreateMagic then
    createCellInit cellCreate2 onionHandshakeTypeNtor ntorOnionskinLen
      (onionskin.toList.drop 16)
  else
    createCellInit cellCreate onionHandshakeTypeTap tapOnionskinChallengeLen onionskin.toList

def extendCellFromExtend1CellBody (cell : Extend1CellBody) : ExtendCell :=
  { emptyExtendCell relayCommandExtend with
    orportIpv4 := ⟨.inet cell.ipv4addr, cell.port⟩
    nodeId := cell.identity
    createCell := createCellFromOnionskin cell.onionskin }

/-- What `extend_cell_from_extend2_cell_body` keeps while it walks through the
link specifiers: the cell and what it has found. -/
structure Extend2Walk where
  cellOut : ExtendCell
  foundIpv4 : Bool
  foundIpv6 : Bool
  foundRsaId : Bool
  foundEdId : Bool

/-- One turn of that loop.  A second address is ignored, a second identity is an
error. -/
def extend2WalkStep (walk : Extend2Walk) : LinkSpecifier → Option Extend2Walk
  | .ipv4 addr port =>
    if walk.foundIpv4 then some walk
    else some { walk with
      cellOut := { walk.cellOut with orportIpv4 := ⟨.inet addr, port⟩ }
      foundIpv4 := true }
  | .ipv6 addr port =>
    if walk.foundIpv6 then some walk
    else some { walk with
      cellOut := { walk.cellOut with orportIpv6 := ⟨.inet6 addr, port⟩ }
      foundIpv6 := true }
  | .legacyId id =>
    if walk.foundRsaId then none
    else some { walk with
      cellOut := { walk.cellOut with nodeId := id }
      foundRsaId := true }
  | .ed25519Id id =>
    if walk.foundEdId then none
    else some { walk with
      cellOut := { walk.cellOut with edPubkey := id }
      foundEdId := true }
  | .unrecognized _ _ => some walk

def createCellFromCreate2CellBody (cell : Create2CellBody) : Option CreateCell :=
  if cell.handshakeLen.toNat > cellPayloadSize - 4 then none
  else some (createCellInit cellCreate2 cell.handshakeType cell.handshakeLen
    cell.handshakeData)

def extendCellFromExtend2CellBody (cell : Extend2CellBody) : Option ExtendCell := do
  let walk ← cell.ls.foldlM extend2WalkStep
    ⟨emptyExtendCell relayCommandExtend2, false, false, false, false⟩
  if walk.foundRsaId && (walk.foundIpv4 || walk.foundIpv6) then
    let createCell ← createCellFromCreate2CellBody cell.create2
    return { walk.cellOut with createCell := createCell }
  else none

/-- The two body parsers, and what is made of their results; the bytes behind
the body are returned as well. -/
def extendCellRead (command : UInt8) (payload : Bytes) : Option (ExtendCell × Bytes) :=
  if command = relayCommandExtend then do
    let (cell, rest) ← extend1CellBodyParse payload
    return (extendCellFromExtend1CellBody cell, rest)
  else if command = relayCommandExtend2 then do
    let (cell, rest) ← extend2CellBodyParse payload
    let cellOut ← extendCellFromExtend2CellBody cell
    return (cellOut, rest)
  else none

def extendCellParse (command : UInt8) (payload : Bytes) : Option ExtendCell :=
  if payload.length > relayPayloadSize then none
  else do
    let (cellOut, _) ← extendCellRead command payload
    if CheckExtendCell cellOut then some cellOut else none

def linkSpecifierEncode : LinkSpecifier → Bytes
  | .ipv4 addr port => lsIpv4 :: 6 :: (be32 addr ++ be16 port)
  | .ipv6 addr port => lsIpv6 :: 18 :: (addr.toList ++ be16 port)
  | .legacyId id => lsLegacyId :: 20 :: id.toList
  | .ed25519Id id => lsEd25519Id :: 32 :: id.toList
  | .unrecognized lsType data => lsType :: UInt8.ofNat data.length :: data

def linkSpecifiers (includeEd25519Id : Bool) (cell : ExtendCell) : List LinkSpecifier :=
  (if TorAddrPortIsValid cell.orportIpv4 then
    [.ipv4 (torAddrToIpv4h cell.orportIpv4.addr) cell.orportIpv4.port] else []) ++
  [.legacyId cell.nodeId] ++
  (if includeEd25519Id ∧ cell.edPubkey ≠ zeroBlock 32 then
    [.ed25519Id cell.edPubkey] else []) ++
  (if TorAddrPortIsValid cell.orportIpv6 then
    [.ipv6 (torAddrCopyIpv6Bytes cell.orportIpv6.addr) cell.orportIpv6.port] else [])

def extend1Onionskin (cell : CreateCell) : Block 186 :=
  if cell.handshakeType = onionHandshakeTypeNtor then
    zeroFill 186 (ntorCreateMagic ++ cell.onionskin.toList.take ntorOnionskinLen.toNat)
  else zeroFill 186 (cell.onionskin.toList.take tapOnionskinChallengeLen.toNat)

/-- The `switch` of `extend_cell_format`: the encoded body.  The encoder of the
EXTEND2 body fails where the payload has no room for it. -/
def extendCellBody (includeEd25519Id : Bool) (cellIn : ExtendCell) : Option Bytes :=
  if cellIn.cellType = relayCommandExtend then
    if cellIn.createCell.handshakeType = onionHandshakeTypeNtorV3 then none
    else some (be32 (torAddrToIpv4h cellIn.orportIpv4.addr) ++ (be16 cellIn.orportIpv4.port ++
      ((extend1Onionskin cellIn.createCell).toList ++ cellIn.nodeId.toList)))
  else if cellIn.cellType = relayCommandExtend2 then
    let ls := linkSpecifiers includeEd25519Id cellIn
    let head := UInt8.ofNat ls.length :: (ls.flatMap linkSpecifierEncode ++
      (be16 cellIn.createCell.handshakeType ++ be16 cellIn.createCell.handshakeLen))
    if head.length + cellIn.createCell.handshakeLen.toNat ≤ relayPayloadSize then
      some (head ++ cellIn.createCell.skin)
    else none
  else none

/-- `extend_cell_format`.  The trailer is a C string, and is refused where it
does not fit behind the body. -/
def extendCellFormat (includeEd25519Id : Bool) (cellIn : ExtendCell)
    (eltorPayhash : Option Bytes) : Option RelayMsg :=
  if ¬ CheckExtendCell cellIn then none
  else do
    let body ← extendCellBody includeEd25519Id cellIn
    match eltorPayhash with
    | none => return ⟨cellIn.cellType, body.length, zeroFill _ body⟩
    | some p =>
      if body.length + (cstr p).length ≤ relayPayloadSize then
        return ⟨cellIn.cellType, body.length + (cstr p).length, zeroFill _ (body ++ cstr p)⟩
      else none

theorem reads_linkSpecifier {lsType lsLen : UInt8} {un : Bytes} {ls : LinkSpecifier}
    (hlen : un.length = lsLen.toNat) (hun : linkSpecifierUnion lsType un = pure ls) :
    linkSpecifierParse.Reads (lsType :: lsLen :: un) ls := by
  have h : linkSpecifierParse.Reads ([lsType] ++ ([lsLen] ++ (un ++ []))) ls := by
    refine (reads_u8 lsType).bind ((reads_u8 lsLen).bind ((reads_takeN hlen).bind ?_))
    rw [hun]
    exact Reads.pure ls
  simpa using h

theorem reads_linkSpecifierEncode {ls : LinkSpecifier}
    (hls : ∀ t d, ls ≠ .unrecognized t d) :
    linkSpecifierParse.Reads (linkSpecifierEncode ls) ls := by
  cases ls with
  | ipv4 addr port =>
    refine reads_linkSpecifier (by simp) ?_
    have hport : (be32 addr ++ be16 port).drop 4 = be16 port := List.drop_left' (length_be32 addr)
    simp [linkSpecifierUnion, hport]
  | ipv6 addr port =>
    refine reads_linkSpecifier (by simp) ?_
    have haddr : (addr.toList ++ be16 port).take 16 = addr.toList :=
      List.take_left' addr.toList_length
    have hport : (addr.toList ++ be16 port).drop 16 = be16 port :=
      List.drop_left' addr.toList_length
    simp only [linkSpecifierUnion, haddr, hport, zeroFill_toList, getBe16_be16_self]
    simp
  | legacyId id =>
    refine reads_linkSpecifier (by simp) ?_
    simp [linkSpecifierUnion]
  | ed25519Id id =>
    refine reads_linkSpecifier (by simp) ?_
    simp [linkSpecifierUnion]
  | unrecognized t d => exact absurd rfl (hls t d)

theorem reads_extend1CellBody (cell : Extend1CellBody) :
    extend1CellBodyParse.Reads
      (be32 cell.ipv4addr ++ (be16 cell.port ++ (cell.onionskin.toList ++ cell.identity.toList)))
      cell := by
  unfold extend1CellBodyParse
  exact (reads_u32 cell.ipv4addr).bind ((reads_u16 cell.port).bind
    ((reads_block cell.onionskin).bind ((reads_block cell.identity).map _)))

theorem extendCellRead_extend1CellBody (cell : Extend1CellBody) (t : Bytes) :
    extendCellRead relayCommandExtend
      (be32 cell.ipv4addr ++ (be16 cell.port ++
        (cell.onionskin.toList ++ cell.identity.toList)) ++ t) =
      some (extendCellFromExtend1CellBody cell, t) := by
  rw [extendCellRead, if_pos rfl, reads_extend1CellBody cell t]
  rfl

theorem reads_create2CellBody {cell : Create2CellBody}
    (hlen : cell.handshakeData.length = cell.handshakeLen.toNat) :
    create2CellBodyParse.Reads
      (be16 cell.handshakeType ++ (be16 cell.handshakeLen ++ cell.handshakeData)) cell := by
  unfold create2CellBodyParse
  exact (reads_u16 cell.handshakeType).bind ((reads_u16 cell.handshakeLen).bind
    ((reads_takeN hlen).map _))

theorem reads_extend2CellBody (cell : Extend2CellBody)
    (hcount : cell.ls.length < 256)
    (hls : ∀ ls ∈ cell.ls, ∀ t d, ls ≠ .unrecognized t d)
    (hlen : cell.create2.handshakeData.length = cell.create2.handshakeLen.toNat) :
    extend2CellBodyParse.Reads
      (UInt8.ofNat cell.ls.length :: (cell.ls.flatMap linkSpecifierEncode ++
        (be16 cell.create2.handshakeType ++
          (be16 cell.create2.handshakeLen ++ cell.create2.handshakeData)))) cell := by
  have hn : (UInt8.ofNat cell.ls.length).toNat = cell.ls.length := by
    simpa using Nat.mod_eq_of_lt hcount
  have hrepeat : (repeatN linkSpecifierParse (UInt8.ofNat cell.ls.length).toNat).Reads
      (cell.ls.flatMap linkSpecifierEncode) cell.ls := by
    rw [hn]
    exact Reads.repeatN fun ls h => reads_linkSpecifierEncode (hls ls h)
  unfold extend2CellBodyParse
  exact (reads_u8 (UInt8.ofNat cell.ls.length)).bind (hrepeat.bind
    ((reads_create2CellBody hlen).map _))

theorem framed_extend1CellBodyParse : extend1CellBodyParse.Framed :=
  framed_u32.bind fun _ => framed_u16.bind fun _ => (framed_block 186).bind fun _ =>
    (framed_block 20).bind fun _ => Framed.pure _

theorem framed_linkSpecifierUnion (lsType : UInt8) (un : Bytes) :
    (linkSpecifierUnion lsType un).Framed := by
  unfold linkSpecifierUnion
  exact .ite (.ite (.pure _) .fail) <| .ite (.ite (.pure _) .fail) <|
    .ite (.ite (.pure _) .fail) <| .ite (.ite (.pure _) .fail) (.pure _)

theorem framed_linkSpecifierParse : linkSpecifierParse.Framed :=
  framed_u8.bind fun lsType => framed_u8.bind fun lsLen => (framed_takeN lsLen.toNat).bind
    fun un => framed_linkSpecifierUnion lsType un

theorem framed_create2CellBodyParse : create2CellBodyParse.Framed :=
  framed_u16.bind fun _ => framed_u16.bind fun handshakeLen =>
    (framed_takeN handshakeLen.toNat).bind fun _ => Framed.pure _

theorem framed_extend2CellBodyParse : extend2CellBodyParse.Framed :=
  framed_u8.bind fun nSpec => (framed_linkSpecifierParse.repeatN nSpec.toNat).bind fun _ =>
    framed_create2CellBodyParse.bind fun _ => Framed.pure _

theorem extendCellRead_isSuffix {command : UInt8} {payload rest : Bytes} {cell : ExtendCell}
    (h : extendCellRead command payload = some (cell, rest)) : rest <:+ payload := by
  unfold extendCellRead at h
  split_ifs at h
  · obtain ⟨⟨body, t⟩, hread, hcell⟩ := Option.bind_eq_some_iff.mp h
    obtain ⟨-, rfl⟩ := Prod.mk.injEq .. ▸ Option.some_inj.mp hcell
    exact framed_extend1CellBodyParse.isSuffix hread
  · obtain ⟨⟨body, t⟩, hread, hcell⟩ := Option.bind_eq_some_iff.mp h
    obtain ⟨cellOut, -, hcell⟩ := Option.bind_eq_some_iff.mp hcell
    obtain ⟨-, rfl⟩ := Prod.mk.injEq .. ▸ Option.some_inj.mp hcell
    exact framed_extend2CellBodyParse.isSuffix hread

/-! ### What an extend cell is read back as -/

namespace ExtendCell

def FamiliesMatch (cell : ExtendCell) : Prop :=
  (∀ addr, cell.orportIpv4.addr ≠ .inet6 addr) ∧ ∀ addr, cell.orportIpv6.addr ≠ .inet addr

/-- The create cell in an EXTEND body, as its reader has it: ntor handshakes
become CREATE2, and so does a TAP onionskin that begins with the ntor magic. -/
def received1 (cell : CreateCell) : CreateCell :=
  if cell.handshakeType = onionHandshakeTypeNtor then
    createCellInit cellCreate2 onionHandshakeTypeNtor ntorOnionskinLen cell.skin
  else if cell.skin.take 16 = ntorCreateMagic then
    createCellInit cellCreate2 onionHandshakeTypeNtor ntorOnionskinLen (cell.skin.drop 16)
  else createCellInit cellCreate onionHandshakeTypeTap tapOnionskinChallengeLen cell.skin

def received2 (ap : TorAddrPort) : TorAddrPort :=
  if TorAddrPortIsValid ap then ap else ⟨.unspec, 0⟩

/-- The cell as its reader has it.  EXTEND has room for an IPv4 address and the
RSA identity only; EXTEND2 carries the Ed25519 identity if it is to be included. -/
def received (includeEd25519Id : Bool) (cell : ExtendCell) : ExtendCell :=
  if cell.cellType = relayCommandExtend then
    { emptyExtendCell relayCommandExtend with
      orportIpv4 := cell.orportIpv4
      nodeId := cell.nodeId
      createCell := received1 cell.createCell }
  else
    { cell with
      orportIpv4 := received2 cell.orportIpv4
      orportIpv6 := received2 cell.orportIpv6
      edPubkey := if includeEd25519Id then cell.edPubkey else zeroBlock 32
      createCell := cell.createCell.clean }

end ExtendCell

theorem eq_inet_of_valid {ap : TorAddrPort} (hf : ∀ addr, ap.addr ≠ .inet6 addr)
    (hv : TorAddrPortIsValid ap) :
    TorAddrPort.mk (.inet (torAddrToIpv4h ap.addr)) ap.port = ap := by
  obtain ⟨addr, port⟩ := ap
  cases addr with
  | unspec => exact absurd trivial hv.1
  | inet addr => rfl
  | inet6 addr => exact absurd rfl (hf addr)

theorem eq_inet6_of_valid {ap : TorAddrPort} (hf : ∀ addr, ap.addr ≠ .inet addr)
    (hv : TorAddrPortIsValid ap) :
    TorAddrPort.mk (.inet6 (torAddrCopyIpv6Bytes ap.addr)) ap.port = ap := by
  obtain ⟨addr, port⟩ := ap
  cases addr with
  | unspec => exact absurd trivial hv.1
  | inet addr => exact absurd rfl (hf addr)
  | inet6 addr => rfl

theorem foldlM_linkSpecifiers {includeEd : Bool} {cell : ExtendCell}
    (hfam : cell.FamiliesMatch) :
    (linkSpecifiers includeEd cell).foldlM extend2WalkStep
      ⟨emptyExtendCell relayCommandExtend2, false, false, false, false⟩ =
    some ⟨⟨relayCommandExtend2, ExtendCell.received2 cell.orportIpv4,
        ExtendCell.received2 cell.orportIpv6, cell.nodeId,
        if includeEd then cell.edPubkey else zeroBlock 32, ⟨0, 0, 0, zeroBlock _⟩⟩,
      TorAddrPortIsValid cell.orportIpv4, TorAddrPortIsValid cell.orportIpv6, true,
      includeEd ∧ cell.edPubkey ≠ zeroBlock 32⟩ := by
  have h4 : TorAddrPortIsValid cell.orportIpv4 → _ := eq_inet_of_valid hfam.1
  have h6 : TorAddrPortIsValid cell.orportIpv6 → _ := eq_inet6_of_valid hfam.2
  have hed : ¬ (includeEd = true ∧ cell.edPubkey ≠ zeroBlock 32) →
      (if includeEd then cell.edPubkey else zeroBlock 32) = zeroBlock 32 := by
    intro h
    cases includeEd <;> simp_all
  unfold linkSpecifiers ExtendCell.received2
  by_cases v4 : TorAddrPortIsValid cell.orportIpv4 <;>
    by_cases v6 : TorAddrPortIsValid cell.orportIpv6 <;>
    by_cases ed : includeEd = true ∧ cell.edPubkey ≠ zeroBlock 32 <;>
    simp [v4, v6, ed, hed, h4, h6, extend2WalkStep, emptyExtendCell]

/-! ### EXTEND -/

def KnownHandshake1 (cell : CreateCell) : Prop :=
  cell.handshakeType = onionHandshakeTypeTap ∨ cell.handshakeType = onionHandshakeTypeNtor

theorem handshakeLen_of_tap {cell : CreateCell} {unknownOk : Bool}
    (hc : CheckCreateCell cell unknownOk) (ht : cell.handshakeType = onionHandshakeTypeTap) :
    cell.handshakeLen = tapOnionskinChallengeLen := by
  have hlen := hc.2
  rwa [if_pos ht] at hlen

theorem handshakeLen_of_ntor {cell : CreateCell} {unknownOk : Bool}
    (hc : CheckCreateCell cell unknownOk) (ht : cell.handshakeType = onionHandshakeTypeNtor) :
    cell.handshakeLen = ntorOnionskinLen := by
  have hlen := hc.2
  rwa [if_neg (by simp [ht]), if_neg (by simp [ht]), if_pos ht] at hlen

theorem createCellFromOnionskin_extend1Onionskin {cell : CreateCell} {unknownOk : Bool}
    (hc : CheckCreateCell cell unknownOk) (hk : KnownHandshake1 cell) :
    createCellFromOnionskin (extend1Onionskin cell) = ExtendCell.received1 cell := by
  have hos : cell.onionskin.toList.length = 2044 := length_toList_block _
  unfold createCellFromOnionskin ExtendCell.received1 extend1Onionskin
  rcases hk with ht | ht
  · have hskin : cell.onionskin.toList.take tapOnionskinChallengeLen.toNat = cell.skin := by
      rw [CreateCell.skin, handshakeLen_of_tap hc ht]
    have hlen : cell.skin.length = 186 := by
      rw [← hskin]
      exact List.length_take_of_le (by rw [hos]; decide)
    have hlist : (zeroFill 186 cell.skin).toList = cell.skin := by
      simp [toList_zeroFill hlen.le, hlen]
    simp only [if_neg (show ¬ cell.handshakeType = onionHandshakeTypeNtor by simp [ht]), hskin,
      hlist]
  · have hskin : cell.onionskin.toList.take ntorOnionskinLen.toNat = cell.skin := by
      rw [CreateCell.skin, handshakeLen_of_ntor hc ht]
    have hlen : cell.skin.length = 84 := by
      rw [← hskin]
      exact List.length_take_of_le (by rw [hos]; decide)
    have hl : (ntorCreateMagic ++ cell.skin).length = 100 := by simp [hlen]
    have htake : ∀ k ≤ 100, (zeroFill 186 (ntorCreateMagic ++ cell.skin)).toList.take k =
        (ntorCreateMagic ++ cell.skin).take k :=
      fun k hk => take_zeroFill (by omega) (by omega)
    have hmagic : (zeroFill 186 (ntorCreateMagic ++ cell.skin)).toList.take 16 = ntorCreateMagic :=
      htake 16 (by omega)
    rw [if_pos ht, if_pos ht, hskin, if_pos hmagic]
    refine createCellInit_congr ?_
    have h100 := congrArg (List.drop 16) (htake 100 le_rfl)
    rw [List.drop_take, List.drop_take] at h100
    exact h100

theorem extendCellRead_extend {includeEd : Bool} {cell : ExtendCell} {body : Bytes}
    (hc : CheckExtendCell cell) (hfam : cell.FamiliesMatch)
    (ht : cell.cellType = relayCommandExtend) (hk : KnownHandshake1 cell.createCell)
    (hb : extendCellBody includeEd cell = some body) (t : Bytes) :
    extendCellRead cell.cellType (body ++ t) = some (cell.received includeEd, t) := by
  obtain ⟨-, hvalid, -, -, hcreate⟩ := hc
  have hv4 : TorAddrPortIsValid cell.orportIpv4 := by
    rcases hvalid with h | ⟨h, -⟩
    · exact h
    · rw [ht] at h
      exact absurd h (by decide)
  have hv3 : ¬ cell.createCell.handshakeType = onionHandshakeTypeNtorV3 := by
    rcases hk with h | h <;> rw [h] <;> decide
  rw [extendCellBody, if_pos ht, if_neg hv3] at hb
  obtain rfl := Option.some_inj.mp hb
  have hread := extendCellRead_extend1CellBody ⟨torAddrToIpv4h cell.orportIpv4.addr,
    cell.orportIpv4.port, extend1Onionskin cell.createCell, cell.nodeId⟩ t
  have hcell : extendCellFromExtend1CellBody ⟨torAddrToIpv4h cell.orportIpv4.addr,
      cell.orportIpv4.port, extend1Onionskin cell.createCell, cell.nodeId⟩ =
      cell.received includeEd := by
    rw [ExtendCell.received, if_pos ht, extendCellFromExtend1CellBody,
      createCellFromOnionskin_extend1Onionskin hcreate hk, eq_inet_of_valid hfam.1 hv4]
  rw [ht, hread, hcell]

theorem linkSpecifiers_known {includeEd : Bool} {cell : ExtendCell} :
    ∀ ls ∈ linkSpecifiers includeEd cell, ∀ t d, ls ≠ .unrecognized t d := by
  intro ls hls t d h
  subst h
  unfold linkSpecifiers at hls
  split_ifs at hls <;> simp at hls

theorem length_linkSpecifiers_le (includeEd : Bool) (cell : ExtendCell) :
    (linkSpecifiers includeEd cell).length ≤ 4 := by
  unfold linkSpecifiers
  split_ifs <;> simp

theorem createCellFromCreate2CellBody_skin {cell : CreateCell}
    (h2 : cell.cellType = cellCreate2) (hlen : cell.handshakeLen.toNat ≤ 2044) :
    createCellFromCreate2CellBody ⟨cell.handshakeType, cell.handshakeLen, cell.skin⟩ =
      some cell.clean := by
  have htake : cell.skin.take cell.handshakeLen.toNat = cell.skin :=
    List.take_of_length_le (CreateCell.length_skin hlen).le
  rw [← createCellInit_eq_clean htake, h2]
  exact if_neg (not_lt.mpr hlen)

theorem extendCellRead_extend2 {includeEd : Bool} {cell : ExtendCell} {body : Bytes}
    (hc : CheckExtendCell cell) (hfam : cell.FamiliesMatch)
    (ht : cell.cellType = relayCommandExtend2)
    (hb : extendCellBody includeEd cell = some body) (t : Bytes) :
    extendCellRead cell.cellType (body ++ t) = some (cell.received includeEd, t) := by
  obtain ⟨-, hvalid, hcreate, -, -⟩ := hc
  have h2 : cell.createCell.cellType = cellCreate2 := by
    split_ifs at hcreate
    · rw [ht] at hcreate
      exact absurd hcreate (by decide)
    · exact hcreate.1
  simp only [extendCellBody] at hb
  rw [if_neg (by simp [ht]), if_pos ht] at hb
  split_ifs at hb with hfits
  obtain rfl := Option.some_inj.mp hb
  have hlen : cell.createCell.handshakeLen.toNat ≤ 2044 := by
    simp only [relayPayloadSize, cellPayloadSize, relayHeaderSize] at hfits
    omega
  have hread := reads_extend2CellBody ⟨linkSpecifiers includeEd cell,
      cell.createCell.handshakeType, cell.createCell.handshakeLen, cell.createCell.skin⟩
    ((length_linkSpecifiers_le includeEd cell).trans_lt (by decide)) linkSpecifiers_known
    (CreateCell.length_skin hlen)
  have hcell : extendCellFromExtend2CellBody ⟨linkSpecifiers includeEd cell,
      cell.createCell.handshakeType, cell.createCell.handshakeLen, cell.createCell.skin⟩ =
      some (cell.received includeEd) := by
    have hfound : (TorAddrPortIsValid cell.orportIpv4 ∨ TorAddrPortIsValid cell.orportIpv6) :=
      hvalid.imp_right And.right
    have hinit := createCellFromCreate2CellBody_skin h2 hlen
    simp [extendCellFromExtend2CellBody, foldlM_linkSpecifiers hfam, hfound, hinit,
      ExtendCell.received, ht]
  have hassoc : UInt8.ofNat (linkSpecifiers includeEd cell).length ::
      ((linkSpecifiers includeEd cell).flatMap linkSpecifierEncode ++
        (be16 cell.createCell.handshakeType ++ be16 cell.createCell.handshakeLen)) ++
      cell.createCell.skin =
      UInt8.ofNat (linkSpecifiers includeEd cell).length ::
        ((linkSpecifiers includeEd cell).flatMap linkSpecifierEncode ++
          (be16 cell.createCell.handshakeType ++
            (be16 cell.createCell.handshakeLen ++ cell.createCell.skin))) := by
    simp [List.append_assoc]
  rw [extendCellRead, if_neg (by simp [ht]), if_pos ht, hassoc, hread]
  show (extendCellFromExtend2CellBody _).bind _ = _
  rw [hcell]
  rfl

/-! ### The round trip -/

def ExtendCell.Encodable (cell : ExtendCell) : Prop :=
  cell.cellType = relayCommandExtend → KnownHandshake1 cell.createCell

theorem cellType_of_check {cell : ExtendCell} (hc : CheckExtendCell cell) :
    cell.cellType = relayCommandExtend ∨ cell.cellType = relayCommandExtend2 := by
  obtain ⟨-, -, hcreate, -⟩ := hc
  split_ifs at hcreate
  · exact Or.inl hcreate
  · exact hcreate.2.symm

theorem extendCellRead_body {includeEd : Bool} {cell : ExtendCell} {body : Bytes}
    (hc : CheckExtendCell cell) (hfam : cell.FamiliesMatch) (hk : cell.Encodable)
    (hb : extendCellBody includeEd cell = some body) (t : Bytes) :
    extendCellRead cell.cellType (body ++ t) = some (cell.received includeEd, t) := by
  rcases cellType_of_check hc with h | h
  · exact extendCellRead_extend hc hfam h (hk h) hb t
  · exact extendCellRead_extend2 hc hfam h hb t

theorem checkCreateCell_received1 (cell : CreateCell) :
    CheckCreateCell (ExtendCell.received1 cell) true := by
  unfold ExtendCell.received1
  split_ifs <;> simp [CheckCreateCell, createCellInit]

theorem torAddrPortIsValid_received2 {ap : TorAddrPort} (h : TorAddrPortIsValid ap) :
    TorAddrPortIsValid (ExtendCell.received2 ap) := by
  rwa [ExtendCell.received2, if_pos h]

theorem checkExtendCell_received {includeEd : Bool} {cell : ExtendCell}
    (hc : CheckExtendCell cell) : CheckExtendCell (cell.received includeEd) := by
  obtain ⟨hid, hvalid, hcreate, hfast, hcheck⟩ := id hc
  rcases cellType_of_check hc with h | h
  · have hv4 : TorAddrPortIsValid cell.orportIpv4 :=
      hvalid.resolve_right fun h2 => absurd (h.symm.trans h2.1) (by decide)
    rw [ExtendCell.received, if_pos h]
    refine ⟨hid, Or.inl hv4, ?_, ?_, checkCreateCell_received1 _⟩
    · simp only [ExtendCell.received1, emptyExtendCell]
      split_ifs <;> simp_all [createCellInit]
    · simp only [ExtendCell.received1]
      split_ifs <;> simp [createCellInit]
  · have hne : ¬ cell.cellType = relayCommandExtend := by simp [h]
    unfold ExtendCell.received
    rw [if_neg hne]
    exact ⟨hid, hvalid.imp torAddrPortIsValid_received2
      (And.imp_right torAddrPortIsValid_received2), hcreate, hfast, checkCreateCell_clean hcheck⟩

def trailer (eltorPayhash : Option Bytes) : Bytes := eltorPayhash.elim [] cstr

theorem length_extendCellBody_le {includeEd : Bool} {cell : ExtendCell} {body : Bytes}
    (hb : extendCellBody includeEd cell = some body) : body.length ≤ 2037 := by
  simp only [extendCellBody] at hb
  split_ifs at hb with h1 h3 h2 hfits
  · obtain rfl := Option.some_inj.mp hb
    simp
  · obtain rfl := Option.some_inj.mp hb
    have hskin : cell.createCell.skin.length ≤ cell.createCell.handshakeLen.toNat := by
      simp [CreateCell.skin]
    rw [List.length_append]
    simp only [relayPayloadSize, cellPayloadSize, relayHeaderSize] at hfits
    omega

theorem extendCellFormat_eq_some {includeEd : Bool} {cell : ExtendCell} {p : Option Bytes}
    {msg : RelayMsg} :
    extendCellFormat includeEd cell p = some msg ↔
      CheckExtendCell cell ∧ ∃ body, extendCellBody includeEd cell = some body ∧
        (body ++ trailer p).length ≤ 2037 ∧
        msg = ⟨cell.cellType, (body ++ trailer p).length, zeroFill _ (body ++ trailer p)⟩ := by
  unfold extendCellFormat
  by_cases hc : CheckExtendCell cell
  swap
  · simp [hc]
  cases hb : extendCellBody includeEd cell with
  | none => simp [hc]
  | some body =>
    have hlen := length_extendCellBody_le hb
    cases p with
    | none => simp [hc, hlen, trailer, eq_comm]
    | some p => simp [hc, trailer, eq_comm]

theorem body_zeroFill {command : UInt8} {w : Bytes} (h : w.length ≤ 2037) :
    (RelayMsg.mk command w.length (zeroFill _ w)).body = w :=
  take_length_zeroFill h

theorem extendCellParse_of_read {command : UInt8} {payload rest : Bytes} {cell : ExtendCell}
    (hlen : payload.length ≤ 2037) (hread : extendCellRead command payload = some (cell, rest))
    (hc : CheckExtendCell cell) : extendCellParse command payload = some cell := by
  rw [extendCellParse, if_neg (show ¬ payload.length > relayPayloadSize from not_lt.mpr hlen),
    hread]
  exact if_pos hc

/-- **Extend cells round trip.**  What `extend_cell_format` wrote is the body of
the cell with the payment behind it; the parser reads the body as the cell and
leaves exactly the payment. -/
theorem extendCell_round_trip {includeEd : Bool} {cell : ExtendCell} {p : Option Bytes}
    {msg : RelayMsg} (hfam : cell.FamiliesMatch) (hk : cell.Encodable)
    (h : extendCellFormat includeEd cell p = some msg) :
    extendCellParse msg.command msg.body = some (cell.received includeEd) ∧
      ∃ plain, extendCellFormat includeEd cell none = some plain ∧
        msg.body = plain.body ++ trailer p ∧
        extendCellRead msg.command msg.body = some (cell.received includeEd, trailer p) := by
  obtain ⟨hc, body, hb, hlen, rfl⟩ := extendCellFormat_eq_some.mp h
  have hread := extendCellRead_body hc hfam hk hb (trailer p)
  have hbody := length_extendCellBody_le hb
  rw [body_zeroFill hlen]
  refine ⟨extendCellParse_of_read hlen hread (checkExtendCell_received hc),
    ⟨cell.cellType, body.length, zeroFill _ body⟩, ?_, ?_, hread⟩
  · exact extendCellFormat_eq_some.mpr ⟨hc, body, hb, by simpa [trailer] using hbody,
      by simp [trailer]⟩
  · rw [body_zeroFill hbody]

def sampleExtendCell : ExtendCell where
  cellType := relayCommandExtend2
  orportIpv4 := ⟨.inet 0x7f000001, 9001⟩
  orportIpv6 := ⟨.unspec, 0⟩
  nodeId := zeroFill 20 [1]
  edPubkey := zeroFill 32 [1]
  createCell := ⟨cellCreate2, onionHandshakeTypeNtor, ntorOnionskinLen, zeroBlock _⟩

def samplePayhash : Option Bytes := some [112, 49]

theorem sampleExtendCell_familiesMatch : sampleExtendCell.FamiliesMatch :=
  ⟨fun _ h => (nomatch h), fun _ h => (nomatch h)⟩

theorem sampleExtendCell_encodable : sampleExtendCell.Encodable :=
  fun h => absurd h (by decide)

theorem checkExtendCell_sample : CheckExtendCell sampleExtendCell := by decide

theorem extendCellBody_sample : ∃ body, extendCellBody false sampleExtendCell = some body ∧
    (body ++ trailer samplePayhash).length ≤ 2037 := by
  refine ⟨_, rfl, ?_⟩
  have hskin : sampleExtendCell.createCell.skin.length = 84 := CreateCell.length_skin (by decide)
  rw [List.length_append, List.length_append, hskin]
  decide

theorem extendCell_round_trip_sample :
    ∃ msg, extendCellFormat false sampleExtendCell samplePayhash = some msg ∧
      extendCellParse msg.command msg.body = some (sampleExtendCell.received false) := by
  obtain ⟨body, hb, hlen⟩ := extendCellBody_sample
  have h := extendCellFormat_eq_some.mpr ⟨checkExtendCell_sample, body, hb, hlen, rfl⟩
  exact ⟨_, h, (extendCell_round_trip sampleExtendCell_familiesMatch
    sampleExtendCell_encodable h).1⟩

/-- The Ed25519 identity of a cell is lost where it is not to be included. -/
theorem extendCell_edPubkey_lost :
    ∃ msg cell', extendCellFormat false sampleExtendCell samplePayhash = some msg ∧
      extendCellParse msg.command msg.body = some cell' ∧
      cell'.edPubkey ≠ sampleExtendCell.edPubkey := by
  obtain ⟨body, hb, hlen⟩ := extendCellBody_sample
  have h := extendCellFormat_eq_some.mpr ⟨checkExtendCell_sample, body, hb, hlen, rfl⟩
  have hread := extendCellRead_body checkExtendCell_sample sampleExtendCell_familiesMatch
    sampleExtendCell_encodable hb (trailer samplePayhash)
  refine ⟨_, sampleExtendCell.received false, h, ?_, by decide⟩
  rw [body_zeroFill hlen]
  exact extendCellParse_of_read hlen hread (checkExtendCell_received checkExtendCell_sample)

end Onion
