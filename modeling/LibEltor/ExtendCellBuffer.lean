/-
Extend cells in their buffer (`core/or/onion.c`, `trunnel/ed25519_cert.c`, `core/or/circuitbuild.c`,
`core/crypto/onion_crypto.c`).

`extend_cell_format` writes into an array of `RELAY_PAYLOAD_SIZE` bytes: fixed offsets for EXTEND, the
generated encoders for EXTEND2, and the payment behind either.  Here the array is a place in memory,
with whatever stands behind it.  The client's side hands over the same payment twice, to the
handshake inside the create cell and to the encoder as a trailer.
-/
import LibEltor.Encoder
import LibEltor.ExtendCell
import LibEltor.NtorV3
import LibEltor.CircuitBuild

open Bytes Memory Encoder

namespace Onion

/-! ### The encoders -/

def linkSpecifierUnionEncode : LinkSpecifier → Encoder
  | .ipv4 addr port => (put (be32 addr)).andThen (put (be16 port))
  | .ipv6 addr port => (put addr.toList).andThen (put (be16 port))
  | .legacyId id => put id.toList
  | .ed25519Id id => put id.toList
  | .unrecognized _ data => put data

def LinkSpecifier.lsType : LinkSpecifier → UInt8
  | .ipv4 .. => lsIpv4
  | .ipv6 .. => lsIpv6
  | .legacyId _ => lsLegacyId
  | .ed25519Id _ => lsEd25519Id
  | .unrecognized lsType _ => lsType

def LinkSpecifier.lsLen : LinkSpecifier → UInt8
  | .ipv4 .. => 6
  | .ipv6 .. => 18
  | .legacyId _ => 20
  | .ed25519Id _ => 32
  | .unrecognized _ data => UInt8.ofNat data.length

/-- `link_specifier_encode`; the length of the union is written back over `ls_len`. -/
def linkSpecifierEncodeInto (obj : LinkSpecifier) : Encoder := fun ptr avail mem =>
  match ((put [obj.lsType]).andThen ((put [obj.lsLen]).andThen (linkSpecifierUnionEncode obj)))
    ptr avail mem with
  | (none, mem) => (none, mem)
  | (some written, mem) =>
    if written - 2 > 255 then (none, mem)
    else (some written, mem.write (ptr + 1) [UInt8.ofNat (written - 2)])

def create2CellBodyEncode (obj : Create2CellBody) : Encoder := fun ptr avail mem =>
  if obj.handshakeData.length ≠ obj.handshakeLen.toNat then (none, mem)
  else (put (be16 obj.handshakeType)).andThen
    ((put (be16 obj.handshakeLen)).andThen (put obj.handshakeData)) ptr avail mem

def extend2CellBodyEncode (nSpec : UInt8) (obj : Extend2CellBody) : Encoder := fun ptr avail mem =>
  if obj.ls.length ≠ nSpec.toNat ∨
    obj.create2.handshakeData.length ≠ obj.create2.handshakeLen.toNat then (none, mem)
  else (put [nSpec]).andThen
    ((Encoder.all (obj.ls.map linkSpecifierEncodeInto)).andThen (create2CellBodyEncode obj.create2))
      ptr avail mem

def nSpecifiers (includeEd25519Id : Bool) (cell : ExtendCell) : UInt8 :=
  1 + (if TorAddrPortIsValid cell.orportIpv4 then 1 else 0) +
    (if includeEd25519Id ∧ cell.edPubkey ≠ zeroBlock 32 then 1 else 0) +
    (if TorAddrPortIsValid cell.orportIpv6 then 1 else 0)

/-- The `handshake_len` bytes copied out of the onionskin.  Behind its array stands whatever
`behind` has there. -/
def handshakeData (behind : Memory) (cell : CreateCell) : Bytes :=
  (List.range cell.handshakeLen.toNat).map fun i => cell.onionskin.toList.getD i (behind i)

/-- The `switch` of `extend_cell_format`: what it sets `*len_out` to. -/
def extendCellBodyInto (includeEd25519Id : Bool) (behind : Memory) (cellIn : ExtendCell)
    (payload : Memory) : Option UInt16 × Memory :=
  if cellIn.cellType = relayCommandExtend then
    if cellIn.createCell.handshakeType = onionHandshakeTypeNtorV3 then (none, payload)
    else
      let payload := payload.write 0 (be32 (torAddrToIpv4h cellIn.orportIpv4.addr))
      let payload := payload.write 4 (be16 cellIn.orportIpv4.port)
      let onionskin := cellIn.createCell.onionskin.toList
      let payload :=
        if cellIn.createCell.handshakeType = onionHandshakeTypeNtor then
          (payload.write 6 ntorCreateMagic).write 22 (onionskin.take ntorOnionskinLen.toNat)
        else payload.write 6 (onionskin.take tapOnionskinChallengeLen.toNat)
      (some (6 + tapOnionskinChallengeLen + 20),
        payload.write (6 + tapOnionskinChallengeLen.toNat) cellIn.nodeId.toList)
  else if cellIn.cellType = relayCommandExtend2 then
    let cell : Extend2CellBody :=
      ⟨linkSpecifiers includeEd25519Id cellIn, cellIn.createCell.handshakeType,
        cellIn.createCell.handshakeLen, handshakeData behind cellIn.createCell⟩
    match extend2CellBodyEncode (nSpecifiers includeEd25519Id cellIn) cell 0 relayPayloadSize payload
      with
    | (none, payload) => (none, payload)
    | (some lenEncoded, payload) =>
      if lenEncoded > 65535 then (none, payload) else (some (UInt16.ofNat lenEncoded), payload)
  else (none, payload)

/-- `extend_cell_format`: the command and the length, and the memory at `payload_out`. -/
def extendCellFormatInto (includeEd25519Id : Bool) (behind : Memory) (cellIn : ExtendCell)
    (eltorPayhash : Option Bytes) (payloadOut : Memory) : Option (UInt8 × UInt16) × Memory :=
  if ¬ CheckExtendCell cellIn then (none, payloadOut)
  else
    let payload := payloadOut.clear 0 relayPayloadSize
    match extendCellBodyInto includeEd25519Id behind cellIn payload with
    | (none, payload) => (none, payload)
    | (some lenOut, payload) =>
      match eltorPayhash with
      | none => (some (cellIn.cellType, lenOut), payload)
      | some payhash =>
        let eltorPayhashLen := (cstr payhash).length
        if lenOut.toNat + eltorPayhashLen ≤ relayPayloadSize then
          (some (cellIn.cellType, lenOut + UInt16.ofNat eltorPayhashLen),
            payload.write lenOut.toNat (cstr payhash))
        else (none, payload)

/-! ### What the encoders write -/

def LinkSpecifier.Short : LinkSpecifier → Prop
  | .unrecognized _ data => data.length ≤ 255
  | _ => True

theorem encodes_linkSpecifierUnion (obj : LinkSpecifier) :
    Encodes (linkSpecifierUnionEncode obj) ((linkSpecifierEncode obj).drop 2) := by
  cases obj with
  | ipv4 addr port => exact (encodes_put _).andThen (encodes_put _)
  | ipv6 addr port => exact (encodes_put _).andThen (encodes_put _)
  | legacyId id => exact encodes_put _
  | ed25519Id id => exact encodes_put _
  | unrecognized lsType data => exact encodes_put _

theorem linkSpecifierEncode_eq (obj : LinkSpecifier) : linkSpecifierEncode obj =
    [obj.lsType] ++ ([obj.lsLen] ++ (linkSpecifierEncode obj).drop 2) := by
  cases obj <;> rfl

theorem lsLen_eq {obj : LinkSpecifier} (h : obj.Short) :
    UInt8.ofNat ((linkSpecifierEncode obj).length - 2) = obj.lsLen ∧
      (linkSpecifierEncode obj).length - 2 ≤ 255 := by
  cases obj with
  | ipv4 addr port => exact ⟨rfl, by simp [linkSpecifierEncode]⟩
  | ipv6 addr port => simp [linkSpecifierEncode, LinkSpecifier.lsLen]
  | legacyId id => simp [linkSpecifierEncode, LinkSpecifier.lsLen]
  | ed25519Id id => simp [linkSpecifierEncode, LinkSpecifier.lsLen]
  | unrecognized lsType data => simpa [linkSpecifierEncode, LinkSpecifier.lsLen, LinkSpecifier.Short] using h

theorem two_le_length_linkSpecifierEncode (obj : LinkSpecifier) :
    2 ≤ (linkSpecifierEncode obj).length := by
  rw [linkSpecifierEncode_eq]
  simp

theorem encodes_linkSpecifier {obj : LinkSpecifier} (h : obj.Short) :
    Encodes (linkSpecifierEncodeInto obj) (linkSpecifierEncode obj) := by
  obtain ⟨hlen, hshort⟩ := lsLen_eq h
  have htwo := two_le_length_linkSpecifierEncode obj
  have hinner : Encodes ((put [obj.lsType]).andThen ((put [obj.lsLen]).andThen
      (linkSpecifierUnionEncode obj))) (linkSpecifierEncode obj) := by
    rw [linkSpecifierEncode_eq obj]
    exact (encodes_put _).andThen ((encodes_put _).andThen (encodes_linkSpecifierUnion obj))
  have hsecond : ∀ ptr (mem : Memory),
      (mem.write ptr (linkSpecifierEncode obj)) (ptr + 1) = obj.lsLen := by
    intro ptr mem
    rw [write, if_pos (by omega), linkSpecifierEncode_eq obj, Nat.add_sub_cancel_left]
    rfl
  constructor
  · intro ptr avail mem hle
    rw [linkSpecifierEncodeInto, hinner.fits _ _ _ hle]
    dsimp only
    rw [if_neg (by omega), hlen, write_eq_self]
    intro i hi
    obtain rfl : i = 0 := by simpa using hi
    exact hsecond ptr mem
  · intro ptr avail mem hlt
    have hnone := hinner.truncated ptr avail mem hlt
    rw [linkSpecifierEncodeInto]
    split
    · rfl
    · rename_i heq
      rw [heq] at hnone
      exact absurd hnone (by simp)
  · intro ptr avail mem
    have hinside := hinner.inside ptr avail mem
    rw [linkSpecifierEncodeInto]
    split
    · rename_i heq
      rw [heq] at hinside
      exact hinside
    · rename_i written mem' heq
      rw [heq] at hinside
      split_ifs
      · exact hinside
      · by_cases hle : (linkSpecifierEncode obj).length ≤ avail
        · refine hinside.trans (changesIn_write (by omega) ?_ mem')
          rw [List.length_singleton]
          omega
        · have hnone := hinner.truncated ptr avail mem (by omega)
          rw [heq] at hnone
          exact absurd hnone (by simp)

def extend2Body (obj : Extend2CellBody) : Bytes :=
  [UInt8.ofNat obj.ls.length] ++ (obj.ls.flatMap linkSpecifierEncode ++
    (be16 obj.create2.handshakeType ++ (be16 obj.create2.handshakeLen ++ obj.create2.handshakeData)))

theorem encodes_extend2CellBody {nSpec : UInt8} (obj : Extend2CellBody)
    (hspec : obj.ls.length = nSpec.toNat) (hshort : ∀ ls ∈ obj.ls, ls.Short)
    (hdata : obj.create2.handshakeData.length = obj.create2.handshakeLen.toNat) :
    Encodes (extend2CellBodyEncode nSpec obj) (extend2Body obj) := by
  have hcreate2 : create2CellBodyEncode obj.create2 = (put (be16 obj.create2.handshakeType)).andThen
      ((put (be16 obj.create2.handshakeLen)).andThen (put obj.create2.handshakeData)) := by
    funext ptr avail mem
    rw [create2CellBodyEncode, if_neg (not_not.mpr hdata)]
  have heq : extend2CellBodyEncode nSpec obj = (put [nSpec]).andThen
      ((Encoder.all (obj.ls.map linkSpecifierEncodeInto)).andThen
        (create2CellBodyEncode obj.create2)) := by
    funext ptr avail mem
    rw [extend2CellBodyEncode, if_neg]
    rintro (hne | hne)
    · exact hne hspec
    · exact hne hdata
  have hcount : UInt8.ofNat obj.ls.length = nSpec := by rw [hspec, UInt8.ofNat_toNat]
  rw [heq, hcreate2, extend2Body, hcount]
  exact (encodes_put _).andThen ((Encodes.all fun ls hls => encodes_linkSpecifier (hshort ls hls)).andThen
    ((encodes_put _).andThen ((encodes_put _).andThen (encodes_put _))))

/-! ### What the function writes -/

def encodedBody (includeEd25519Id : Bool) (behind : Memory) (cell : ExtendCell) : Option Bytes :=
  if cell.cellType = relayCommandExtend then
    if cell.createCell.handshakeType = onionHandshakeTypeNtorV3 then none
    else some (be32 (torAddrToIpv4h cell.orportIpv4.addr) ++ (be16 cell.orportIpv4.port ++
      ((extend1Onionskin cell.createCell).toList ++ cell.nodeId.toList)))
  else if cell.cellType = relayCommandExtend2 then
    some (extend2Body ⟨linkSpecifiers includeEd25519Id cell, cell.createCell.handshakeType,
      cell.createCell.handshakeLen, handshakeData behind cell.createCell⟩)
  else none

theorem length_handshakeData (behind : Memory) (cell : CreateCell) :
    (handshakeData behind cell).length = cell.handshakeLen.toNat := by
  simp [handshakeData]

theorem nSpecifiers_eq (includeEd : Bool) (cell : ExtendCell) :
    (linkSpecifiers includeEd cell).length = (nSpecifiers includeEd cell).toNat := by
  rw [linkSpecifiers, nSpecifiers]
  split_ifs <;> rfl

theorem short_linkSpecifiers {includeEd : Bool} {cell : ExtendCell} :
    ∀ ls ∈ linkSpecifiers includeEd cell, ls.Short := by
  intro ls hls
  cases ls with
  | unrecognized lsType data => exact absurd rfl (linkSpecifiers_known _ hls lsType data)
  | _ => trivial

theorem write_zeroFill {mem : Memory} {off n : ℕ} {l : Bytes} (hle : l.length ≤ n)
    (hzero : ∀ i, off ≤ i → i < off + n → mem i = 0) :
    mem.write off l = mem.write off (zeroFill n l).toList := by
  have hkept : (mem.write off l).write (off + l.length) (List.replicate (n - l.length) 0) =
      mem.write off l := by
    refine write_eq_self fun i hi => ?_
    rw [List.length_replicate] at hi
    rw [write, if_neg (by omega), hzero _ (by omega) (by omega), List.getElem_replicate]
  rw [toList_zeroFill hle, ← write_append, hkept]

theorem extend1Onionskin_writes (payload : Memory)
    (hzero : ∀ i, 6 ≤ i → i < 6 + 186 → payload i = 0) (cell : CreateCell) :
    (if cell.handshakeType = onionHandshakeTypeNtor then
        (payload.write 6 ntorCreateMagic).write 22
          (cell.onionskin.toList.take ntorOnionskinLen.toNat)
      else payload.write 6 (cell.onionskin.toList.take tapOnionskinChallengeLen.toNat)) =
      payload.write 6 (extend1Onionskin cell).toList := by
  have hos : cell.onionskin.toList.length = 2044 := length_toList_block _
  rw [extend1Onionskin]
  split_ifs
  · have happ := write_append payload 6 ntorCreateMagic
      (cell.onionskin.toList.take ntorOnionskinLen.toNat)
    rw [← write_zeroFill _ hzero, ← happ]
    · rfl
    · rw [List.length_append, List.length_take, length_ntorCreateMagic]
      exact Nat.le_trans (Nat.add_le_add_left (Nat.min_le_left ..) 16) (Nat.le_of_ble_eq_true rfl)
  · rw [← write_zeroFill _ hzero]
    rw [List.length_take]
    exact Nat.min_le_left ..

theorem extendCellBodyInto_extend {includeEd : Bool} {behind payload : Memory} {cell : ExtendCell}
    {body : Bytes} (hcell : cell.cellType = relayCommandExtend)
    (hzero : ∀ i < relayPayloadSize, payload i = 0)
    (hb : encodedBody includeEd behind cell = some body) :
    extendCellBodyInto includeEd behind cell payload =
      (some (UInt16.ofNat body.length), payload.write 0 body) := by
  rw [encodedBody, if_pos hcell] at hb
  split_ifs at hb with hv3
  obtain rfl := Option.some_inj.mp hb
  have hskin := extend1Onionskin_writes ((payload.write 0
    (be32 (torAddrToIpv4h cell.orportIpv4.addr))).write 4 (be16 cell.orportIpv4.port))
    (fun i hlow hhigh => ?_) cell.createCell
  · rw [extendCellBodyInto, if_pos hcell, if_neg hv3]
    dsimp only
    rw [hskin, ← write_append, ← write_append, ← write_append]
    simp only [List.length_append, length_be32, length_be16, length_toList_block]
    rfl
  · rw [write, if_neg (by rw [length_be16]; omega), write, if_neg (by rw [length_be32]; omega)]
    exact hzero i (Nat.lt_trans hhigh (Nat.lt_of_sub_pos (Nat.zero_lt_succ _)))

theorem extendCellBodyInto_extend2 {includeEd : Bool} {behind payload : Memory} {cell : ExtendCell}
    {body : Bytes} (hcell : cell.cellType = relayCommandExtend2)
    (hb : encodedBody includeEd behind cell = some body) :
    (body.length ≤ 2037 → extendCellBodyInto includeEd behind cell payload =
      (some (UInt16.ofNat body.length), payload.write 0 body)) ∧
    (2037 < body.length → (extendCellBodyInto includeEd behind cell payload).1 = none ∧
      ChangesIn 0 2037 payload (extendCellBodyInto includeEd behind cell payload).2) := by
  have hne : cell.cellType ≠ relayCommandExtend := by
    rw [hcell]
    exact of_decide_eq_true rfl
  rw [encodedBody, if_neg hne, if_pos hcell] at hb
  have henc := encodes_extend2CellBody ⟨linkSpecifiers includeEd cell, cell.createCell.handshakeType,
      cell.createCell.handshakeLen, handshakeData behind cell.createCell⟩
    (nSpecifiers_eq includeEd cell) short_linkSpecifiers (length_handshakeData behind cell.createCell)
  rw [Option.some_inj.mp hb] at henc
  rw [extendCellBodyInto, if_neg hne, if_pos hcell]
  dsimp only
  constructor
  · intro hle
    rw [henc.fits 0 relayPayloadSize payload hle]
    dsimp only
    rw [if_neg (by omega)]
  · intro hlt
    have hnone := henc.truncated 0 relayPayloadSize payload hlt
    have hinside := henc.inside 0 relayPayloadSize payload
    split
    · rename_i heq
      rw [heq] at hinside
      exact ⟨rfl, hinside⟩
    · rename_i heq
      rw [heq] at hnone
      exact absurd hnone (by simp)

theorem length_encodedBody_extend {includeEd : Bool} {behind : Memory} {cell : ExtendCell}
    {body : Bytes} (hcell : cell.cellType = relayCommandExtend)
    (hb : encodedBody includeEd behind cell = some body) : body.length = 212 := by
  rw [encodedBody, if_pos hcell] at hb
  split_ifs at hb with hv3
  obtain rfl := Option.some_inj.mp hb
  simp

theorem extendCellBodyInto_eq {includeEd : Bool} {behind payload : Memory} {cell : ExtendCell}
    {body : Bytes} (hzero : ∀ i < relayPayloadSize, payload i = 0)
    (hb : encodedBody includeEd behind cell = some body) :
    (body.length ≤ 2037 → extendCellBodyInto includeEd behind cell payload =
      (some (UInt16.ofNat body.length), payload.write 0 body)) ∧
    (2037 < body.length → (extendCellBodyInto includeEd behind cell payload).1 = none ∧
      ChangesIn 0 2037 payload (extendCellBodyInto includeEd behind cell payload).2) := by
  by_cases hcell : cell.cellType = relayCommandExtend
  · have hlen := length_encodedBody_extend hcell hb
    exact ⟨fun _ => extendCellBodyInto_extend hcell hzero hb, fun hlt => absurd hlt (by omega)⟩
  · by_cases hcell2 : cell.cellType = relayCommandExtend2
    · exact extendCellBodyInto_extend2 hcell2 hb
    · rw [encodedBody, if_neg hcell, if_neg hcell2] at hb
      exact absurd hb (by simp)

theorem extendCellBodyInto_none {includeEd : Bool} {behind payload : Memory} {cell : ExtendCell}
    (hb : encodedBody includeEd behind cell = none) :
    extendCellBodyInto includeEd behind cell payload = (none, payload) := by
  rw [encodedBody] at hb
  rw [extendCellBodyInto]
  split_ifs at hb ⊢
  all_goals rfl

theorem zero_of_cleared (payload : Memory) :
    ∀ i < relayPayloadSize, (payload.clear 0 relayPayloadSize) i = 0 :=
  fun i hi => clear_apply i.zero_le (Nat.lt_of_lt_of_eq hi (Nat.zero_add _).symm) payload

/-- What has to hold for a cell to be written: it passes the check, it has a body, and there is room
for the body with the payment behind it. -/
def FitsPayload (includeEd25519Id : Bool) (behind : Memory) (cell : ExtendCell)
    (eltorPayhash : Option Bytes) (written : Bytes) : Prop :=
  CheckExtendCell cell ∧ ∃ body, encodedBody includeEd25519Id behind cell = some body ∧
    written = body ++ trailer eltorPayhash ∧ written.length ≤ relayPayloadSize

section
variable {includeEd : Bool} {behind : Memory} {cell : ExtendCell} {payhash : Option Bytes}

theorem extendCellFormatInto_of_fits {written : Bytes}
    (h : FitsPayload includeEd behind cell payhash written) (payload : Memory) :
    extendCellFormatInto includeEd behind cell payhash payload =
      (some (cell.cellType, UInt16.ofNat written.length),
        (payload.clear 0 relayPayloadSize).write 0 written) := by
  obtain ⟨hc, body, hb, rfl, hle⟩ := h
  have hlen := hle
  rw [List.length_append] at hlen
  have hbody := (extendCellBodyInto_eq (zero_of_cleared payload) hb).1
    (Nat.le_trans (Nat.le_add_right ..) hlen)
  rw [extendCellFormatInto, if_neg (not_not.mpr hc)]
  dsimp only
  rw [hbody]
  cases payhash with
  | none => rw [trailer, Option.elim_none, List.append_nil]
  | some p =>
    rw [trailer, Option.elim_some] at hlen ⊢
    have hsmall : (UInt16.ofNat body.length).toNat = body.length :=
      UInt16.toNat_ofNat_of_lt' (Nat.lt_of_le_of_lt (Nat.le_trans (Nat.le_add_right ..) hlen)
        (Nat.lt_of_sub_pos (Nat.zero_lt_succ _)))
    have happ := write_append (payload.clear 0 relayPayloadSize) 0 body (cstr p)
    rw [Nat.zero_add] at happ
    dsimp only
    rw [hsmall, if_pos hlen, happ, ← UInt16.ofNat_add, ← List.length_append]

theorem extendCellFormatInto_of_not_fits
    (h : ∀ written, ¬FitsPayload includeEd behind cell payhash written) (payload : Memory) :
    (extendCellFormatInto includeEd behind cell payhash payload).1 = none ∧
      ChangesIn 0 relayPayloadSize payload
        (extendCellFormatInto includeEd behind cell payhash payload).2 := by
  have hclear : ChangesIn 0 relayPayloadSize payload
      (payload.clear 0 relayPayloadSize) :=
    changesIn_clear 0 relayPayloadSize payload
  rw [extendCellFormatInto]
  split_ifs with hc
  swap
  · exact ⟨rfl, .refl 0 relayPayloadSize payload⟩
  dsimp only
  cases hb : encodedBody includeEd behind cell with
  | none =>
    rw [extendCellBodyInto_none hb]
    exact ⟨rfl, hclear⟩
  | some body =>
    obtain ⟨hfits, hlong⟩ := extendCellBodyInto_eq (zero_of_cleared payload) hb
    by_cases hle : body.length ≤ 2037
    · -- then it is the payment that has no room
      have hwrite : ChangesIn 0 relayPayloadSize payload
          ((payload.clear 0 relayPayloadSize).write 0 body) :=
        hclear.trans (changesIn_write le_rfl (by rw [Nat.zero_add, Nat.zero_add]; exact hle) _)
      have hsmall : (UInt16.ofNat body.length).toNat = body.length :=
        UInt16.toNat_ofNat_of_lt' (Nat.lt_of_le_of_lt hle (Nat.lt_of_sub_pos (Nat.zero_lt_succ _)))
      have hbig : relayPayloadSize < (body ++ trailer payhash).length := by
        by_contra hnot
        exact h _ ⟨hc, body, hb, rfl, not_lt.mp hnot⟩
      rw [hfits hle]
      cases payhash with
      | none =>
        rw [trailer, Option.elim_none, List.append_nil] at hbig
        exact absurd hle (Nat.not_le.mpr hbig)
      | some p =>
        rw [trailer, Option.elim_some, List.length_append] at hbig
        dsimp only
        rw [hsmall, if_neg (Nat.not_le.mpr hbig)]
        exact ⟨rfl, hwrite⟩
    · obtain ⟨hnone, hinside⟩ := hlong (by omega)
      split
      · rename_i heq
        rw [heq] at hinside
        exact ⟨rfl, hclear.trans hinside⟩
      · rename_i heq
        rw [heq] at hnone
        exact absurd hnone (by simp)

end

/-- An extend cell stays in its payload: nothing changes behind the `RELAY_PAYLOAD_SIZE` bytes; the
function succeeds exactly where the cell has a body and the body and the payment fit together, with
their length; and then they are what stands in the payload, with zeros behind them. -/
structure StaysInPayload (includeEd25519Id : Bool) (behind : Memory) (cell : ExtendCell)
    (eltorPayhash : Option Bytes) (payload : Memory) (out : Option (UInt8 × UInt16) × Memory) :
    Prop where
  outside : ∀ i, relayPayloadSize ≤ i → out.2 i = payload i
  result : ∀ command len, out.1 = some (command, len) ↔ command = cell.cellType ∧
    ∃ written, FitsPayload includeEd25519Id behind cell eltorPayhash written ∧
      len.toNat = written.length
  contents : ∀ written, FitsPayload includeEd25519Id behind cell eltorPayhash written →
    out.2.read 0 relayPayloadSize = (zeroFill relayPayloadSize written).toList

theorem extendCellFormatInto_spec (includeEd : Bool) (behind : Memory) (cell : ExtendCell)
    (payhash : Option Bytes) (payload : Memory) :
    StaysInPayload includeEd behind cell payhash payload
      (extendCellFormatInto includeEd behind cell payhash payload) := by
  generalize hout : extendCellFormatInto includeEd behind cell payhash payload = out
  by_cases hfits : ∃ written, FitsPayload includeEd behind cell payhash written
  · obtain ⟨written, hfits⟩ := hfits
    have hle := hfits.2.choose_spec.2.2
    have hunique : ∀ w, FitsPayload includeEd behind cell payhash w → w = written := by
      rintro w ⟨-, body, hb, rfl, -⟩
      obtain ⟨-, body', hb', rfl, -⟩ := hfits
      rw [Option.some_inj.mp (hb.symm.trans hb')]
    rw [extendCellFormatInto_of_fits hfits payload] at hout
    have hsmall : (UInt16.ofNat written.length).toNat = written.length :=
      UInt16.toNat_ofNat_of_lt' (Nat.lt_of_le_of_lt hle (Nat.lt_of_sub_pos (Nat.zero_lt_succ _)))
    subst hout
    refine ⟨fun i hi => ?_, fun command len => ?_, fun w hw => ?_⟩
    · have hwrite : ChangesIn 0 relayPayloadSize (payload.clear 0 relayPayloadSize)
          ((payload.clear 0 relayPayloadSize).write 0 written) :=
        changesIn_write le_rfl (by omega) _
      have hinside := (changesIn_clear 0 relayPayloadSize payload).trans hwrite
      exact hinside i (.inr (by omega))
    · constructor
      · intro h
        obtain ⟨rfl, rfl⟩ := Prod.mk.inj (Option.some_inj.mp h)
        exact ⟨rfl, written, hfits, hsmall⟩
      · rintro ⟨rfl, w, hw, hlen⟩
        rw [hunique w hw] at hlen
        rw [← UInt16.toNat_inj.mp (hsmall.trans hlen.symm)]
    · rw [hunique w hw, write_zeroFill (n := relayPayloadSize) hle]
      · have hread := read_write (payload.clear 0 relayPayloadSize) 0
          (zeroFill relayPayloadSize written).toList
        rwa [length_toList_block] at hread
      · exact fun i _ hi => zero_of_cleared payload i (by omega)
  · have hfits' := not_exists.mp hfits
    obtain ⟨hnone, hinside⟩ := extendCellFormatInto_of_not_fits hfits' payload
    rw [hout] at hnone hinside
    refine ⟨fun i hi => hinside i (.inr (by omega)), fun command len => ?_,
      fun w hw => absurd hw (hfits' w)⟩
    constructor
    · intro h
      rw [hnone] at h
      exact absurd h (by simp)
    · rintro ⟨-, w, hw, -⟩
      exact absurd hw (hfits' w)

/-! ### The client -/

structure ExtendInfo where
  orports : List TorAddrPort
  identityDigest : Block 20
  edIdentity : Block 32
  curve25519OnionKey : Block 32
  hasOnionKey : Bool
  exitSupportsCongestionControl : Bool

def TorAddr.isInet : TorAddr → Bool
  | .inet _ => true
  | _ => false

def TorAddr.isInet6 : TorAddr → Bool
  | .inet6 _ => true
  | _ => false

/-- `extend_info_get_orport`; `family` says whether an address is of the family. -/
def extendInfoGetOrport (ei : ExtendInfo) (family : TorAddr → Bool) : Option TorAddrPort :=
  ei.orports.find? fun ap => family ap.addr

def extendInfoSupportsNtor (ei : ExtendInfo) : Bool := ei.curve25519OnionKey ≠ zeroBlock 32

def extendInfoSupportsNtorV3 (ei : ExtendInfo) : Bool :=
  extendInfoSupportsNtor ei && ei.exitSupportsCongestionControl

/-- `circuit_pick_create_handshake`: the type of the cell and of the handshake. -/
def circuitPickCreateHandshake (congestionControlEnabled : Bool) (ei : ExtendInfo) :
    UInt8 × UInt16 :=
  if extendInfoSupportsNtor ei then
    (cellCreate2, if ei.exitSupportsCongestionControl && congestionControlEnabled then
      onionHandshakeTypeNtorV3 else onionHandshakeTypeNtor)
  else (cellCreate, onionHandshakeTypeTap)

/-- `circuit_pick_extend_handshake`: the type of the extend cell, of the create cell in it and of the
handshake. -/
def circuitPickExtendHandshake (congestionControlEnabled : Bool) (ei : ExtendInfo) :
    UInt8 × UInt8 × UInt16 :=
  let handshakeType := (circuitPickCreateHandshake congestionControlEnabled ei).2
  if handshakeType ≠ onionHandshakeTypeTap then (relayCommandExtend2, cellCreate2, handshakeType)
  else (relayCommandExtend, cellCreate, handshakeType)

/-- What the handshakes draw and compute for one skin: `onion_skin_TAP_create` (whether it succeeds,
and what stands in the skin after it), `fast_onionskin_create`, `onion_skin_ntor_create`, and what
`onion_skin_ntor3_create` works with. -/
structure SkinSource (crypto : NtorV3.Crypto) where
  tap : Bool × Block 186
  fast : Block 20
  ntor : Option (Block 84)
  clientKeypair : NtorV3.Curve25519Keypair crypto
  verification : Bytes
  negotiationMessage : Option Bytes

variable {crypto : NtorV3.Crypto}

/-- `onion_skin_create`: the length, and the memory at `onion_skin_out`. -/
def onionSkinCreate (type : UInt16) (node : ExtendInfo) (src : SkinSource crypto)
    (onionSkinOutMaxlen : ℕ) (eltorPayhash : Option Bytes) (onionSkinOut : Memory) :
    Option ℕ × Memory :=
  if type = onionHandshakeTypeTap then
    if onionSkinOutMaxlen < tapOnionskinChallengeLen.toNat then (none, onionSkinOut)
    else if !node.hasOnionKey then (none, onionSkinOut)
    else (if src.tap.1 then some tapOnionskinChallengeLen.toNat else none,
      onionSkinOut.write 0 src.tap.2.toList)
  else if type = onionHandshakeTypeFast then
    (some createFastLen.toNat, onionSkinOut.write 0 src.fast.toList)
  else if type = onionHandshakeTypeNtor then
    if onionSkinOutMaxlen < ntorOnionskinLen.toNat then (none, onionSkinOut)
    else if !extendInfoSupportsNtor node then (none, onionSkinOut)
    else
      match src.ntor with
      | none => (none, onionSkinOut)
      | some skin => (some ntorOnionskinLen.toNat, onionSkinOut.write 0 skin.toList)
  else if type = onionHandshakeTypeNtorV3 then
    if !extendInfoSupportsNtorV3 node then (none, onionSkinOut)
    else if node.edIdentity = zeroBlock 32 then (none, onionSkinOut)
    else
      match src.negotiationMessage with
      | none => (none, onionSkinOut)
      | some msg =>
        match NtorV3.onionSkinCreate crypto src.clientKeypair node.edIdentity
          node.curve25519OnionKey src.verification msg eltorPayhash onionSkinOutMaxlen with
        | none => (none, onionSkinOut)
        | some onionSkin => (some onionSkin.length, onionSkinOut.write 0 onionSkin)
  else (none, onionSkinOut)

theorem length_readBlock (mem : Memory) (n : ℕ) : (mem.read 0 n).length = n := length_read mem 0 n

/-- The array of `n` bytes at the front of `mem`. -/
def readBlock (mem : Memory) (n : ℕ) : Block n := ⟨mem.read 0 n, length_readBlock mem n⟩

/-- The extend cell of `circuit_send_intermediate_onion_skin`, but for its handshake; none where no
address is set. -/
def intermediateCell (includeIpv6 congestionControlEnabled : Bool) (info : ExtendInfo) :
    Option ExtendCell :=
  let orport4 := extendInfoGetOrport info TorAddr.isInet
  let orport6 := if includeIpv6 then extendInfoGetOrport info TorAddr.isInet6 else none
  let picked := circuitPickExtendHandshake congestionControlEnabled info
  if orport4.isNone && orport6.isNone then none
  else some
    { cellType := picked.1
      orportIpv4 := orport4.getD ⟨.unspec, 0⟩
      orportIpv6 := orport6.getD ⟨.unspec, 0⟩
      nodeId := info.identityDigest
      edPubkey := info.edIdentity
      createCell := ⟨picked.2.1, picked.2.2, 0, zeroBlock _⟩ }

/-- What `circuit_send_intermediate_onion_skin` has when it is done: the cell with its handshake, the
message it sends, and the memory at the onionskin and at the payload. -/
structure IntermediateSkin where
  cell : Option ExtendCell
  sent : Option (UInt8 × UInt16)
  onionskin : Memory
  payload : Memory

def circuitSendIntermediateOnionSkin (includeIpv6 congestionControlEnabled includeEd25519Id : Bool)
    (src : SkinSource crypto) (circ : CircuitBuild.OriginCircuit ExtendInfo) (i : ℕ)
    (info : ExtendInfo) (onionskin payload : Memory) : IntermediateSkin :=
  let onionskin := onionskin.clear 0 (cellPayloadSize - 4)
  match intermediateCell includeIpv6 congestionControlEnabled info with
  | none => ⟨none, none, onionskin, payload⟩
  | some ec =>
    let hopPayhash := CircuitBuild.laterHopPayment circ i
    match onionSkinCreate ec.createCell.handshakeType info src (cellPayloadSize - 4) hopPayhash
      onionskin with
    | (none, onionskin) => ⟨none, none, onionskin, payload⟩
    | (some len, onionskin) =>
      let ec := { ec with createCell := { ec.createCell with
        handshakeLen := UInt16.ofNat len
        onionskin := readBlock onionskin _ } }
      let out := extendCellFormatInto includeEd25519Id onionskin ec hopPayhash payload
      ⟨some ec, out.1, onionskin, out.2⟩

theorem length_ntorV3Skin {clientKeypair : NtorV3.Curve25519Keypair crypto}
    {edIdentity onionKey : Block 32} {verification msg skin : Bytes} {payhash : Option Bytes}
    {maxlen : ℕ} (h : NtorV3.onionSkinCreate crypto clientKeypair edIdentity onionKey verification msg
      payhash maxlen = some skin) :
    skin.length = 128 + msg.length + (trailer payhash).length ∧ skin.length ≤ maxlen := by
  rw [NtorV3.onionSkinCreate] at h
  obtain ⟨onionSkin, hcreate, hfits⟩ := Option.bind_eq_some_iff.mp h
  split_ifs at hfits with hlong
  obtain rfl := Option.some_inj.mp hfits
  refine ⟨?_, not_lt.mp hlong⟩
  have hmsg : (NtorV3.extendedMsg msg payhash).length = msg.length + (trailer payhash).length := by
    cases payhash with
    | none => rfl
    | some p =>
      rw [NtorV3.extendedMsg, trailer, Option.elim_some]
      split_ifs with hpos
      · exact List.length_append
      · omega
  rw [NtorV3.onionSkinNtor3CreateNokeygen] at hcreate
  dsimp only at hcreate
  split_ifs at hcreate
  obtain rfl := Option.some_inj.mp hcreate
  simp only [List.length_append, length_toList_block, crypto.length_crypt, hmsg]
  omega

theorem onionSkinCreate_spec (type : UInt16) (node : ExtendInfo) (src : SkinSource crypto)
    {maxlen : ℕ} (hmax : 186 ≤ maxlen) (payhash : Option Bytes) (mem : Memory) :
    ChangesIn 0 maxlen mem (onionSkinCreate type node src maxlen payhash mem).2 ∧
    ∀ len, (onionSkinCreate type node src maxlen payhash mem).1 = some len → len ≤ maxlen ∧
      (type = onionHandshakeTypeNtorV3 → ∃ msg, src.negotiationMessage = some msg ∧
        len = 128 + msg.length + (trailer payhash).length) := by
  have hwrite {n : ℕ} (skin : Block n) (hn : n ≤ 186) :
      ChangesIn 0 maxlen mem (mem.write 0 skin.toList) :=
    changesIn_write le_rfl (by rw [length_toList_block]; omega) mem
  have hrefl : ChangesIn 0 maxlen mem mem := .refl 0 maxlen mem
  rw [onionSkinCreate]
  split_ifs with htap hlen hkey hok hfast hntor hlen' hsupports hv3 hsupports' hed
  · exact ⟨hrefl, fun len h => absurd h (by simp)⟩
  · exact ⟨hrefl, fun len h => absurd h (by simp)⟩
  · refine ⟨hwrite _ le_rfl, fun len h => ⟨?_, fun hv3 => absurd (htap.symm.trans hv3) (by simp)⟩⟩
    obtain rfl := Option.some_inj.mp h
    exact hmax
  · exact ⟨hwrite _ le_rfl, fun len h => absurd h (by simp)⟩
  · refine ⟨hwrite _ (by omega), fun len h =>
      ⟨?_, fun hv3 => absurd (hfast.symm.trans hv3) (by simp)⟩⟩
    obtain rfl := Option.some_inj.mp h
    exact Nat.le_trans (Nat.le_of_ble_eq_true rfl) hmax
  · exact ⟨hrefl, fun len h => absurd h (by simp)⟩
  · exact ⟨hrefl, fun len h => absurd h (by simp)⟩
  · cases hskin : src.ntor with
    | none => exact ⟨hrefl, fun len h => absurd h (by simp)⟩
    | some skin =>
      refine ⟨hwrite _ (by omega), fun len h =>
        ⟨?_, fun hv3 => absurd (hntor.symm.trans hv3) (by simp)⟩⟩
      obtain rfl := Option.some_inj.mp h
      exact Nat.le_trans (Nat.le_of_ble_eq_true rfl) hmax
  · exact ⟨hrefl, fun len h => absurd h (by simp)⟩
  · exact ⟨hrefl, fun len h => absurd h (by simp)⟩
  · cases hmsg : src.negotiationMessage with
    | none => exact ⟨hrefl, fun len h => absurd h (by simp)⟩
    | some msg =>
      dsimp only
      cases hskin : NtorV3.onionSkinCreate crypto src.clientKeypair node.edIdentity
          node.curve25519OnionKey src.verification msg payhash maxlen with
      | none => exact ⟨hrefl, fun len h => absurd h (by simp)⟩
      | some skin =>
        obtain ⟨hlength, hfits⟩ := length_ntorV3Skin hskin
        refine ⟨changesIn_write le_rfl (by omega) mem, fun len h => ?_⟩
        obtain rfl := Option.some_inj.mp h
        exact ⟨hfits, fun _ => ⟨msg, rfl, hlength⟩⟩
  · exact ⟨hrefl, fun len h => absurd h (by simp)⟩

/-- **Extend cells stay within their capacities.**  For every extend cell and payment, what
`extend_cell_format` writes stays in the payload, and it succeeds exactly where body and payment fit.
For every payment of a circuit, `circuit_send_intermediate_onion_skin` makes a skin that stays in the
array of the create cell, the payment included, and sends exactly what fits the payload with the
payment as its trailer. -/
theorem extendCell_within_capacities :
    (∀ includeEd behind cell payhash payload, StaysInPayload includeEd behind cell payhash payload
      (extendCellFormatInto includeEd behind cell payhash payload)) ∧
    ∀ (crypto : NtorV3.Crypto) (includeIpv6 cc includeEd : Bool) (src : SkinSource crypto)
      (circ : CircuitBuild.OriginCircuit ExtendInfo) (i : ℕ) (info : ExtendInfo)
      (onionskin payload : Memory),
      let payhash := CircuitBuild.laterHopPayment circ i
      let out := circuitSendIntermediateOnionSkin includeIpv6 cc includeEd src circ i info onionskin
        payload
      (∀ j, cellPayloadSize - 4 ≤ j → out.onionskin j = onionskin j) ∧
      (∀ j, relayPayloadSize ≤ j → out.payload j = payload j) ∧
      (∀ ec, out.cell = some ec → ec.createCell.handshakeLen.toNat ≤ cellPayloadSize - 4 ∧
        (ec.createCell.handshakeType = onionHandshakeTypeNtorV3 → ∃ msg,
          src.negotiationMessage = some msg ∧
          ec.createCell.handshakeLen.toNat = 128 + msg.length + (trailer payhash).length)) ∧
      ∀ command len, out.sent = some (command, len) ↔ ∃ ec written, out.cell = some ec ∧
        command = ec.cellType ∧ FitsPayload includeEd out.onionskin ec payhash written ∧
        len.toNat = written.length := by
  refine ⟨extendCellFormatInto_spec, ?_⟩
  intro crypto includeIpv6 cc includeEd src circ i info onionskin payload payhash out
  have hclear := changesIn_clear 0 (cellPayloadSize - 4) onionskin
  cases hec : intermediateCell includeIpv6 cc info with
  | none =>
    have hout : out = ⟨none, none, onionskin.clear 0 (cellPayloadSize - 4), payload⟩ := by
      show circuitSendIntermediateOnionSkin .. = _
      rw [circuitSendIntermediateOnionSkin, hec]
    rw [hout]
    exact ⟨fun j hj => hclear j (.inr (by omega)), fun _ _ => rfl, fun ec h => absurd h (by simp),
      fun command len => by simp⟩
  | some ec =>
    obtain ⟨hskin, hlen⟩ := onionSkinCreate_spec ec.createCell.handshakeType info src
      (Nat.le_of_ble_eq_true rfl : 186 ≤ cellPayloadSize - 4) payhash
      (onionskin.clear 0 (cellPayloadSize - 4))
    rcases hcreate : onionSkinCreate ec.createCell.handshakeType info src (cellPayloadSize - 4) payhash
      (onionskin.clear 0 (cellPayloadSize - 4)) with ⟨_ | len, skin⟩
    · have hout : out = ⟨none, none, skin, payload⟩ := by
        show circuitSendIntermediateOnionSkin .. = _
        rw [circuitSendIntermediateOnionSkin, hec]
        dsimp only
        rw [hcreate]
      rw [hcreate] at hskin
      rw [hout]
      exact ⟨fun j hj => (hclear.trans hskin) j (.inr (by omega)), fun _ _ => rfl,
        fun ec h => absurd h (by simp), fun command len => by simp⟩
    · rw [hcreate] at hskin hlen
      obtain ⟨hle, hv3⟩ := hlen len rfl
      have hsmall : (UInt16.ofNat len).toNat = len := UInt16.toNat_ofNat_of_lt'
        (Nat.lt_of_le_of_lt hle (Nat.lt_of_sub_pos (Nat.zero_lt_succ _)))
      generalize hfull : ({ ec with createCell := { ec.createCell with
        handshakeLen := UInt16.ofNat len, onionskin := readBlock skin _ } } : ExtendCell) = full
      have hspec := extendCellFormatInto_spec includeEd skin full payhash payload
      have hout : out = ⟨some full, (extendCellFormatInto includeEd skin full payhash payload).1, skin,
          (extendCellFormatInto includeEd skin full payhash payload).2⟩ := by
        show circuitSendIntermediateOnionSkin .. = _
        rw [circuitSendIntermediateOnionSkin, hec, ← hfull]
        dsimp only
        rw [hcreate]
      rw [hout]
      refine ⟨fun j hj => (hclear.trans hskin) j (.inr (by omega)), hspec.outside, ?_, ?_⟩
      · intro ec' h
        obtain rfl := Option.some_inj.mp h
        subst hfull
        dsimp only
        rw [hsmall]
        exact ⟨hle, hv3⟩
      · intro command len
        rw [hspec.result]
        constructor
        · rintro ⟨hcommand, written, hfits, hlen⟩
          exact ⟨full, written, rfl, hcommand, hfits, hlen⟩
        · rintro ⟨ec', written, h, hcommand, hfits, hlen⟩
          obtain rfl := Option.some_inj.mp h
          exact ⟨hcommand, written, hfits, hlen⟩

end Onion
