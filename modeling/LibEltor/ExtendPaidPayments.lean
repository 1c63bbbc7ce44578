/-
The payments EXTENDPAIDCIRCUIT hands to the hops.

A command promises that each hop is handed the payment of its own line.  The first
hop reads the joined payloads, the later ones the list of items by their place in
the path, and the two agree with the lines only sometimes.
-/
import LibEltor.ExtendPaidCircuit

open Bytes PaymentUtil Smartlist CircuitBuild Transition

namespace ExtendPaidCircuit

variable {Node Info : Type*}

theorem startBuilding_new {env : Env Node Info} {c c' : OriginCircuit Info} {reply : Reply} {n : ℕ}
    (hstate : c.state = .chanWait) (hpath : c.pathState ≠ .useAttempted) (hn : 0 < n)
    (hhops : c.hopStates = List.replicate n .closed) (hwait : c.nHop = false)
    (h : startBuilding env true c = some (c', reply)) (hcode : reply.code = 250) :
    Building c.skins (paymentAt c) 0 n c' := by
  have hnext : cpathGetNextNonOpenHop c.cpath ≠ none := by
    obtain ⟨b, rfl⟩ : ∃ b, n = b + 1 := ⟨n - 1, by omega⟩
    rw [nextNonOpenHop_pathStates (a := 0) (s := .closed) hhops CpathState.noConfusion]
    exact Option.some_ne_none 0
  rw [startBuilding, if_pos rfl] at h
  split at h
  · exact absurd h (by simp)
  rename_i c1 errReason hfirst
  split_ifs at h with herr
  · obtain ⟨-, rfl⟩ := Prod.mk.injEq .. ▸ Option.some_inj.mp h
    exact absurd hcode (by decide)
  obtain ⟨rfl, -⟩ := Prod.mk.injEq .. ▸ Option.some_inj.mp h
  rw [circuitHandleFirstHop.eq_def, if_neg hnext] at hfirst
  cases hout : env.firstHop with
  | privateAddress =>
    rw [hout] at hfirst
    obtain ⟨-, rfl⟩ := Prod.mk.injEq .. ▸ Option.some_inj.mp hfirst
    exact absurd (show (-1 : ℤ) < 0 by decide) herr
  | connectFailed =>
    rw [hout] at hfirst
    obtain ⟨-, rfl⟩ := Prod.mk.injEq .. ▸ Option.some_inj.mp hfirst
    exact absurd (show (-6 : ℤ) < 0 by decide) herr
  | connecting =>
    rw [hout] at hfirst
    obtain ⟨rfl, -⟩ := Prod.mk.injEq .. ▸ Option.some_inj.mp hfirst
    exact .waiting hstate hpath rfl hn hhops rfl rfl
  | channelOpen skin =>
    rw [hout] at hfirst
    simp only [hwait, Bool.false_eq_true, if_false] at hfirst
    exact circuitSendNextOnionSkin_waiting rfl hn hhops rfl hwait rfl hfirst

theorem startBuilding_open {env : Env Node Info} {c c' : OriginCircuit Info} {reply : Reply}
    {a b : ℕ} (hhops : c.hopStates = pathStates a .opened b) (hstate : c.state = .opened)
    (h : startBuilding env false c = some (c', reply)) (hcode : reply.code = 250) :
    Building c.skins (laterHopPayment c) (a + 1) (a + 1 + b) c' := by
  rw [startBuilding, if_neg Bool.false_ne_true, if_pos (.inl hstate)] at h
  split at h
  · exact absurd h (by simp)
  rename_i c1 errReason hnext
  split_ifs at h with herr
  · obtain ⟨-, rfl⟩ := Prod.mk.injEq .. ▸ Option.some_inj.mp h
    exact absurd hcode (by decide)
  obtain ⟨rfl, -⟩ := Prod.mk.injEq .. ▸ Option.some_inj.mp h
  refine circuitSendNextOnionSkin_building (c := { c with state := .building }) rfl le_rfl rfl
    hhops ?_ (fun _ _ => rfl) hnext
  rw [handedSkins_self, List.append_nil]

/-! ### Payments of the lines -/

/-- The payload of the first hop line is just what the stride cuts: the second
word of its line, of 768 bytes, with no more white space before it. -/
def FirstPayloadFits (lines : List Bytes) : Prop :=
  ∀ hop ∈ (hopLines lines).head?,
    hop.payhash.length = payhashStride ∧ hop.item.payload = hop.payhash

/-- The payloads of all hop lines but the last leave room in the buffer. -/
def PayloadsFit (lines : List Bytes) : Prop :=
  roomOf (hopLines lines).dropLast < bufferSize lines

/-- The payments that the lines ask for, hop by hop, from place `k` on. -/
def expectedSkins (k : ℕ) (lines : List Bytes) : List (ℕ × Option Bytes) :=
  (hopLines lines).mapIdx fun i hop => (k + i, some hop.item.wireFormat)

theorem foldl_joinPayhash (joined : Bytes) (hj : joined ≠ []) (hops : List HopLine) :
    hops.foldl joinPayhash joined = joined ∨
      ∃ t, hops.foldl joinPayhash joined = joined ++ 10 :: t := by
  induction hops generalizing joined with
  | nil => exact .inl rfl
  | cons hop hops ih =>
    have hstep : joinPayhash joined hop = joined ++ 10 :: hop.payhash := by
      rw [joinPayhash, if_neg hj]
    rw [List.foldl_cons, hstep]
    rcases ih (joined ++ 10 :: hop.payhash) (by simp) with heq | ⟨t, heq⟩
    · exact .inr ⟨hop.payhash, heq⟩
    · exact .inr ⟨hop.payhash ++ 10 :: t, by rw [heq, List.append_assoc, List.cons_append]⟩

theorem take_payhashString_iff {lines : List Bytes} {hop : HopLine} {hops : List HopLine}
    (hcons : hopLines lines = hop :: hops) (hlines : lines ≠ [])
    (hne : hop.payhash ≠ []) (hle : hop.payhash.length ≤ hop.item.payload.length)
    (hnewline : 10 ∉ hop.item.payload) :
    (payhashStride ≤ (payhashString lines).length ∧
      (payhashString lines).take payhashStride = hop.item.payload) ↔ FirstPayloadFits lines := by
  have hsize : 1024 ≤ bufferSize lines := by
    have hpos := List.length_pos_iff.mpr hlines
    rw [bufferSize]
    omega
  have hcut : payhashStride ≤ bufferSize lines - 1 := by
    rw [payhashStride]
    omega
  set joined := (hopLines lines).foldl joinPayhash [] with hjoined
  have hfirst : joined = hop.payhash ∨ ∃ t, joined = hop.payhash ++ 10 :: t := by
    rw [hjoined, hcons, List.foldl_cons]
    exact foldl_joinPayhash hop.payhash hne hops
  have htake : (payhashString lines).take payhashStride = joined.take payhashStride := by
    rw [payhashString, List.take_take, min_eq_left hcut]
  have hlen : payhashStride ≤ (payhashString lines).length ↔ payhashStride ≤ joined.length := by
    rw [payhashString, List.length_take, ← hjoined]
    omega
  have hfits : FirstPayloadFits lines ↔
      hop.payhash.length = payhashStride ∧ hop.item.payload = hop.payhash := by
    rw [FirstPayloadFits, hcons]
    simp
  rw [hlen, htake, hfits]
  constructor
  · rintro ⟨hlong, hcut⟩
    have hstride : hop.item.payload.length = payhashStride := by
      rw [← hcut, List.length_take, min_eq_left hlong]
    by_cases hshort : hop.payhash.length < payhashStride
    · -- The cut runs over the newline behind the first payload.
      exfalso
      rcases hfirst with heq | ⟨t, heq⟩
      · rw [heq] at hlong
        omega
      · apply hnewline
        rw [← hcut, heq, List.take_append, show payhashStride - hop.payhash.length =
          payhashStride - hop.payhash.length - 1 + 1 by omega]
        exact List.mem_append_right _ List.mem_cons_self
    · have heq : hop.payhash.length = payhashStride := by omega
      refine ⟨heq, ?_⟩
      rw [← hcut, ← heq]
      rcases hfirst with hj | ⟨t, hj⟩
      · rw [hj, List.take_length]
      · rw [hj, List.take_left]
  · rintro ⟨hlen, heq⟩
    rw [heq, ← hlen]
    rcases hfirst with hj | ⟨t, hj⟩
    · rw [hj, List.take_length]
      exact ⟨le_rfl, rfl⟩
    · rw [hj, List.take_left, List.length_append]
      exact ⟨Nat.le_add_right _ _, rfl⟩

theorem handedSkins_eq_expectedSkins_iff {pay : ℕ → Option Bytes} {k n : ℕ} {lines : List Bytes} :
    handedSkins pay k (k + n) = expectedSkins k lines ↔
      n = (hopLines lines).length ∧
        ∀ i hop, (hopLines lines)[i]? = some hop → pay (k + i) = some hop.item.wireFormat := by
  rw [handedSkins, Nat.add_sub_cancel_left, expectedSkins]
  constructor
  · intro h
    have hlen := congrArg List.length h
    rw [List.length_map, List.length_range', List.length_mapIdx] at hlen
    refine ⟨hlen, fun i hop hi => ?_⟩
    have hlt : i < n := hlen ▸ (List.getElem?_eq_some_iff.mp hi).1
    have hget := congrArg (·[i]?) h
    simp only [List.getElem?_map, List.getElem?_range' hlt, List.getElem?_mapIdx, hi,
      Option.map_some, Option.some_inj, Nat.one_mul, Prod.mk.injEq] at hget
    exact hget.2
  · rintro ⟨rfl, hpay⟩
    apply List.ext_getElem?
    intro i
    rw [List.getElem?_map, List.getElem?_mapIdx]
    cases hi : (hopLines lines)[i]? with
    | none =>
      have hle := List.getElem?_eq_none_iff.mp hi
      rw [List.getElem?_eq_none_iff.mpr (by rw [List.length_range']; exact hle)]
      rfl
    | some hop =>
      have hlt := (List.getElem?_eq_some_iff.mp hi).1
      rw [List.getElem?_range' hlt, Option.map_some, Option.map_some, Nat.one_mul,
        hpay i hop hi]

theorem findByHopNum_succ (items : List RelayPaymentItem) (i : ℕ) :
    findByHopNum (some items) (i + 1) = items[i]? := by
  simp only [findByHopNum, Nat.add_sub_cancel]
  split_ifs with h
  · rw [List.getElem?_eq_none_iff.mpr (by omega)]
  · rfl

theorem laterHopPayment_prepared (c : OriginCircuit Info) (lines : List Bytes)
    (infos : List Info) (i : ℕ) :
    laterHopPayment (prepared c lines infos) i =
      (hopLines lines)[i]?.map (·.item.wireFormat) := by
  show (findByHopNum (some (paidItems lines)) (i + 1)).map _ = _
  rw [findByHopNum_succ, paidItems, List.getElem?_map, Option.map_map]
  rfl

theorem firstHopPayment_prepared {c : OriginCircuit Info} (lines : List Bytes)
    (infos : List Info) (hp : circuitPurposeIsHiddenService c.purpose = false) :
    firstHopPayment (prepared c lines infos) =
      some (getPayhashFromCirc (payhashString lines) 1) := by
  have hne : getPayhashFromCirc (payhashString lines) 1 ≠ [] := by
    intro hnil
    have hlen := congrArg List.length hnil
    simp only [getPayhashFromCirc] at hlen
    split_ifs at hlen <;> rw [length_wireFormat] at hlen <;> exact absurd hlen (by simp)
  have hle := length_getPayhashFromCirc_one_le (payhashString lines)
  have hbuf : (getPayhashFromCirc (payhashString lines) 1).take (768 + 13) =
      getPayhashFromCirc (payhashString lines) 1 := List.take_of_length_le (by omega)
  have hget : getFirstHopPayhash (prepared c lines infos).purpose
      (prepared c lines infos).payhashes = some (getPayhashFromCirc (payhashString lines) 1) :=
    getFirstHopPayhash_some _ hp
  rw [firstHopPayment, hget]
  simp only [hbuf]
  rw [if_neg hne]

theorem handedSkins_prepared_iff {c : OriginCircuit Info} {cmddata : Bytes} {lines : List Bytes}
    {infos : List Info} (hbody : lines = bodyLines cmddata) (hlines : lines ≠ [])
    (hp : circuitPurposeIsHiddenService c.purpose = false) (hne : infos ≠ [])
    (hlen : infos.length = (keptLines lines).length) :
    handedSkins (paymentAt (prepared c lines infos)) 0 infos.length = expectedSkins 0 lines ↔
      FirstPayloadFits lines ∧ PayloadsFit lines := by
  -- A router that was appended comes from a line.
  obtain ⟨hop, hops, hcons⟩ : ∃ hop hops, hopLines lines = hop :: hops := by
    cases hh : hopLines lines with
    | nil =>
      rw [keptLines, hh, keptHops] at hlen
      exact absurd (List.length_eq_zero_iff.mp hlen) hne
    | cons hop hops => exact ⟨hop, hops, rfl⟩
  have hhop : hop ∈ hopLines (bodyLines cmddata) := by
    rw [← hbody, hcons]
    exact List.mem_cons_self
  obtain ⟨line, hbegins, hnewline, hline⟩ := exists_line_of_mem_hopLines hhop
  obtain ⟨-, -, hmin, hwire⟩ := parsePaymentLine_eq_some (parseHopLine_eq_some hline).2
  have hpayload : hop.item.payload ≠ [] := by
    intro hnil
    rw [hnil] at hmin
    exact absurd hmin (by decide)
  have hfirst : paymentAt (prepared c lines infos) 0 = some hop.item.wireFormat ↔
      FirstPayloadFits lines := by
    rw [paymentAt, if_pos rfl, firstHopPayment_prepared lines infos hp, Option.some_inj, hwire,
      getPayhashFromCirc_one_eq hpayload,
      take_payhashString_iff hcons hlines (payhash_ne_nil hline)
        (length_payhash_le hbegins hline) (newline_notMem_payload hnewline hline)]
  have hkept : infos.length = (hopLines lines).length ↔ PayloadsFit lines := by
    rw [hlen, keptLines, length_keptHops_eq_iff 0 (by rw [hcons]; exact List.cons_ne_nil _ _),
      Nat.zero_add]
    rfl
  rw [show infos.length = 0 + infos.length by omega, handedSkins_eq_expectedSkins_iff, hkept,
    ← hfirst]
  constructor
  · rintro ⟨hfit, hpay⟩
    exact ⟨hpay 0 hop (by rw [hcons]; rfl), hfit⟩
  · rintro ⟨hzero, hfit⟩
    refine ⟨hfit, fun i hop' hi => ?_⟩
    rw [Nat.zero_add]
    rcases i with _ | i
    · rw [hcons] at hi
      obtain rfl : hop = hop' := by simpa using hi
      exact hzero
    · rw [paymentAt, if_neg (Nat.succ_ne_zero i), laterHopPayment_prepared, hi]
      rfl

/-! ### A body of one line -/

def workingSkin : SkinOutcome where
  addrSet := true
  skinCreated := true
  formatted := true
  delivered := true
  guardUsable := .now
  probeSent := false

/-- A directory that knows every router, with a channel to the first hop at hand. -/
def workingEnv : Env Unit Unit where
  nodeGetByNickname := fun _ => some ()
  nodeHasPreferredDescriptor := fun _ _ => true
  extendInfoFromNode := fun _ _ => some ()
  firstHop := .channelOpen workingSkin
  skin := workingSkin

/-- The router `"A"` and a payload of `n` letters. -/
def oneLine (n : ℕ) : Bytes := 65 :: 32 :: List.replicate n 97

def oneHop (n : ℕ) : HopLine where
  fingerprint := [65]
  payhash := List.replicate n 97
  item :=
    { fingerprint := [65]
      handshakePaymentHash := (List.replicate n 97).take 64
      handshakePreimage := ((List.replicate n 97).drop 64).take 64
      payhashes := (List.replicate n 97).drop 128
      wireFormat := wireFormat (List.replicate n 97) }

theorem trimmed_oneLine {n : ℕ} (hn : 0 < n) : Trimmed (oneLine n) where
  ne_nil := List.cons_ne_nil _ _
  begins := by
    intro b hb
    obtain rfl : 65 = b := by simpa [oneLine] using hb
    decide
  ends := by
    rw [List.rdropWhile_eq_self_iff]
    intro hl
    have hlast : (oneLine n).getLast hl = 97 := by
      have hrep : List.replicate n (97 : UInt8) ≠ [] := by
        rw [Ne, List.replicate_eq_nil_iff]
        omega
      show (65 :: 32 :: List.replicate n 97 : Bytes).getLast _ = 97
      rw [List.getLast_cons (List.cons_ne_nil _ _), List.getLast_cons hrep, List.getLast_replicate]
    rw [hlast]
    decide

theorem bodyLines_oneLine {n : ℕ} (hn : 0 < n) : bodyLines (oneLine n) = [oneLine n] := by
  apply splitString_self (trimmed_oneLine hn)
  intro hmem
  rcases List.mem_cons.mp hmem with h | hmem
  · exact absurd h (by decide)
  rcases List.mem_cons.mp hmem with h | hmem
  · exact absurd h (by decide)
  exact absurd (List.eq_of_mem_replicate hmem) (by decide)

theorem hopLines_oneLine {n : ℕ} (hn : minPayload ≤ n) : hopLines [oneLine n] = [oneHop n] := by
  have hne : List.replicate n (97 : UInt8) ≠ [] := by
    rw [Ne, List.replicate_eq_nil_iff]
    rintro rfl
    exact absurd hn (by decide)
  have hletters : ∀ b ∈ List.replicate n (97 : UInt8), torIsspace b = false := by
    intro b hb
    rw [List.eq_of_mem_replicate hb]
    decide
  have hspace : (32 : UInt8) ∉ List.replicate n (97 : UInt8) := by
    intro hmem
    exact absurd (List.eq_of_mem_replicate hmem) (by decide)
  have hletter : ∀ b ∈ ([65] : Bytes), torIsspace b = false := by
    intro b hb
    rw [List.mem_singleton.mp hb]
    decide
  have hword : Trimmed [65] := trimmed_of_forall (List.cons_ne_nil _ _) hletter
  have hsep : (32 : UInt8) ∉ ([65] : Bytes) := by
    rw [List.mem_singleton]
    decide
  have hlen : minPayload ≤ (List.replicate n (97 : UInt8)).length := by
    rw [List.length_replicate]
    exact hn
  have hparse : parseHopLine ([65] ++ 32 :: List.replicate n 97) = some (oneHop n) :=
    parseHopLine_words hword (trimmed_of_forall hne hletters) hsep hspace hlen
  exact List.filterMap_cons_some hparse

theorem keptLines_oneLine {n : ℕ} (hn : minPayload ≤ n) : keptLines [oneLine n] = [oneHop n] := by
  rw [keptLines, hopLines_oneLine hn]
  rfl

theorem extendPaid_oneLine {n : ℕ} (zeroCirc : Bool) (c : OriginCircuit Unit)
    (hn : minPayload ≤ n) :
    extendPaid workingEnv zeroCirc [oneLine n] c =
      startBuilding workingEnv zeroCirc (prepared c [oneLine n] [()]) := by
  have hlook : lookupAll workingEnv zeroCirc [oneHop n] = .ok [()] := rfl
  have hshort : ¬ TooLong [oneLine n] := by
    have hle : (payhashString [oneLine n]).length ≤ bufferSize [oneLine n] - 1 :=
      List.length_take_le _ _
    have hsize : bufferSize [oneLine n] = 1024 := by simp [bufferSize]
    rw [TooLong, maxPayhashSize]
    omega
  rw [extendPaid_eq workingEnv zeroCirc c (List.cons_ne_nil _ _), keptLines_oneLine hn, hlook]
  simp only
  rw [if_neg (by simp), if_neg hshort]
  rfl

/-- The circuit after EXTENDPAIDCIRCUIT 0 with one line, and when it is built. -/
def oneHopCircuit (n : ℕ) (state : CircuitState) (hop : CpathState) : OriginCircuit Unit :=
  let c := prepared (newCircuit ⟨[], 1⟩) [oneLine n] [()]
  { c with
    state := state
    cpath := [⟨(), hop⟩]
    skins := [(0, firstHopPayment c)] }

def oneLineArgs (n : ℕ) : ControlCmdArgs where
  circId := ascii "0"
  cmddata := oneLine n

theorem handle_oneLine {n : ℕ} (hn : minPayload ≤ n) :
    handleControlExtendpaidcircuit workingEnv (oneLineArgs n) ⟨[], 1⟩ =
      some (⟨[oneHopCircuit n .building .awaitingKeys], 2⟩,
        extendedReply (oneHopCircuit n .building .awaitingKeys)) := by
  have hbody : bodyLines (oneLineArgs n).cmddata = [oneLine n] :=
    bodyLines_oneLine (lt_of_lt_of_le (by decide) hn)
  rw [handle_zero (by rw [hbody]; exact List.cons_ne_nil _ _) rfl, hbody,
    extendPaid_oneLine true _ hn]
  rfl

theorem built_oneLine (n : ℕ) :
    BuiltFrom (oneHopCircuit n .building .awaitingKeys) (oneHopCircuit n .opened .opened) := by
  have hstep : buildStep (.created ⟨0, true⟩ workingSkin)
      (oneHopCircuit n .building .awaitingKeys) = some (oneHopCircuit n .opened .opened) := rfl
  exact .step (.init rfl) trivial hstep

theorem complete_oneLine (n : ℕ) : (oneHopCircuit n .opened .opened).Complete := by
  intro hop hhop
  rw [List.mem_singleton.mp hhop]

/-- In every run that builds the circuit of an accepted EXTENDPAIDCIRCUIT 0, every
hop is handed the payment of its line iff the first payload has exactly the length
of the stride and the payloads before the last leave room in the buffer. -/
theorem newCircuit_payments_iff {env : Env Node Info} (args : ControlCmdArgs)
    {s s' : ControlState Info} {reply : Reply} {c c' : OriginCircuit Info}
    (hzero : args.circId = ascii "0")
    (hrun : handleControlExtendpaidcircuit env args s = some (s', reply))
    (haccepted : reply.code = 250) (hnew : s'.circuits = s.circuits ++ [c])
    (hbuilt : BuiltFrom c c') (hcomplete : c'.Complete) :
    c'.skins = expectedSkins 0 (bodyLines args.cmddata) ↔
      FirstPayloadFits (bodyLines args.cmddata) ∧ PayloadsFit (bodyLines args.cmddata) := by
  have hlines : bodyLines args.cmddata ≠ [] := by
    intro hnil
    rw [handleControlExtendpaidcircuit] at hrun
    simp only [hnil, List.length_nil, if_true] at hrun
    obtain ⟨-, rfl⟩ := Prod.mk.injEq .. ▸ Option.some_inj.mp hrun
    exact absurd haccepted (by decide)
  rw [handle_zero hlines hzero] at hrun
  obtain ⟨⟨c1, r⟩, hextend, heq⟩ := Option.map_eq_some_iff.mp hrun
  obtain ⟨rfl, rfl⟩ := Prod.mk.injEq .. ▸ heq
  obtain rfl : c1 = c := by simpa using hnew
  obtain ⟨infos, hne, hlen, hstart⟩ := extendPaid_accepted hlines hextend haccepted
  have hbuilding := startBuilding_new (n := infos.length) rfl PathState.noConfusion
    (List.length_pos_iff.mpr hne) (by rw [hopStates_prepared]; rfl) rfl hstart haccepted
  rw [built_skins hbuilding hbuilt hcomplete]
  exact handedSkins_prepared_iff rfl hlines
    (show circuitPurposeIsHiddenService circuitPurposeCGeneral = false by decide) hne hlen

/-- A payload of the length of the stride. -/
theorem newCircuit_payments_iff_oneLine :
    (oneHopCircuit 768 .opened .opened).skins = expectedSkins 0 (bodyLines (oneLine 768)) ↔
      FirstPayloadFits (bodyLines (oneLine 768)) ∧ PayloadsFit (bodyLines (oneLine 768)) :=
  newCircuit_payments_iff (oneLineArgs 768) rfl (handle_oneLine (by decide)) rfl rfl
    (built_oneLine 768) (complete_oneLine 768)

theorem expectedSkins_oneLine {n : ℕ} (k : ℕ) (hn : minPayload ≤ n) :
    expectedSkins k (bodyLines (oneLine n)) =
      [(k, some (payhashMagic ++ List.replicate n 97))] := by
  rw [bodyLines_oneLine (lt_of_lt_of_le (by decide) hn), expectedSkins, hopLines_oneLine hn]
  rfl

theorem skins_oneLine_short :
    (oneHopCircuit 128 .opened .opened).skins = [(0, some payhashMagic)] := by
  have hshort : (payhashString [oneLine 128]).length = 128 := by
    rw [payhashString, hopLines_oneLine (by decide), List.length_take]
    show min (1 * 1024 - 1) (List.replicate 128 (97 : UInt8)).length = 128
    rw [List.length_replicate]
    rfl
  show [(0, firstHopPayment (prepared (newCircuit ⟨[], 1⟩) [oneLine 128] [()]))] = _
  rw [firstHopPayment_prepared _ _ (by decide)]
  simp only [getPayhashFromCirc, hshort]
  rfl

/-- The shortest payload the parser accepts: the first hop is sent the bare prefix. -/
theorem oneLine_payment_lost :
    handleControlExtendpaidcircuit workingEnv (oneLineArgs 128) ⟨[], 1⟩ =
        some (⟨[oneHopCircuit 128 .building .awaitingKeys], 2⟩,
          extendedReply (oneHopCircuit 128 .building .awaitingKeys)) ∧
      BuiltFrom (oneHopCircuit 128 .building .awaitingKeys) (oneHopCircuit 128 .opened .opened) ∧
      (oneHopCircuit 128 .opened .opened).Complete ∧
      (oneHopCircuit 128 .opened .opened).skins = [(0, some payhashMagic)] ∧
      (oneHopCircuit 128 .opened .opened).skins ≠ expectedSkins 0 (bodyLines (oneLine 128)) := by
  refine ⟨handle_oneLine (by decide), built_oneLine 128, complete_oneLine 128,
    skins_oneLine_short, ?_⟩
  rw [skins_oneLine_short, expectedSkins_oneLine 0 (by decide)]
  simp

/-! ### Circuits that are extended -/

def openCircuit : OriginCircuit Unit :=
  { (originCircuitInit circuitPurposeCGeneral 1 : OriginCircuit Unit) with
    state := .opened
    cpath := [⟨(), .opened⟩] }

def secondHopArgs (n : ℕ) : ControlCmdArgs where
  circId := ascii "1"
  cmddata := oneLine n

/-- The open circuit after it was extended with one line, and when it is built. -/
def twoHopCircuit (n : ℕ) (state : CircuitState) (hop : CpathState) : OriginCircuit Unit :=
  let c := prepared openCircuit [oneLine n] [()]
  { c with
    state := state
    cpath := [⟨(), .opened⟩, ⟨(), hop⟩]
    skins := [(1, laterHopPayment c 1)] }

theorem found_openCircuit (n : ℕ) :
    circuitGetByGlobalId [openCircuit] (torParseUlong (secondHopArgs n).circId) =
      some (0, openCircuit) := by
  have hid : torParseUlong (secondHopArgs n).circId = 1 := by
    show torParseUlong (ascii "1") = 1
    decide
  rw [hid]
  rfl

theorem handle_secondHop {n : ℕ} (hn : minPayload ≤ n) :
    handleControlExtendpaidcircuit workingEnv (secondHopArgs n) ⟨[openCircuit], 2⟩ =
      some (⟨[twoHopCircuit n .building .awaitingKeys], 2⟩,
        extendedReply (twoHopCircuit n .building .awaitingKeys)) := by
  have hbody : bodyLines (secondHopArgs n).cmddata = [oneLine n] :=
    bodyLines_oneLine (lt_of_lt_of_le (by decide) hn)
  have hid : (secondHopArgs n).circId ≠ ascii "0" := show ascii "1" ≠ ascii "0" by decide
  have hvalid : torParseUlong (secondHopArgs n).circId ≠ 0 :=
    show torParseUlong (ascii "1") ≠ 0 by decide
  rw [handle_existing (by rw [hbody]; exact List.cons_ne_nil _ _) hid hvalid
    (found_openCircuit n), hbody, extendPaid_oneLine false _ hn]
  rfl

theorem built_secondHop (n : ℕ) :
    BuiltFrom (twoHopCircuit n .building .awaitingKeys) (twoHopCircuit n .opened .opened) := by
  have hstep : buildStep (.created ⟨0, true⟩ workingSkin)
      (twoHopCircuit n .building .awaitingKeys) = some (twoHopCircuit n .opened .opened) := rfl
  exact .step (.init rfl) trivial hstep

theorem complete_secondHop (n : ℕ) : (twoHopCircuit n .opened .opened).Complete := by
  intro hop hhop
  rcases List.mem_cons.mp hhop with rfl | hhop
  · rfl
  · rw [List.mem_singleton.mp hhop]

theorem complete_openCircuit : openCircuit.Complete := by
  intro hop hhop
  rw [List.mem_singleton.mp hhop]

/-- When an open circuit with at least one hop is extended, no run that builds the
new hops hands every one of them the payment of its line: the items of the body
are looked up by the place in the whole path. -/
theorem extended_payments_wrong {env : Env Node Info} (args : ControlCmdArgs)
    {s s' : ControlState Info} {reply : Reply} {i : ℕ} {c c1 c' : OriginCircuit Info}
    (hid : args.circId ≠ ascii "0")
    (hfound : circuitGetByGlobalId s.circuits (torParseUlong args.circId) = some (i, c))
    (hopen : c.state = .opened) (hhops : c.Complete) (hk : 1 ≤ c.cpath.length)
    (hrun : handleControlExtendpaidcircuit env args s = some (s', reply))
    (haccepted : reply.code = 250) (hnew : s'.circuits[i]? = some c1)
    (hbuilt : BuiltFrom c1 c') (hcomplete : c'.Complete) :
    c'.skins.drop c.skins.length ≠
      expectedSkins c.cpath.length (bodyLines args.cmddata) := by
  obtain ⟨hlines, hvalid⟩ := handle_existing_of_accepted hid hrun haccepted
  rw [handle_existing hlines hid hvalid hfound] at hrun
  obtain ⟨⟨c2, r⟩, hextend, heq⟩ := Option.map_eq_some_iff.mp hrun
  obtain ⟨rfl, rfl⟩ := Prod.mk.injEq .. ▸ heq
  have hlt : i < s.circuits.length :=
    (List.getElem?_eq_some_iff.mp (circuitGetByGlobalId_eq_some hfound).1).1
  obtain rfl : c2 = c1 := by simpa [List.getElem?_set_self hlt] using hnew
  obtain ⟨infos, hne, hlen, hstart⟩ := extendPaid_accepted hlines hextend haccepted
  -- The old path is open, the new hops are closed.
  obtain ⟨k, hlength⟩ : ∃ k, c.cpath.length = k + 1 := ⟨c.cpath.length - 1, by omega⟩
  have hopened : c.hopStates = List.replicate (k + 1) .opened := by
    rw [List.eq_replicate_iff, OriginCircuit.hopStates, List.length_map]
    refine ⟨hlength, fun st hst => ?_⟩
    obtain ⟨hop, hhop, rfl⟩ := List.mem_map.mp hst
    exact hhops hop hhop
  have hpath : (prepared c (bodyLines args.cmddata) infos).hopStates =
      pathStates k .opened infos.length := by
    rw [hopStates_prepared, hopened, pathStates, List.replicate_succ', List.append_assoc]
    rfl
  have hskins := built_skins (startBuilding_open hpath hopen hstart haccepted) hbuilt hcomplete
  rw [hskins, show (prepared c (bodyLines args.cmddata) infos).skins = c.skins from rfl,
    List.drop_left, ← hlength]
  intro hexpected
  obtain ⟨hcount, hpay⟩ := handedSkins_eq_expectedSkins_iff.mp hexpected
  -- The last new hop looks behind the end of the list.
  have hpos := List.length_pos_iff.mpr hne
  have hlast := hpay _ _ (List.getElem?_eq_getElem (i := infos.length - 1) (by omega))
  rw [laterHopPayment_prepared, List.getElem?_eq_none_iff.mpr (by omega)] at hlast
  exact absurd hlast (by simp)

/-- A payload of the length of the stride makes no difference here. -/
theorem extended_payments_wrong_secondHop :
    (twoHopCircuit 768 .opened .opened).skins.drop openCircuit.skins.length ≠
      expectedSkins openCircuit.cpath.length (bodyLines (oneLine 768)) :=
  extended_payments_wrong (secondHopArgs 768) (show ascii "1" ≠ ascii "0" by decide)
    (found_openCircuit 768) rfl complete_openCircuit le_rfl (handle_secondHop (by decide)) rfl rfl
    (built_secondHop 768) (complete_secondHop 768)

/-- The second hop of a circuit, extended by a body of one line, is sent no payment. -/
theorem secondHop_not_paid :
    handleControlExtendpaidcircuit workingEnv (secondHopArgs 128) ⟨[openCircuit], 2⟩ =
        some (⟨[twoHopCircuit 128 .building .awaitingKeys], 2⟩,
          extendedReply (twoHopCircuit 128 .building .awaitingKeys)) ∧
      BuiltFrom (twoHopCircuit 128 .building .awaitingKeys) (twoHopCircuit 128 .opened .opened) ∧
      (twoHopCircuit 128 .opened .opened).Complete ∧
      (twoHopCircuit 128 .opened .opened).skins = [(1, none)] ∧
      (twoHopCircuit 128 .opened .opened).skins ≠ expectedSkins 1 (bodyLines (oneLine 128)) := by
  have hskins : (twoHopCircuit 128 .opened .opened).skins = [(1, none)] := by
    show [(1, laterHopPayment (prepared openCircuit [oneLine 128] [()]) 1)] = _
    rw [laterHopPayment_prepared, hopLines_oneLine (by decide)]
    rfl
  refine ⟨handle_secondHop (by decide), built_secondHop 128, complete_secondHop 128, hskins, ?_⟩
  rw [hskins, expectedSkins_oneLine 1 (by decide)]
  simp

end ExtendPaidCircuit
