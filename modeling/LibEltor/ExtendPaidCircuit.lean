/-
The controller command EXTENDPAIDCIRCUIT
(`feature/control/control_extendpaidcircuit.c`).

The body of the command has a line for each hop: a router and its payment.  The
handler puts the payments of a body into the circuit twice, as the list of parsed
items and as one string of payloads with newlines between them, appends the
routers to the path, and starts or goes on with the building of the circuit.
-/
import LibEltor.CircuitBuild
import LibEltor.Smartlist

open Bytes PaymentUtil Smartlist CircuitBuild

namespace ExtendPaidCircuit

/-- A line that is understood: two words, of which the payment parser makes an item. -/
structure HopLine where
  fingerprint : Bytes
  payhash : Bytes
  item : RelayPaymentItem

def parseHopLine (line : Bytes) : Option HopLine :=
  match splitString 32 line with
  | [fingerprint, payhash] =>
    (parsePaymentLine line).map fun item => { fingerprint, payhash, item }
  | _ => none

def bodyLines (cmddata : Bytes) : List Bytes := splitString 10 cmddata

def hopLines (lines : List Bytes) : List HopLine := lines.filterMap parseHopLine

def bufferSize (lines : List Bytes) : ℕ := lines.length * 1024

/-- One more payload behind `payhashes`, in a buffer of `size` bytes; no result
when there is not even room for the newline. -/
def addPayhash (size : ℕ) (payhashes payhash : Bytes) : Option Bytes :=
  let remaining := size - payhashes.length - 1
  if payhashes.length > 0 then
    if remaining ≥ 1 then some (append (payhashes ++ [10]) (remaining - 1)) else none
  else some (append payhashes remaining)
where
  append (payhashes : Bytes) (remaining : ℕ) : Bytes :=
    if payhash.length ≤ remaining then payhashes ++ payhash
    else payhashes ++ payhash.take remaining

structure Reply where
  code : ℕ
  text : Bytes

def quoted (before : String) (word : Bytes) : Bytes :=
  ascii before ++ ascii " \"" ++ word ++ ascii "\""

/-- What the handler calls: the directory, and the outcomes of building. -/
structure Env (Node Info : Type*) where
  nodeGetByNickname : Bytes → Option Node
  nodeHasPreferredDescriptor : Node → Bool → Bool
  extendInfoFromNode : Node → Bool → Option Info
  firstHop : FirstHopOutcome
  skin : SkinOutcome

variable {Node Info : Type*}

def lookupNode (env : Env Node Info) (zeroCirc : Bool) (fingerprint : Bytes) :
    Except Reply Node :=
  match env.nodeGetByNickname fingerprint with
  | none => .error ⟨552, quoted "No such router" fingerprint⟩
  | some node =>
    if !env.nodeHasPreferredDescriptor node zeroCirc then
      .error ⟨552, quoted "No descriptor for" fingerprint⟩
    else .ok node

structure Parsed (Node : Type*) where
  relayPayments : List RelayPaymentItem
  payhashes : Bytes
  nodes : List Node

def processLines (env : Env Node Info) (zeroCirc : Bool) (size : ℕ) :
    List Bytes → Parsed Node → Except Reply (Parsed Node)
  | [], acc => .ok acc
  | line :: lines, acc =>
    match parseHopLine line with
    | none => processLines env zeroCirc size lines acc
    | some hop =>
      let relayPayments := acc.relayPayments ++ [hop.item]
      match addPayhash size acc.payhashes hop.payhash with
      -- The item stays in the list, but its router is not visited.
      | none => processLines env zeroCirc size lines { acc with relayPayments }
      | some payhashes =>
        match lookupNode env zeroCirc hop.fingerprint with
        | .error reply => .error reply
        | .ok node =>
          processLines env zeroCirc size lines
            { relayPayments, payhashes, nodes := acc.nodes ++ [node] }

/-! ### The handler -/

/-- `tor_parse_ulong(s, 10, 0, UINT32_MAX, NULL, NULL)`, with `strtoul` for an
`unsigned long` of 64 bits: a minus sign wraps around. -/
def torParseUlong (s : Bytes) : UInt32 :=
  let s := s.dropWhile torIsspace
  let (negative, digits) :=
    match s with
    | 45 :: t => (true, t)
    | 43 :: t => (false, t)
    | t => (false, t)
  if digits = [] ∨ !digits.all (fun b => 48 ≤ b && b ≤ 57) then 0
  else
    let v := digits.foldl (fun n b => 10 * n + (b.toNat - 48)) 0
    if v ≥ 2 ^ 64 then 0
    else
      let r := if negative then (2 ^ 64 - v) % 2 ^ 64 else v
      if r > 4294967295 then 0 else UInt32.ofNat r

/-- `origin_circuit_init`; `identifier` is the next global identifier. -/
def originCircuitInit (purpose : UInt8) (identifier : UInt32) : OriginCircuit Info where
  globalIdentifier := identifier
  state := .chanWait
  purpose := purpose
  markedForClose := false
  pathState := .newCirc
  nHop := false
  cpath := []
  payhashes := none
  relayPayments := none
  anyHopFromController := false
  firstHopFromController := false
  skins := []

structure ControlState (Info : Type*) where
  circuits : List (OriginCircuit Info)
  nCircuitsAllocated : UInt32

/-- `circuit_get_by_global_id`, with the place of the circuit in the list. -/
def circuitGetByGlobalId (circuits : List (OriginCircuit Info)) (id : UInt32) :
    Option (ℕ × OriginCircuit Info) :=
  match circuits.findIdx? (·.globalIdentifier = id) with
  | none => none
  | some i =>
    match circuits[i]? with
    | none => none
    | some c => if c.markedForClose then none else some (i, c)

/-- The routers are appended to the path until one has no usable address; the
flag says whether all of them were. -/
def appendNodes (env : Env Node Info) (firstNode : Bool) (c : OriginCircuit Info) :
    List Node → OriginCircuit Info × Bool
  | [] => (c, true)
  | node :: nodes =>
    match env.extendInfoFromNode node firstNode with
    | none => (c, false)
    | some info => appendNodes env false (circuitAppendNewExit c info) nodes

abbrev maxPayhashSize : ℕ := 10 * 1024

def extendedReply (c : OriginCircuit Info) : Reply :=
  ⟨250, ascii ("EXTENDED " ++ toString c.globalIdentifier.toNat)⟩

/-- The last part of the handler: the circuit is started, or it goes on. -/
def startBuilding (env : Env Node Info) (zeroCirc : Bool) (c : OriginCircuit Info) :
    Option (OriginCircuit Info × Reply) :=
  if zeroCirc then
    match circuitHandleFirstHop env.firstHop c with
    | none => none
    | some (c, errReason) =>
      if errReason < 0 then
        some (circuitMarkForClose env.skin.probeSent c, ⟨551, ascii "Couldn't start circuit"⟩)
      else some (c, extendedReply c)
  else if c.state = .opened ∨ c.state = .guardWait then
    match circuitSendNextOnionSkin env.skin { c with state := .building } with
    | none => none
    | some (c, errReason) =>
      if errReason < 0 then
        some (circuitMarkForClose env.skin.probeSent c, ⟨551, ascii "Couldn't send onion skin"⟩)
      else some (c, extendedReply c)
  else some (c, ⟨551, ascii "Circuit is not in a state that can be extended"⟩)

def extendPaid (env : Env Node Info) (zeroCirc : Bool) (lines : List Bytes)
    (c : OriginCircuit Info) : Option (OriginCircuit Info × Reply) :=
  let c := { c with anyHopFromController := true }
  match processLines env zeroCirc (bufferSize lines) lines ⟨[], [], []⟩ with
  | .error reply => some (c, reply)
  | .ok parsed =>
    if parsed.nodes.length = 0 then some (c, ⟨512, ascii "No valid nodes provided"⟩)
    else
      let c := { c with payhashes := some parsed.payhashes }
      if parsed.payhashes.length > maxPayhashSize then
        some (c, ⟨552, ascii "Payment hash data exceeds maximum size"⟩)
      else
        let c := { c with relayPayments := some parsed.relayPayments }
        match appendNodes env zeroCirc c parsed.nodes with
        | (c, false) =>
          some (circuitMarkForClose env.skin.probeSent c,
            ⟨551, ascii "Couldn't extend circuit: missing descriptor or valid address"⟩)
        | (c, true) => startBuilding env zeroCirc c

structure ControlCmdArgs where
  circId : Bytes
  cmddata : Bytes

/-- `handle_control_extendpaidcircuit`; no result when an assertion fails.
`origin_circuit_init` gives a circuit always. -/
def handleControlExtendpaidcircuit (env : Env Node Info) (args : ControlCmdArgs)
    (s : ControlState Info) : Option (ControlState Info × Reply) :=
  let lines := bodyLines args.cmddata
  if lines.length = 0 then some (s, ⟨512, ascii "No router specifications provided"⟩)
  else if args.circId = ascii "0" then
    let c := originCircuitInit circuitPurposeCGeneral s.nCircuitsAllocated
    (extendPaid env true lines { c with firstHopFromController := true }).map fun (c, reply) =>
      ({ circuits := s.circuits ++ [c], nCircuitsAllocated := s.nCircuitsAllocated + 1 }, reply)
  else
    let id := torParseUlong args.circId
    if id = 0 then some (s, ⟨552, quoted "Invalid circuit ID" args.circId⟩)
    else
      match circuitGetByGlobalId s.circuits id with
      | none => some (s, ⟨552, quoted "Unknown circuit" args.circId⟩)
      | some (i, c) =>
        (extendPaid env false lines c).map fun (c, reply) =>
          ({ s with circuits := s.circuits.set i c }, reply)

/-! ### What the loop collects -/

def joinPayhash (joined : Bytes) (hop : HopLine) : Bytes :=
  if joined = [] then hop.payhash else joined ++ 10 :: hop.payhash

/-- The room `joined` takes, with one separator for each payload. -/
def used (joined : Bytes) : ℕ := if joined = [] then 0 else joined.length + 1

/-- The room the payloads of `hops` take, with one separator for each. -/
def roomOf : List HopLine → ℕ
  | [] => 0
  | hop :: hops => hop.payhash.length + 1 + roomOf hops

/-- The hops whose line begins before a buffer of `size` bytes is full, when
`room` bytes are taken. -/
def keptHops (size : ℕ) : ℕ → List HopLine → List HopLine
  | _, [] => []
  | room, hop :: hops =>
    let rest := keptHops size (room + (hop.payhash.length + 1)) hops
    if room < size then hop :: rest else rest

def lookupAll (env : Env Node Info) (zeroCirc : Bool) : List HopLine → Except Reply (List Node)
  | [] => .ok []
  | hop :: hops =>
    match lookupNode env zeroCirc hop.fingerprint with
    | .error reply => .error reply
    | .ok node =>
      match lookupAll env zeroCirc hops with
      | .error reply => .error reply
      | .ok nodes => .ok (node :: nodes)

theorem parseHopLine_eq_some {line : Bytes} {hop : HopLine} (h : parseHopLine line = some hop) :
    splitString 32 line = [hop.fingerprint, hop.payhash] ∧
      parsePaymentLine line = some hop.item := by
  rw [parseHopLine] at h
  split at h
  · rename_i fingerprint payhash hsplit
    obtain ⟨item, hitem, rfl⟩ := Option.map_eq_some_iff.mp h
    exact ⟨hsplit, hitem⟩
  · exact absurd h (by simp)

theorem payhash_ne_nil {line : Bytes} {hop : HopLine} (h : parseHopLine line = some hop) :
    hop.payhash ≠ [] := by
  have hmem : hop.payhash ∈ splitString 32 line := by
    rw [(parseHopLine_eq_some h).1]
    simp
  exact (mem_splitString hmem).1

theorem used_joinPayhash (joined : Bytes) {hop : HopLine} (hne : hop.payhash ≠ []) :
    used (joinPayhash joined hop) = used joined + (hop.payhash.length + 1) := by
  by_cases hj : joined = []
  · rw [joinPayhash, if_pos hj, used, if_neg hne, used, if_pos hj, Nat.zero_add]
  · rw [joinPayhash, if_neg hj, used, if_neg (by simp), used, if_neg hj, List.length_append,
      List.length_cons]
    omega

theorem append_eq (payhash payhashes : Bytes) (remaining : ℕ) :
    addPayhash.append payhash payhashes remaining = payhashes ++ payhash.take remaining := by
  rw [addPayhash.append]
  split_ifs with h
  · rw [List.take_of_length_le h]
  · rfl

theorem addPayhash_take {size : ℕ} {joined : Bytes} {hop : HopLine} (hsize : 2 ≤ size) :
    addPayhash size (joined.take (size - 1)) hop.payhash =
      if used joined < size then some ((joinPayhash joined hop).take (size - 1)) else none := by
  by_cases hj : joined = []
  · subst hj
    rw [List.take_nil, used, if_pos rfl, if_pos (by omega), addPayhash]
    simp only [List.length_nil, append_eq]
    rw [if_neg (by omega), Nat.sub_zero, List.nil_append, joinPayhash, if_pos rfl]
  · have hpos : 0 < joined.length := List.length_pos_iff.mpr hj
    rw [used, if_neg hj, addPayhash]
    simp only [append_eq]
    by_cases hroom : joined.length + 1 < size
    · have hfit : joined.take (size - 1) = joined := List.take_of_length_le (by omega)
      rw [hfit, if_pos hpos, if_pos (by omega), if_pos hroom, Option.some_inj, joinPayhash,
        if_neg hj, List.take_append, hfit, List.append_assoc,
        show size - 1 - joined.length = size - joined.length - 1 - 1 + 1 by omega]
      rfl
    · have hlen : (joined.take (size - 1)).length = size - 1 := by
        rw [List.length_take]
        omega
      rw [if_pos (by omega), if_neg (by omega), if_neg hroom]

theorem joinPayhash_take_of_full {size : ℕ} {joined : Bytes} (hop : HopLine) (hsize : 2 ≤ size)
    (hfull : ¬ used joined < size) :
    (joinPayhash joined hop).take (size - 1) = joined.take (size - 1) := by
  have hj : joined ≠ [] := by
    rintro rfl
    exact hfull (show 0 < size by omega)
  rw [used, if_neg hj] at hfull
  rw [joinPayhash, if_neg hj, List.take_append_of_le_length (by omega)]

theorem processLines_eq (env : Env Node Info) (zeroCirc : Bool) {size : ℕ} (hsize : 2 ≤ size)
    (lines : List Bytes) (relayPayments : List RelayPaymentItem) (joined : Bytes)
    (nodes : List Node) :
    processLines env zeroCirc size lines ⟨relayPayments, joined.take (size - 1), nodes⟩ =
      match lookupAll env zeroCirc (keptHops size (used joined) (hopLines lines)) with
      | .error reply => .error reply
      | .ok found =>
        .ok ⟨relayPayments ++ (hopLines lines).map (·.item),
          ((hopLines lines).foldl joinPayhash joined).take (size - 1), nodes ++ found⟩ := by
  induction lines generalizing relayPayments joined nodes with
  | nil => simp [processLines, hopLines, keptHops, lookupAll]
  | cons line lines ih =>
    rw [processLines]
    cases hline : parseHopLine line with
    | none =>
      have hskip : hopLines (line :: lines) = hopLines lines := List.filterMap_cons_none hline
      rw [hskip]
      exact ih relayPayments joined nodes
    | some hop =>
      have hcons : hopLines (line :: lines) = hop :: hopLines lines :=
        List.filterMap_cons_some hline
      have hused := used_joinPayhash joined (payhash_ne_nil hline)
      simp only [addPayhash_take hsize, hcons, keptHops]
      by_cases hroom : used joined < size
      · simp only [if_pos hroom, lookupAll]
        cases lookupNode env zeroCirc hop.fingerprint with
        | error reply => rfl
        | ok node =>
          simp only
          rw [ih, hused]
          cases lookupAll env zeroCirc
              (keptHops size (used joined + (hop.payhash.length + 1)) (hopLines lines)) with
          | error reply => rfl
          | ok found => simp
      · simp only [if_neg hroom]
        rw [← joinPayhash_take_of_full hop hsize hroom, ih, hused]
        cases lookupAll env zeroCirc
            (keptHops size (used joined + (hop.payhash.length + 1)) (hopLines lines)) with
        | error reply => rfl
        | ok found => simp

theorem length_of_lookupAll {env : Env Node Info} {zeroCirc : Bool} {hops : List HopLine}
    {nodes : List Node} (h : lookupAll env zeroCirc hops = .ok nodes) :
    nodes.length = hops.length := by
  induction hops generalizing nodes with
  | nil =>
    rw [lookupAll, Except.ok.injEq] at h
    rw [← h]
    rfl
  | cons hop hops ih =>
    rw [lookupAll] at h
    split at h
    · exact absurd h (by simp)
    · split at h
      · exact absurd h (by simp)
      · rename_i found hfound
        rw [Except.ok.injEq] at h
        rw [← h, List.length_cons, List.length_cons, ih hfound]

theorem code_of_lookupAll {env : Env Node Info} {zeroCirc : Bool} {hops : List HopLine}
    {reply : Reply} (h : lookupAll env zeroCirc hops = .error reply) : reply.code = 552 := by
  induction hops with
  | nil => exact absurd h (by simp [lookupAll])
  | cons hop hops ih =>
    rw [lookupAll] at h
    split at h
    · rename_i r hnode
      obtain rfl := Except.error.inj h
      rw [lookupNode] at hnode
      split at hnode
      · exact (Except.error.inj hnode) ▸ rfl
      · split_ifs at hnode
        exact (Except.error.inj hnode) ▸ rfl
    · split at h
      · rename_i r hrest
        obtain rfl := Except.error.inj h
        exact ih hrest
      · exact absurd h (by simp)

theorem length_keptHops_le (size room : ℕ) (hops : List HopLine) :
    (keptHops size room hops).length ≤ hops.length := by
  induction hops generalizing room with
  | nil => exact le_rfl
  | cons hop hops ih =>
    have hrest := ih (room + (hop.payhash.length + 1))
    rw [keptHops]
    split_ifs
    · rw [List.length_cons, List.length_cons]
      omega
    · rw [List.length_cons]
      omega

theorem length_keptHops_eq_iff {size : ℕ} (room : ℕ) {hops : List HopLine} (hne : hops ≠ []) :
    (keptHops size room hops).length = hops.length ↔
      room + roomOf hops.dropLast < size := by
  induction hops generalizing room with
  | nil => exact absurd rfl hne
  | cons hop hops ih =>
    have hle := length_keptHops_le size (room + (hop.payhash.length + 1)) hops
    rw [keptHops]
    cases hops with
    | nil => split_ifs with hroom <;> simp [keptHops, roomOf, hroom]
    | cons next hops =>
      have hrest := ih (room + (hop.payhash.length + 1)) (List.cons_ne_nil _ _)
      rw [Nat.add_assoc] at hrest
      rw [List.dropLast_cons_of_ne_nil (List.cons_ne_nil _ _), roomOf, ← hrest,
        @List.length_cons _ hop]
      split_ifs with hroom
      · rw [List.length_cons]
        omega
      · constructor
        · intro hlen
          omega
        · intro hlen
          have := hrest.mp hlen
          omega

theorem item_fingerprint_ne_nil {line : Bytes} {item : RelayPaymentItem} (hb : Begins line)
    (h : parsePaymentLine line = some item) : item.fingerprint ≠ [] := by
  intro hnil
  have hline := (parsePaymentLine_eq_some h).1
  rw [hnil, List.nil_append] at hline
  have hspace := hb 32 (by rw [hline]; rfl)
  exact absurd hspace (by decide)

theorem length_payhash_le {line : Bytes} {hop : HopLine} (hb : Begins line)
    (h : parseHopLine line = some hop) : hop.payhash.length ≤ hop.item.payload.length := by
  obtain ⟨hsplit, hitem⟩ := parseHopLine_eq_some h
  obtain ⟨hline, hword, -, -⟩ := parsePaymentLine_eq_some hitem
  have hne := item_fingerprint_ne_nil hb hitem
  have hpre : Begins hop.item.fingerprint :=
    hb.of_isPrefix (hline ▸ List.prefix_append _ _)
  have hmem : hop.payhash ∈ splitString 32 hop.item.payload := by
    rw [hline, splitString_cons hpre hne hword] at hsplit
    split_ifs at hsplit
    · rw [(List.cons.inj hsplit).2]
      exact List.mem_singleton_self _
    · rw [hsplit]
      simp
  exact (mem_splitString hmem).2.2.2

theorem newline_notMem_payload {line : Bytes} {hop : HopLine} (hn : 10 ∉ line)
    (h : parseHopLine line = some hop) : 10 ∉ hop.item.payload := by
  intro hmem
  have hline := (parsePaymentLine_eq_some (parseHopLine_eq_some h).2).1
  apply hn
  rw [hline]
  exact List.mem_append_right _ (List.mem_cons_of_mem _ hmem)

theorem exists_line_of_mem_hopLines {cmddata : Bytes} {hop : HopLine}
    (h : hop ∈ hopLines (bodyLines cmddata)) :
    ∃ line, Begins line ∧ 10 ∉ line ∧ parseHopLine line = some hop := by
  obtain ⟨line, hline, hhop⟩ := List.mem_filterMap.mp h
  obtain ⟨-, hb, hn, -⟩ := mem_splitString hline
  exact ⟨line, hb, hn, hhop⟩

theorem parseHopLine_words {fingerprint payload : Bytes} (hf : Trimmed fingerprint)
    (hp : Trimmed payload) (hsf : 32 ∉ fingerprint) (hsp : 32 ∉ payload)
    (hlen : minPayload ≤ payload.length) :
    parseHopLine (fingerprint ++ 32 :: payload) =
      some ⟨fingerprint, payload, fingerprint, payload.take 64, (payload.drop 64).take 64,
        payload.drop 128, wireFormat payload⟩ := by
  rw [parseHopLine, splitString_append hf hsf, splitString_self hp hsp]
  simp only
  rw [parsePaymentLine_append hsf hlen]
  rfl

/-! ### The circuit the handler leaves -/

def paidItems (lines : List Bytes) : List RelayPaymentItem := (hopLines lines).map (·.item)

def payhashString (lines : List Bytes) : Bytes :=
  ((hopLines lines).foldl joinPayhash []).take (bufferSize lines - 1)

def keptLines (lines : List Bytes) : List HopLine := keptHops (bufferSize lines) 0 (hopLines lines)

theorem two_le_bufferSize {lines : List Bytes} (h : lines ≠ []) : 2 ≤ bufferSize lines := by
  have hpos := List.length_pos_iff.mpr h
  rw [bufferSize]
  omega

theorem collect_eq (env : Env Node Info) (zeroCirc : Bool) {lines : List Bytes}
    (h : lines ≠ []) :
    processLines env zeroCirc (bufferSize lines) lines ⟨[], [], []⟩ =
      match lookupAll env zeroCirc (keptLines lines) with
      | .error reply => .error reply
      | .ok nodes => .ok ⟨paidItems lines, payhashString lines, nodes⟩ := by
  have heq := processLines_eq env zeroCirc (two_le_bufferSize h) lines [] [] []
  rw [List.take_nil] at heq
  rw [heq]
  rfl

/-- The addresses of the routers, up to the first router without a usable one. -/
def usableInfos (env : Env Node Info) : Bool → List Node → List Info
  | _, [] => []
  | firstNode, node :: nodes =>
    match env.extendInfoFromNode node firstNode with
    | none => []
    | some info => info :: usableInfos env false nodes

theorem length_usableInfos_le (env : Env Node Info) (firstNode : Bool) (nodes : List Node) :
    (usableInfos env firstNode nodes).length ≤ nodes.length := by
  induction nodes generalizing firstNode with
  | nil => exact le_rfl
  | cons node nodes ih =>
    rw [usableInfos]
    split
    · exact Nat.zero_le _
    · exact Nat.succ_le_succ (ih false)

def closedHops (infos : List Info) : List (Hop Info) := infos.map fun info => ⟨info, .closed⟩

theorem appendNodes_eq (env : Env Node Info) (firstNode : Bool) (c : OriginCircuit Info)
    (nodes : List Node) :
    appendNodes env firstNode c nodes =
      ({ c with cpath := c.cpath ++ closedHops (usableInfos env firstNode nodes) },
        decide ((usableInfos env firstNode nodes).length = nodes.length)) := by
  induction nodes generalizing firstNode c with
  | nil => simp [appendNodes, usableInfos, closedHops]
  | cons node nodes ih =>
    rw [appendNodes, usableInfos]
    cases env.extendInfoFromNode node firstNode with
    | none => simp [closedHops]
    | some info =>
      simp only
      rw [ih]
      simp [circuitAppendNewExit, closedHops]

def prepared (c : OriginCircuit Info) (lines : List Bytes) (infos : List Info) :
    OriginCircuit Info :=
  { c with
    anyHopFromController := true
    payhashes := some (payhashString lines)
    relayPayments := some (paidItems lines)
    cpath := c.cpath ++ closedHops infos }

def TooLong (lines : List Bytes) : Prop := (payhashString lines).length > maxPayhashSize

instance (lines : List Bytes) : Decidable (TooLong lines) :=
  inferInstanceAs (Decidable ((payhashString lines).length > maxPayhashSize))

theorem extendPaid_eq (env : Env Node Info) (zeroCirc : Bool) {lines : List Bytes}
    (c : OriginCircuit Info) (h : lines ≠ []) :
    extendPaid env zeroCirc lines c =
      match lookupAll env zeroCirc (keptLines lines) with
      | .error reply => some ({ c with anyHopFromController := true }, reply)
      | .ok nodes =>
        if nodes.length = 0 then
          some ({ c with anyHopFromController := true }, ⟨512, ascii "No valid nodes provided"⟩)
        else if TooLong lines then
          some
            ({ c with anyHopFromController := true, payhashes := some (payhashString lines) },
              ⟨552, ascii "Payment hash data exceeds maximum size"⟩)
        else
          let c := prepared c lines (usableInfos env zeroCirc nodes)
          if (usableInfos env zeroCirc nodes).length = nodes.length then
            startBuilding env zeroCirc c
          else
            some (circuitMarkForClose env.skin.probeSent c,
              ⟨551, ascii "Couldn't extend circuit: missing descriptor or valid address"⟩) := by
  rw [extendPaid]
  simp only [collect_eq env zeroCirc h]
  cases lookupAll env zeroCirc (keptLines lines) with
  | error reply => rfl
  | ok nodes =>
    simp only [appendNodes_eq]
    by_cases hall : (usableInfos env zeroCirc nodes).length = nodes.length
    · simp only [hall, decide_true, if_true]
      rfl
    · simp only [hall, decide_false, if_false]
      rfl

theorem extendPaid_accepted {env : Env Node Info} {zeroCirc : Bool} {lines : List Bytes}
    {c c' : OriginCircuit Info} {reply : Reply} (hlines : lines ≠ [])
    (h : extendPaid env zeroCirc lines c = some (c', reply)) (hcode : reply.code = 250) :
    ∃ infos : List Info, infos ≠ [] ∧ infos.length = (keptLines lines).length ∧
      startBuilding env zeroCirc (prepared c lines infos) = some (c', reply) := by
  rw [extendPaid_eq env zeroCirc c hlines] at h
  split at h
  · rename_i r hlook
    obtain ⟨-, rfl⟩ := Prod.mk.injEq .. ▸ Option.some_inj.mp h
    rw [code_of_lookupAll hlook] at hcode
    exact absurd hcode (by decide)
  · rename_i nodes hlook
    simp only at h
    split_ifs at h with hnil hlong hall
    · obtain ⟨-, rfl⟩ := Prod.mk.injEq .. ▸ Option.some_inj.mp h
      exact absurd hcode (by decide)
    · obtain ⟨-, rfl⟩ := Prod.mk.injEq .. ▸ Option.some_inj.mp h
      exact absurd hcode (by decide)
    · refine ⟨usableInfos env zeroCirc nodes, ?_, ?_, h⟩
      · intro hempty
        rw [hempty] at hall
        exact hnil hall.symm
      · rw [hall, length_of_lookupAll hlook]
    · obtain ⟨-, rfl⟩ := Prod.mk.injEq .. ▸ Option.some_inj.mp h
      exact absurd hcode (by decide)

theorem hopStates_prepared (c : OriginCircuit Info) (lines : List Bytes) (infos : List Info) :
    (prepared c lines infos).hopStates = c.hopStates ++ List.replicate infos.length .closed := by
  show (c.cpath ++ closedHops infos).map _ = _
  rw [List.map_append, closedHops, List.map_map]
  congr 1
  exact List.map_const'

def newCircuit (s : ControlState Info) : OriginCircuit Info :=
  { originCircuitInit circuitPurposeCGeneral s.nCircuitsAllocated with
    firstHopFromController := true }

theorem handle_zero {env : Env Node Info} {args : ControlCmdArgs} {s : ControlState Info}
    (hlines : bodyLines args.cmddata ≠ []) (hzero : args.circId = ascii "0") :
    handleControlExtendpaidcircuit env args s =
      (extendPaid env true (bodyLines args.cmddata) (newCircuit s)).map fun r =>
        ({ circuits := s.circuits ++ [r.1], nCircuitsAllocated := s.nCircuitsAllocated + 1 },
          r.2) := by
  have hlen : (bodyLines args.cmddata).length ≠ 0 := by
    rw [Ne, List.length_eq_zero_iff]
    exact hlines
  rw [handleControlExtendpaidcircuit]
  simp only [if_neg hlen, if_pos hzero]
  rfl

theorem handle_existing {env : Env Node Info} {args : ControlCmdArgs} {s : ControlState Info}
    {i : ℕ} {c : OriginCircuit Info} (hlines : bodyLines args.cmddata ≠ [])
    (hid : args.circId ≠ ascii "0") (hvalid : torParseUlong args.circId ≠ 0)
    (hfound : circuitGetByGlobalId s.circuits (torParseUlong args.circId) = some (i, c)) :
    handleControlExtendpaidcircuit env args s =
      (extendPaid env false (bodyLines args.cmddata) c).map fun r =>
        ({ s with circuits := s.circuits.set i r.1 }, r.2) := by
  have hlen : (bodyLines args.cmddata).length ≠ 0 := by
    rw [Ne, List.length_eq_zero_iff]
    exact hlines
  rw [handleControlExtendpaidcircuit]
  simp only [if_neg hlen, if_neg hid, if_neg hvalid, hfound]

theorem circuitGetByGlobalId_eq_some {circuits : List (OriginCircuit Info)} {id : UInt32} {i : ℕ}
    {c : OriginCircuit Info} (h : circuitGetByGlobalId circuits id = some (i, c)) :
    circuits[i]? = some c ∧ c.markedForClose = false := by
  rw [circuitGetByGlobalId] at h
  split at h
  · exact absurd h (by simp)
  split at h
  · exact absurd h (by simp)
  rename_i c' hc
  split_ifs at h with hmarked
  obtain ⟨rfl, rfl⟩ := Prod.mk.injEq .. ▸ Option.some_inj.mp h
  exact ⟨hc, by simpa using hmarked⟩

theorem handle_existing_of_accepted {env : Env Node Info} {args : ControlCmdArgs}
    {s s' : ControlState Info} {reply : Reply} (hid : args.circId ≠ ascii "0")
    (hrun : handleControlExtendpaidcircuit env args s = some (s', reply))
    (haccepted : reply.code = 250) :
    bodyLines args.cmddata ≠ [] ∧ torParseUlong args.circId ≠ 0 := by
  rw [handleControlExtendpaidcircuit] at hrun
  simp only [if_neg hid] at hrun
  split_ifs at hrun with hlen hvalid
  · obtain ⟨-, rfl⟩ := Prod.mk.injEq .. ▸ Option.some_inj.mp hrun
    exact absurd haccepted (by decide)
  · obtain ⟨-, rfl⟩ := Prod.mk.injEq .. ▸ Option.some_inj.mp hrun
    exact absurd haccepted (show ¬ (552 : ℕ) = 250 by decide)
  · refine ⟨?_, hvalid⟩
    rintro hnil
    rw [hnil] at hlen
    exact hlen rfl

end ExtendPaidCircuit
