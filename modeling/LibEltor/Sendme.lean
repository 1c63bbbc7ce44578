/-
Circuit-level SENDME cells (`core/or/sendme.c`, `trunnel/sendme_cell.c`).

The sender of DATA cells remembers the digest of each cell that the other end
answers with a SENDME, and where congestion control is in use also the time.  A
SENDME takes the oldest digest, whatever its version, and a version 1 cell must
carry it.
-/
import LibEltor.Parser
import LibEltor.Vegas

open Bytes Parser CongestionControl Vegas Transition

namespace Sendme

/-! ### The cell -/

structure SendmeCell where
  version : UInt8
  dataV1Digest : Block 20
  deriving DecidableEq

def sendmeCellParse : Parser SendmeCell := do
  let version ← u8
  if ¬(version = 0 ∨ version = 1) then fail
  else do
    let dataLen ← u16
    let data ← takeN dataLen.toNat
    -- version 0 skips its data, whatever its length
    if version = 0 then return ⟨version, zeroFill 20 []⟩
    else if data.length ≠ 20 then fail
    else return ⟨version, zeroFill 20 data⟩

def buildCellPayloadV1 (cellDigest : Block 20) : Bytes := 1 :: (be16 20 ++ cellDigest.toList)

/-- `cell_version_can_be_handled`; `acceptVersion` is the consensus minimum. -/
def cellVersionCanBeHandled (acceptVersion : ℤ) (cellVersion : UInt8) : Bool :=
  if acceptVersion > 1 then false
  else if (cellVersion.toNat : ℤ) < acceptVersion then false
  else if cellVersion > 1 then false
  else true

def sendmeIsValid (acceptVersion : ℤ) (digests : List (Block 20)) (cellPayload : Bytes) :
    Bool × List (Block 20) :=
  let cell :=
    -- an empty payload means version 0
    if cellPayload.length = 0 then some ⟨0, zeroFill 20 []⟩
    else (sendmeCellParse cellPayload).map (·.1)
  match cell with
  | none => (false, digests)
  | some cell =>
    if ¬cellVersionCanBeHandled acceptVersion cell.version then (false, digests)
    else
      -- the digest is popped regardless of the version
      match digests with
      | [] => (false, [])
      | circDigest :: digests =>
        -- version 0 takes the digest without comparing it
        if cell.version = 1 then (decide (circDigest = cell.dataV1Digest), digests)
        else (true, digests)

/-- A circuit at an edge: its windows, the digests of the cells for which a SENDME
is expected, the digest the cryptography has kept last, and whether it is marked. -/
structure Circuit where
  edge : Edge
  sendmeLastDigests : List (Block 20)
  sendmeDigest : Block 20
  markedForClose : Bool
  deriving DecidableEq

def circuitNew (ns : Consensus) (params : CircuitParams) (path : CcPath) : Circuit where
  edge := {
    packageWindow := circuitInitialPackageWindow ns
    deliverWindow := circwindowStart
    ccontrol := if params.ccEnabled then some (congestionControlNew ns params path) else none }
  sendmeLastDigests := []
  sendmeDigest := zeroFill 20 []
  markedForClose := false

def Circuit.mark (c : Circuit) : Circuit := { c with markedForClose := true }

/-! ### Sending DATA cells -/

/-- `sendme_record_sending_cell_digest`, while the cell is encrypted. -/
def sendmeRecordSendingCellDigest (digest : Block 20) (c : Circuit) : Option Circuit := do
  if ← circuitSentCellForSendme c.edge then return { c with sendmeDigest := digest } else return c

def sendmeRecordCellDigestOnCirc (c : Circuit) : Option Circuit := do
  if ← circuitSentCellForSendme c.edge then
    return { c with sendmeLastDigests := c.sendmeLastDigests ++ [c.sendmeDigest] }
  else return c

def sendmeNoteCircuitDataPackaged (nowUsec : ℕ) (edge : Edge) : Option Edge :=
  match edge.ccontrol with
  | some cc => do
    return { edge with ccontrol := some (← congestionControlNoteCellSent edge cc nowUsec) }
  | none => some { edge with packageWindow := edge.packageWindow - 1 }

/-- `relay_send_command_from_edge_` for a DATA cell with this digest. -/
def relaySendData (digest : Block 20) (nowUsec : ℕ) (c : Circuit) : Option Circuit := do
  let c ← sendmeRecordSendingCellDigest digest c
  let c ← sendmeRecordCellDigestOnCirc c
  let edge ← sendmeNoteCircuitDataPackaged nowUsec c.edge
  -- an overspent window closes the circuit
  let c := { c with edge := edge }
  return if congestionControlGetPackageWindow edge < 0 then c.mark else c

/-- `connection_edge_package_raw_inbuf` packages a cell only on an open circuit
with a window. -/
def CanPackage (c : Circuit) : Prop :=
  c.markedForClose = false ∧ 0 < congestionControlGetPackageWindow c.edge

def sendmeRecordReceivedCellDigest (digest : Block 20) (c : Circuit) : Option Circuit := do
  if ← circuitSendmeCellIsNext c.edge.deliverWindow (sendmeGetIncCount c.edge) then
    return { c with sendmeDigest := digest }
  else return c

/-- The loop of `sendme_circuit_consider_sending`: the deliver window it leaves,
and how many SENDMEs it sends.  It does not end where the increment is zero. -/
def considerSending (sendmeInc deliverWindow : ℤ) : ℤ × ℕ :=
  if 0 < sendmeInc ∧ deliverWindow ≤ circwindowStart - sendmeInc then
    let (window, n) := considerSending sendmeInc (deliverWindow + sendmeInc)
    (window, n + 1)
  else (deliverWindow, 0)
termination_by (1000 - deliverWindow).toNat
decreasing_by
  have : circwindowStart = 1000 := rfl
  omega

/-- The payload of `send_circuit_level_sendme`; `emitVersion` is the consensus
minimum. -/
def sendCircuitLevelSendme (emitVersion : UInt8) (cellDigest : Block 20) : Bytes :=
  if emitVersion = 1 then buildCellPayloadV1 cellDigest
  -- an unknown version falls back to version 0, which has no payload
  else []

/-- A DATA cell is received: `circuit_receive_relay_cell` records its digest,
`sendme_circuit_data_received` counts it, `sendme_circuit_consider_sending` answers
with the SENDMEs that are returned. -/
def receiveData (emitVersion : UInt8) (digest : Block 20) (c : Circuit) :
    Option (Circuit × List Bytes) :=
  if c.markedForClose then some (c, [])
  else do
    let c ← sendmeRecordReceivedCellDigest digest c
    let window := c.edge.deliverWindow - 1
    if window < 0 then
      return ({ c with edge := { c.edge with deliverWindow := window } }.mark, [])
    else
      let (window, n) := considerSending (sendmeGetIncCount c.edge) window
      return ({ c with edge := { c.edge with deliverWindow := window } },
        List.replicate n (sendCircuitLevelSendme emitVersion c.sendmeDigest))

/-- `sendme_process_circuit_level`, and whether the SENDME was accepted.  Where it
was not, the circuit is marked by the caller. -/
def sendmeProcessCircuitLevel (env : Env) (acceptVersion : ℤ) (cellPayload : Bytes) (c : Circuit) :
    Option (Bool × Circuit) :=
  if c.markedForClose then some (false, c)
  else
    let (valid, digests) := sendmeIsValid acceptVersion c.sendmeLastDigests cellPayload
    let popped : Circuit := { c with sendmeLastDigests := digests }
    if ¬valid then some (false, popped.mark)
    else
      match c.edge.ccontrol with
      | none =>
        -- a SENDME beyond the start window is the fixed algorithm's only complaint
        if c.edge.packageWindow + circwindowIncrement > circwindowStart then
          some (false, popped.mark)
        else
          some (true, { popped with edge := { c.edge with
            packageWindow := c.edge.packageWindow + circwindowIncrement } })
      | some cc => do
        let cc ← congestionControlDispatchCcAlg env cc
        return (true, { popped with edge := { c.edge with ccontrol := some cc } })

/-! ### One step -/

/-- What sending records: the answer of `circuit_sent_cell_for_sendme` is the same
while the cell is encrypted and when its digest is recorded. -/
theorem relaySendData_eq {c : Circuit} {sent : Bool} {edge : Edge} {nowUsec : ℕ}
    (hsent : circuitSentCellForSendme c.edge = some sent)
    (hedge : sendmeNoteCircuitDataPackaged nowUsec c.edge = some edge) (digest : Block 20) :
    relaySendData digest nowUsec c = some
      { edge := edge
        sendmeLastDigests :=
          if sent then c.sendmeLastDigests ++ [digest] else c.sendmeLastDigests
        sendmeDigest := if sent then digest else c.sendmeDigest
        markedForClose :=
          decide (congestionControlGetPackageWindow edge < 0) || c.markedForClose } := by
  cases sent <;>
  · simp only [relaySendData, sendmeRecordSendingCellDigest, sendmeRecordCellDigestOnCirc, hsent,
      hedge, Option.bind_eq_bind, Option.bind_some, Option.pure_def, if_true, if_false,
      Bool.false_eq_true, Circuit.mark]
    split_ifs with hneg <;> simp [hneg]

theorem noteCircuitDataPackaged_spec {nowUsec : ℕ} {edge edge' : Edge}
    (h : sendmeNoteCircuitDataPackaged nowUsec edge = some edge') :
    edge'.deliverWindow = edge.deliverWindow ∧ sendmeGetIncCount edge' = sendmeGetIncCount edge ∧
      (edge.ccontrol = none → edge'.ccontrol = none ∧
        edge'.packageWindow = edge.packageWindow - 1) := by
  rcases hcc : edge.ccontrol with _ | cc
  · simp only [sendmeNoteCircuitDataPackaged, hcc] at h
    cases h
    exact ⟨rfl, by simp [sendmeGetIncCount, hcc], fun _ => ⟨rfl, rfl⟩⟩
  · simp only [sendmeNoteCircuitDataPackaged, hcc, congestionControlNoteCellSent,
      Option.bind_eq_bind, Option.bind_eq_some_iff] at h
    obtain ⟨cc', ⟨sent, -, hcc'⟩, h⟩ := h
    cases sent <;> cases hcc' <;> cases h <;>
    · exact ⟨rfl, by simp [sendmeGetIncCount, hcc], fun hnone => absurd hnone (by simp)⟩

theorem sendmeIsValid_spec {acceptVersion : ℤ} {digests left : List (Block 20)} {payload : Bytes}
    (h : sendmeIsValid acceptVersion digests payload = (true, left)) :
    ∃ digest, digests = digest :: left := by
  simp only [sendmeIsValid] at h
  split at h
  · cases h
  · -- the payload is parsed: what is left is its version and the list of digests
    rename_i cell _
    by_cases hversion : cellVersionCanBeHandled acceptVersion cell.version
    · rw [if_neg (not_not.mpr hversion)] at h
      rcases digests with _ | ⟨digest, digests⟩
      · cases h
      · refine ⟨digest, ?_⟩
        simp only at h
        split_ifs at h
        · rw [(Prod.mk.inj h).2]
        · rw [(Prod.mk.inj h).2]
    · rw [if_pos hversion] at h
      cases h

theorem sendmeCellParse_build (digest : Block 20) :
    sendmeCellParse (buildCellPayloadV1 digest) = some (⟨1, digest⟩, []) := by
  -- field by field: version, length, data
  have hreads : sendmeCellParse.Reads ([1] ++ (be16 20 ++ (digest.toList ++ []))) ⟨1, digest⟩ := by
    refine (reads_u8 1).bind ?_
    rw [if_neg (by simp)]
    refine (reads_u16 20).bind ((reads_takeN (length_toList_block digest)).bind ?_)
    rw [if_neg (by decide), if_neg (by simp), zeroFill_toList]
    exact Reads.pure _
  simpa [buildCellPayloadV1] using hreads []

/-- The version that is sent where the consensus asks for `emitVersion`. -/
def sentVersion (emitVersion : UInt8) : ℤ := if emitVersion = 1 then 1 else 0

theorem sendmeIsValid_build {acceptVersion : ℤ} (haccept : acceptVersion ≤ 1) (digest : Block 20)
    (digests : List (Block 20)) :
    sendmeIsValid acceptVersion (digest :: digests) (buildCellPayloadV1 digest) =
      (true, digests) := by
  have hversion : cellVersionCanBeHandled acceptVersion 1 = true := by
    rw [cellVersionCanBeHandled, if_neg (not_lt.mpr haccept),
      if_neg (show ¬((UInt8.toNat 1 : ℕ) : ℤ) < acceptVersion from not_lt.mpr haccept)]
    rfl
  have hne : (buildCellPayloadV1 digest).length ≠ 0 := by simp [buildCellPayloadV1]
  simp [sendmeIsValid, hne, sendmeCellParse_build, hversion]

theorem sendmeIsValid_send {acceptVersion : ℤ} {emitVersion : UInt8}
    (haccept : acceptVersion ≤ sentVersion emitVersion) (digest : Block 20)
    (digests : List (Block 20)) :
    sendmeIsValid acceptVersion (digest :: digests) (sendCircuitLevelSendme emitVersion digest) =
      (true, digests) := by
  unfold sentVersion at haccept
  unfold sendCircuitLevelSendme
  split_ifs at haccept ⊢ with hemit
  · exact sendmeIsValid_build haccept digest digests
  · have hversion : cellVersionCanBeHandled acceptVersion 0 = true := by
      rw [cellVersionCanBeHandled, if_neg (show ¬acceptVersion > 1 by omega),
        if_neg (show ¬((UInt8.toNat 0 : ℕ) : ℤ) < acceptVersion from not_lt.mpr haccept)]
      rfl
    simp [sendmeIsValid, hversion]

theorem processCircuitLevel_spec {env : Env} {acceptVersion : ℤ} {payload : Bytes} {c c' : Circuit}
    (h : sendmeProcessCircuitLevel env acceptVersion payload c = some (true, c')) :
    c.markedForClose = false ∧ ∃ digest, c.sendmeLastDigests = digest :: c'.sendmeLastDigests ∧
      c'.markedForClose = false ∧
      ((c.edge.ccontrol = none ∧ c'.edge.ccontrol = none) ∨
        ∃ cc cc', c.edge.ccontrol = some cc ∧ c'.edge.ccontrol = some cc' ∧
          congestionControlDispatchCcAlg env cc = some cc') := by
  unfold sendmeProcessCircuitLevel at h
  -- a marked circuit refuses every SENDME
  have hopen : c.markedForClose = false := by
    by_contra hmarked
    rw [if_pos (by simpa using hmarked)] at h
    cases h
  rw [if_neg (by simp [hopen])] at h
  rcases hvalid : sendmeIsValid acceptVersion c.sendmeLastDigests payload with ⟨valid, digests⟩
  simp only [hvalid] at h
  cases valid with
  | false => cases h
  | true =>
    obtain ⟨digest, hdigest⟩ := sendmeIsValid_spec hvalid
    rw [if_neg (by simp)] at h
    refine ⟨hopen, digest, ?_⟩
    rcases hcc : c.edge.ccontrol with _ | cc
    · simp only [hcc] at h
      split_ifs at h with hfull
      · cases h
      · cases h
        exact ⟨hdigest, hopen, .inl ⟨rfl, rfl⟩⟩
    · simp only [hcc, Option.bind_eq_bind, Option.bind_eq_some_iff] at h
      obtain ⟨cc', hdispatch, h⟩ := h
      cases h
      exact ⟨hdigest, hopen, .inr ⟨cc, cc', rfl, rfl, hdispatch⟩⟩

theorem processCircuitLevel_rejected {env : Env} {acceptVersion : ℤ} {payload : Bytes}
    {c c' : Circuit}
    (h : sendmeProcessCircuitLevel env acceptVersion payload c = some (false, c')) :
    c'.markedForClose = true := by
  unfold sendmeProcessCircuitLevel at h
  by_cases hmarked : c.markedForClose = true
  · rw [if_pos hmarked] at h
    cases h
    exact hmarked
  rw [if_neg hmarked] at h
  rcases hvalid : sendmeIsValid acceptVersion c.sendmeLastDigests payload with ⟨valid, digests⟩
  simp only [hvalid] at h
  cases valid with
  | false =>
    cases h
    rfl
  | true =>
    rw [if_neg (by simp)] at h
    rcases hcc : c.edge.ccontrol with _ | cc
    · simp only [hcc] at h
      split_ifs at h with hfull
      · cases h
        rfl
      · cases h
    · simp only [hcc, Option.bind_eq_bind, Option.bind_eq_some_iff] at h
      obtain ⟨cc', -, h⟩ := h
      cases h

theorem relaySendData_eq_some {c c' : Circuit} {digest : Block 20} {nowUsec : ℕ}
    (h : relaySendData digest nowUsec c = some c') :
    ∃ sent edge, circuitSentCellForSendme c.edge = some sent ∧
      sendmeNoteCircuitDataPackaged nowUsec c.edge = some edge := by
  simp only [relaySendData, sendmeRecordSendingCellDigest, sendmeRecordCellDigestOnCirc,
    Option.bind_eq_bind, Option.bind_eq_some_iff] at h
  obtain ⟨c₁, ⟨sent, hsent, h₁⟩, c₂, ⟨sent', hsent', h₂⟩, edge, hedge, -⟩ := h
  have hedge₁ : c₁.edge = c.edge := by
    cases sent <;> cases h₁ <;> rfl
  have hedge₂ : c₂.edge = c.edge := by
    rw [← hedge₁]
    cases sent' <;> cases h₂ <;> rfl
  rw [hedge₂] at hedge
  exact ⟨sent, edge, hsent, hedge⟩

theorem receiveData_frame {c c' : Circuit} {emitVersion : UInt8} {digest : Block 20}
    {payloads : List Bytes}
    (h : receiveData emitVersion digest c = some (c', payloads)) :
    c'.edge.ccontrol = c.edge.ccontrol ∧ c'.edge.packageWindow = c.edge.packageWindow ∧
      c'.sendmeLastDigests = c.sendmeLastDigests ∧
      (c'.markedForClose = false → c.markedForClose = false) := by
  unfold receiveData at h
  by_cases hmarked : c.markedForClose = true
  · rw [if_pos hmarked] at h
    cases h
    exact ⟨rfl, rfl, rfl, id⟩
  rw [if_neg hmarked] at h
  simp only [sendmeRecordReceivedCellDigest, Option.bind_eq_bind, Option.bind_eq_some_iff] at h
  obtain ⟨c₁, ⟨isNext, -, h₁⟩, h⟩ := h
  have hopen : c.markedForClose = false := by simpa using hmarked
  cases isNext <;> cases h₁ <;>
  · split_ifs at h <;> cases h <;> exact ⟨rfl, rfl, rfl, fun _ => hopen⟩

/-! ### Any SENDMEs -/

/-- An end of a circuit, with the DATA cells it has sent and the SENDMEs it has
accepted. -/
structure Account where
  circuit : Circuit
  sent : ℕ
  accepted : ℕ

inductive Action
  | package (digest : Block 20) (nowUsec : ℕ)
  | data (emitVersion : UInt8) (digest : Block 20)
  | sendme (env : Env) (acceptVersion : ℤ) (cellPayload : Bytes)

def system (ns : Consensus) (params : CircuitParams) (path : CcPath) : System Account Action where
  init s := s = ⟨circuitNew ns params path, 0, 0⟩
  step s a s' :=
    match a with
    | .package digest nowUsec => CanPackage s.circuit ∧
        ∃ c, relaySendData digest nowUsec s.circuit = some c ∧ s' = ⟨c, s.sent + 1, s.accepted⟩
    | .data emitVersion digest => ∃ c payloads,
        receiveData emitVersion digest s.circuit = some (c, payloads) ∧ s' = ⟨c, s.sent, s.accepted⟩
    | .sendme env acceptVersion cellPayload => ∃ accepted c,
        sendmeProcessCircuitLevel env acceptVersion cellPayload s.circuit = some (accepted, c) ∧
          s' = ⟨c, s.sent, if accepted then s.accepted + 1 else s.accepted⟩

/-- The three records of what was sent agree: the cells in flight are those sent
and not acknowledged, they cover the digests, and every digest has its time. -/
structure Covered (cc : CongestionControl) (digests : List (Block 20)) (sent accepted : ℕ) :
    Prop where
  cwnd_lt : cc.cwnd < 2 ^ 64
  inflight_lt : cc.inflight < 2 ^ 64
  balance : cc.inflight + cc.sendmeInc * accepted = sent
  digests_le : cc.sendmeInc * digests.length ≤ cc.inflight
  timestamps : cc.sendmePendingTimestamps.length = digests.length

theorem mul_succ_le_of_notesSendme {cc : CongestionControl} {n : ℕ} (h : NotesSendme cc)
    (hle : cc.sendmeInc * n ≤ cc.inflight) : cc.sendmeInc * (n + 1) ≤ cc.inflight + 1 := by
  obtain ⟨k, hk⟩ := Nat.dvd_of_mod_eq_zero h.2
  have hlt : cc.sendmeInc * n < cc.sendmeInc * k := by omega
  rw [hk]
  exact Nat.mul_le_mul_left _ (Nat.lt_of_mul_lt_mul_left hlt)

theorem Covered.package {c c' : Circuit} {cc : CongestionControl} {digest : Block 20}
    {nowUsec sent accepted : ℕ} (h : Covered cc c.sendmeLastDigests sent accepted)
    (hcc : c.edge.ccontrol = some cc) (hcan : CanPackage c)
    (hstep : relaySendData digest nowUsec c = some c') :
    ∃ cc', c'.edge.ccontrol = some cc' ∧
      Covered cc' c'.sendmeLastDigests (sent + 1) accepted := by
  obtain ⟨sendmeNext, edge, hnext, hedge⟩ := relaySendData_eq_some hstep
  have hdef := circuitSentCellForSendme_eq_some hcc hnext
  -- a cell is packaged below the window, so counting it does not wrap
  have hlt : cc.inflight + 1 < 2 ^ 64 := by
    have hcwnd := h.cwnd_lt
    have hwindow := inflight_lt_cwnd hcc hcan.2
    omega
  have hsent : sendmeNext = decide (NotesSendme cc) := by
    rw [circuitSentCellForSendme_eq hcc hlt hdef] at hnext
    exact (Option.some_inj.mp hnext).symm
  simp only [sendmeNoteCircuitDataPackaged, hcc, noteCellSent_eq hcc hlt hdef, Option.bind_eq_bind,
    Option.bind_some] at hedge
  cases hedge
  rw [relaySendData_eq hnext (by
    simp only [sendmeNoteCircuitDataPackaged, hcc, noteCellSent_eq hcc hlt hdef,
      Option.bind_eq_bind, Option.bind_some]
    rfl) digest] at hstep
  cases hstep
  refine ⟨_, rfl, ?_⟩
  have hbalance := h.balance
  have hle := h.digests_le
  have htimes := h.timestamps
  -- one case of the source decides the digest and the timestamp, so the lists
  -- grow together or not at all
  by_cases hnotes : NotesSendme cc
  · have hmul := mul_succ_le_of_notesSendme hnotes hle
    simp only [hsent, hnotes, decide_true, if_true]
    refine ⟨h.cwnd_lt, hlt, ?_, ?_, ?_⟩
    · show cc.inflight + 1 + cc.sendmeInc * accepted = sent + 1
      omega
    · show cc.sendmeInc * (c.sendmeLastDigests ++ [digest]).length ≤ cc.inflight + 1
      rwa [List.length_append, List.length_singleton]
    · simp only [List.length_append, List.length_singleton, htimes]
  · simp only [hsent, hnotes, decide_false, if_false, Bool.false_eq_true]
    refine ⟨h.cwnd_lt, hlt, ?_, ?_, htimes⟩
    · show cc.inflight + 1 + cc.sendmeInc * accepted = sent + 1
      omega
    · show cc.sendmeInc * c.sendmeLastDigests.length ≤ cc.inflight + 1
      omega

theorem Covered.sendme {env : Env} {cc cc' : CongestionControl} {digest : Block 20}
    {digests : List (Block 20)} {sent accepted : ℕ}
    (h : Covered cc (digest :: digests) sent accepted)
    (hstep : congestionControlDispatchCcAlg env cc = some cc') :
    cc.sendmeInc ≤ cc.inflight ∧ cc'.inflight = cc.inflight - cc.sendmeInc ∧
      Covered cc' digests sent (accepted + 1) := by
  obtain ⟨-, htimes, hinflight, hinc, hcwnd⟩ := dispatch_spec hstep
  obtain ⟨-, hmax⟩ := cwndMax_mem env
  -- the digest that is taken stands for an increment in flight, so taking it off
  -- does not wrap
  have hle := h.digests_le
  rw [List.length_cons, Nat.mul_succ] at hle
  have hbalance := h.balance
  have htaken : cc.sendmeInc ≤ cc.inflight := by omega
  have hstored : cc'.inflight = cc.inflight - cc.sendmeInc := by
    have hlt := h.inflight_lt
    have hu64 : (cc'.inflight : ℤ) = cc.inflight - cc.sendmeInc := by
      rw [hinflight]
      exact Word.u64_of_mem (by omega) (by omega)
    omega
  have hlt := h.inflight_lt
  refine ⟨htaken, hstored, by omega, by omega, ?_, ?_, ?_⟩
  · rw [hinc, hstored, Nat.mul_succ]
    omega
  · rw [hinc, hstored]
    omega
  · rw [htimes, List.length_tail, h.timestamps, List.length_cons, Nat.add_sub_cancel]

def Accounted (s : Account) : Prop :=
  s.circuit.markedForClose = false →
    ∃ cc, s.circuit.edge.ccontrol = some cc ∧
      Covered cc s.circuit.sendmeLastDigests s.sent s.accepted

theorem accounted_inductive {ns : Consensus} {params : CircuitParams} {path : CcPath}
    (hen : params.ccEnabled) :
    Inductive (system ns params path) (fun _ _ => True) Accounted where
  init := by
    rintro s rfl -
    refine ⟨congestionControlNew ns params path, by simp [circuitNew, hen], ?_⟩
    exact ⟨Word.wrap_lt 64 _, Nat.two_pow_pos 64, by simp [congestionControlNew], by simp [circuitNew], rfl⟩
  step := by
    rintro s a s' h - hstep
    cases a with
    | package digest nowUsec =>
      obtain ⟨hcan, c, hsend, rfl⟩ := hstep
      intro _
      obtain ⟨cc, hcc, hcovered⟩ := h hcan.1
      exact hcovered.package hcc hcan hsend
    | data emitVersion digest =>
      obtain ⟨c, payloads, hreceive, rfl⟩ := hstep
      obtain ⟨hsame, -, hdigests, hopen⟩ := receiveData_frame hreceive
      intro hmarked
      obtain ⟨cc, hcc, hcovered⟩ := h (hopen hmarked)
      refine ⟨cc, hsame.trans hcc, ?_⟩
      rwa [hdigests]
    | sendme env acceptVersion cellPayload =>
      obtain ⟨accepted, c, hprocess, rfl⟩ := hstep
      intro hmarked
      cases accepted with
      -- a refused SENDME marks the circuit, and nothing is asked of a marked one
      | false =>
        have hmarked : c.markedForClose = false := hmarked
        rw [processCircuitLevel_rejected hprocess] at hmarked
        cases hmarked
      | true =>
        obtain ⟨hopen, digest, hdigest, -, hnone | ⟨cc, cc', hcc, hcc', hdispatch⟩⟩ :=
          processCircuitLevel_spec hprocess
        · -- this circuit has congestion control, so the fixed algorithm did not answer
          obtain ⟨cc, hcc, -⟩ := h hopen
          rw [hnone.1] at hcc
          cases hcc
        · obtain ⟨cc₀, hcc₀, hcovered⟩ := h hopen
          rw [hcc] at hcc₀
          cases hcc₀
          rw [hdigest] at hcovered
          exact ⟨cc', hcc', (hcovered.sendme hdispatch).2.2⟩

/-- A circuit whose SENDMEs acknowledge two cells, with `n` cells sent. -/
def sampleCircuit (n : ℕ) : Circuit :=
  let c := circuitNew (fun _ => none) ⟨true, 2⟩ .exit
  { c with
    edge := { c.edge with
      ccontrol := some { congestionControlNew (fun _ => none) ⟨true, 2⟩ .exit with
        inflight := n
        sendmePendingTimestamps := List.replicate (n / 2) 0 } }
    sendmeLastDigests := List.replicate (n / 2) (zeroFill 20 []) }

end Sendme
