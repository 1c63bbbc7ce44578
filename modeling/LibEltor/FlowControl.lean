/-
Flow control of a stream (`core/or/congestion_control_flow.c`).

The side that gets data buffers what its socket does not take.  It sends XOFF when the
buffer is over a limit, XON when it has drained, and further XONs when the rate of
draining changes.  The side that sends data counts the bytes, and takes an XOFF or XON as
a violation where more have come than the bytes could have caused.
-/
import LibEltor.CongestionControl
import LibEltor.Vegas

open Word CongestionControl Vegas

namespace FlowControl

/-! ### Parameters -/

abbrev relayPayloadSize : ℕ := 2048 - (1 + 2 + 2 + 4 + 2)

/-- The cached parameters; `xoffClient`, `xoffExit` and `xonRateBytes` are in bytes. -/
structure FlowParams where
  xoffClient : ℕ
  xoffExit : ℕ
  xonChangePct : ℕ
  xonRateBytes : ℕ
  xonEwmaCnt : ℕ

def flowControlNewConsensusParams (ns : Consensus) : FlowParams where
  xoffClient := u32 (networkstatusGetParam ns .ccXoffClient 500 1 10000 * relayPayloadSize)
  xoffExit := u32 (networkstatusGetParam ns .ccXoffExit 500 1 10000 * relayPayloadSize)
  xonChangePct := u32 (networkstatusGetParam ns .ccXonChangePct 25 1 99)
  xonRateBytes := u32 (networkstatusGetParam ns .ccXonRate 500 1 5000 * relayPayloadSize)
  xonEwmaCnt := u32 (networkstatusGetParam ns .ccXonEwmaCnt 2 2 100)

/-- What an end of a stream is: whether it is of type `CONN_TYPE_AP`, and has an `hs_ident`. -/
inductive EdgeKind
  | client | exit | onionClient | onionService
  deriving DecidableEq

def EdgeKind.isAp : EdgeKind → Bool
  | .client | .onionClient => true
  | .exit | .onionService => false

def EdgeKind.hsIdent : EdgeKind → Bool
  | .onionClient | .onionService => true
  | .client | .exit => false

def EdgeKind.peer : EdgeKind → EdgeKind
  | .client => .exit
  | .exit => .client
  | .onionClient => .onionService
  | .onionService => .onionClient

def bufferLimitXoff (params : FlowParams) (kind : EdgeKind) : ℕ :=
  if kind.isAp || kind.hsIdent then params.xoffClient else params.xoffExit

def checksLimits (kind : EdgeKind) : Bool := kind.isAp || kind.hsIdent

def xoffLimit (params : FlowParams) (kind : EdgeKind) : ℕ :=
  if kind.hsIdent then params.xoffClient else params.xoffExit

def xonLimit (params : FlowParams) (kind : EdgeKind) : ℕ :=
  min (xoffLimit params kind) params.xonRateBytes

/-! ### The side that sends data -/

abbrev xonCountScaleAt : ℕ := 200
abbrev xoffCountScaleAt : ℕ := 200

abbrev totalXmitScaleAt : ℕ := 10 * 2 ^ 20

/-- The fields of `edge_connection_t` that count what was sent. -/
structure XmitEdge where
  totalBytesXmit : ℕ
  numXoffRecv : ℕ
  numXonRecv : ℕ
  xoffReceived : Bool
  deriving DecidableEq

def XmitEdge.halve (conn : XmitEdge) : XmitEdge :=
  { conn with
    totalBytesXmit := conn.totalBytesXmit / 2
    numXoffRecv := conn.numXoffRecv / 2
    numXonRecv := conn.numXonRecv / 2 }

def flowControlNoteSentData (conn : XmitEdge) (len : ℕ) : XmitEdge :=
  let conn := if conn.totalBytesXmit ≥ totalXmitScaleAt - len then conn.halve else conn
  { conn with totalBytesXmit := u32 (conn.totalBytesXmit + len) }

/-- `circuit_process_stream_xoff`, from the right hop of a circuit with congestion control. -/
def circuitProcessStreamXoff (params : FlowParams) (kind : EdgeKind) (conn : XmitEdge) :
    XmitEdge × Bool :=
  if conn.xoffReceived then (conn, false)
  else
    let conn := if conn.numXoffRecv = xoffCountScaleAt then conn.halve else conn
    let conn := { conn with numXoffRecv := u8 (conn.numXoffRecv + 1) }
    let retval := !(checksLimits kind &&
      decide (conn.totalBytesXmit < u32 (xoffLimit params kind * conn.numXoffRecv)))
    ({ conn with xoffReceived := true }, retval)

/-- `circuit_process_stream_xon`, likewise; what it does to the rate of reading is left out. -/
def circuitProcessStreamXon (params : FlowParams) (kind : EdgeKind) (conn : XmitEdge) :
    XmitEdge × Bool :=
  let conn := if conn.numXonRecv = xonCountScaleAt then conn.halve else conn
  let conn := { conn with numXonRecv := u8 (conn.numXonRecv + 1) }
  let retval := !(checksLimits kind &&
    decide (conn.totalBytesXmit < u32 (xonLimit params kind * conn.numXonRecv)))
  ({ conn with xoffReceived := false }, retval)

/-! ### The side that gets data -/

/-- What an XOFF or XON cell says. -/
inductive Control
  | xoff
  | xon (kbpsEwma : ℕ)
  deriving DecidableEq

/-- The fields of `edge_connection_t` about what comes in; `outbuf` is the length of the buffer. -/
structure RecvEdge where
  outbuf : ℕ
  drainedBytes : ℕ
  prevDrainedBytes : ℕ
  drainStartUsec : ℕ
  ewmaDrainRate : ℕ
  ewmaRateLastSent : ℕ
  xoffSent : Bool
  deriving DecidableEq

/-- `is_monotime_clock_reliable` and `monotime_absolute_usec` -/
structure Clock where
  reliable : Bool
  now : ℕ

abbrev int32MaxNat : ℕ := 2 ^ 31 - 1
abbrev maxExpectedCellBurst : ℕ := 32

variable (params : FlowParams) (clock : Clock) (stream : RecvEdge)

def computeDrainRate : ℕ :=
  let delta := u64 (clock.now - stream.drainStartUsec)
  if !clock.reliable then 0
  else if delta = 0 then 0
  else if stream.prevDrainedBytes > int32MaxNat / 1000 ∨
      stream.prevDrainedBytes / delta > int32MaxNat / 1000 then int32MaxNat
  else u32 (max 1 (u32 (stream.prevDrainedBytes * 1000) / delta : ℕ))

def streamDrainRateChanged : Bool :=
  if !clock.reliable then false
  else if stream.ewmaRateLastSent = 0 then false
  else
    decide (stream.ewmaDrainRate > (100 + params.xonChangePct) * stream.ewmaRateLastSent / 100) ||
      decide (stream.ewmaDrainRate < (100 - params.xonChangePct) * stream.ewmaRateLastSent / 100)

def circuitSendStreamXon : RecvEdge × List Control :=
  ({ stream with ewmaRateLastSent := stream.ewmaDrainRate, xoffSent := false },
    [.xon stream.ewmaDrainRate])

/-- `flow_control_decide_xon`: the count of drained bytes is kept in its type. -/
def boundDrained (nWritten : ℕ) : RecvEdge :=
  if stream.drainedBytes ≥ u64 (2 ^ 32 - 1 - nWritten) then
    { stream with
      drainedBytes := stream.drainedBytes / 2
      drainStartUsec :=
        if stream.drainStartUsec = 0 then 0
        else u64 (clock.now - (u64 (clock.now - stream.drainStartUsec) / 2 : ℕ)) }
  else stream

/-- The bytes are added, and the time of draining begins where the buffer is not empty. -/
def noteDrained (nWritten : ℕ) : RecvEdge :=
  { stream with drainedBytes := u32 (stream.drainedBytes + nWritten) }

def startDrain : RecvEdge :=
  if !clock.reliable then { stream with drainStartUsec := 0, drainedBytes := 0 }
  else if stream.drainStartUsec = 0 ∧ stream.outbuf > 0 then
    { stream with drainStartUsec := clock.now, drainedBytes := 0 }
  else stream

def updateDrainRate : RecvEdge :=
  if stream.drainStartUsec ≠ 0 ∧ stream.drainedBytes > params.xonRateBytes then
    let stream := if stream.prevDrainedBytes = 0 then
        { stream with prevDrainedBytes := stream.drainedBytes }
      else stream
    let drainRate := computeDrainRate clock stream
    let stream := { stream with prevDrainedBytes := stream.drainedBytes }
    if drainRate = 0 then stream
    else
      { stream with
        ewmaDrainRate := u32 (nCountEwma drainRate stream.ewmaDrainRate params.xonEwmaCnt)
        drainedBytes := 0
        drainStartUsec := 0 }
  else stream

/-- An XON for a rate that changed, or for an empty buffer after an XOFF. -/
def considerXon : RecvEdge × List Control :=
  if !stream.xoffSent then
    if streamDrainRateChanged params clock stream then circuitSendStreamXon stream else (stream, [])
  else if stream.outbuf = 0 then circuitSendStreamXon stream
  else (stream, [])

def clearDrainStart : RecvEdge :=
  if stream.outbuf = 0 then { stream with drainStartUsec := 0 } else stream

def doubleDrainRate : RecvEdge :=
  if stream.outbuf = 0 ∧ stream.drainedBytes ≥ params.xonRateBytes ∧ stream.ewmaRateLastSent ≠ 0 then
    { stream with
      ewmaDrainRate := min int32MaxNat (u32 (2 * stream.ewmaDrainRate))
      prevDrainedBytes := stream.drainedBytes
      drainedBytes := 0 }
  else stream

def flowControlDecideXon (nWritten : ℕ) : RecvEdge × List Control :=
  let stream := noteDrained (boundDrained clock stream nWritten) nWritten
  let stream := updateDrainRate params clock (startDrain clock stream)
  let (stream, sent) := considerXon params clock stream
  (doubleDrainRate params (clearDrainStart stream), sent)

def flowControlDecideXoff (kind : EdgeKind) : RecvEdge × List Control :=
  let (stream, sent) :=
    if stream.outbuf > bufferLimitXoff params kind ∧ stream.xoffSent = false then
      ({ stream with xoffSent := true, ewmaDrainRate := 0 }, [Control.xoff])
    else (stream, [])
  if stream.outbuf > maxExpectedCellBurst * relayPayloadSize then
    let (stream, xons) := flowControlDecideXon params clock stream 0
    (stream, sent ++ xons)
  else (stream, sent)

/-! ### What the counted bytes pay for -/

variable {params clock stream} {m C extra : ℕ}

/-- The rate that was last sent once the XON that is due has been sent. -/
def RecvEdge.rate (stream : RecvEdge) : ℕ :=
  if stream.xoffSent then stream.ewmaDrainRate else stream.ewmaRateLastSent

def RecvEdge.credit (stream : RecvEdge) : ℕ :=
  if stream.drainStartUsec = 0 ∧ stream.rate = 0 then 0 else stream.drainedBytes

/-- `C` bytes cover what is buffered, what has drained for the next XON, `extra` bytes about to be
counted as drained, and an XON of price `m` that is due: after an XOFF, or for a rate. -/
def OnCovered (m C extra : ℕ) (stream : RecvEdge) : Prop :=
  if stream.xoffSent then
    m ≤ C ∧ stream.outbuf + stream.credit + extra ≤ C ∧
      (stream.ewmaDrainRate ≠ 0 → stream.outbuf + stream.credit + extra + m ≤ C)
  else
    stream.outbuf + stream.credit + extra +
      (if stream.ewmaRateLastSent ≠ 0 ∧ stream.ewmaDrainRate ≠ stream.ewmaRateLastSent then m else 0) ≤ C

/-- `C` bytes cover what is buffered beyond the limit after an XOFF. -/
def OffCovered (limit C : ℕ) (stream : RecvEdge) : Prop :=
  if stream.xoffSent then stream.outbuf ≤ C + limit else stream.outbuf ≤ C

theorem RecvEdge.credit_le (stream : RecvEdge) : stream.credit ≤ stream.drainedBytes := by
  unfold RecvEdge.credit
  split_ifs
  · exact Nat.zero_le _
  · exact le_rfl

theorem RecvEdge.credit_le_add {stream' : RecvEdge} {n : ℕ}
    (hstart : stream.drainStartUsec = 0 → stream'.drainStartUsec = 0)
    (hrate : stream.rate = 0 → stream'.rate = 0)
    (hle : stream'.drainedBytes ≤ stream.drainedBytes + n) : stream'.credit ≤ stream.credit + n := by
  by_cases hnone : stream.drainStartUsec = 0 ∧ stream.rate = 0
  · have h0 : stream'.credit = 0 := by
      rw [RecvEdge.credit, if_pos ⟨hstart hnone.1, hrate hnone.2⟩]
    omega
  · have hcredit : stream.credit = stream.drainedBytes := by rw [RecvEdge.credit, if_neg hnone]
    have hle' := stream'.credit_le
    omega

theorem OnCovered.of_credit {stream' : RecvEdge} {extra' : ℕ} (h : OnCovered m C extra stream)
    (hout : stream'.outbuf = stream.outbuf) (hsent : stream'.xoffSent = stream.xoffSent)
    (hewma : stream'.ewmaDrainRate = stream.ewmaDrainRate)
    (hlast : stream'.ewmaRateLastSent = stream.ewmaRateLastSent)
    (hcredit : stream'.credit + extra' ≤ stream.credit + extra) : OnCovered m C extra' stream' := by
  unfold OnCovered at h ⊢
  rw [hout, hsent, hewma, hlast]
  split_ifs at h ⊢
  · obtain ⟨h1, h2, h3⟩ := h
    exact ⟨h1, by omega, fun hne => by have := h3 hne; omega⟩
  · omega
  · omega

theorem OnCovered.of_outbuf {C' extra' outbuf : ℕ} (h : OnCovered m C extra stream) (hC : C ≤ C')
    (hle : outbuf + extra' + C ≤ stream.outbuf + extra + C') :
    OnCovered m C' extra' { stream with outbuf := outbuf } := by
  have hcredit : RecvEdge.credit { stream with outbuf := outbuf } = stream.credit := rfl
  unfold OnCovered at h ⊢
  rw [hcredit]
  dsimp only
  split_ifs at h ⊢
  · obtain ⟨h1, h2, h3⟩ := h
    exact ⟨by omega, by omega, fun hne => by have := h3 hne; omega⟩
  · omega
  · omega

theorem OnCovered.of_paid (hpaid : stream.outbuf + m ≤ C) (hcredit : stream.credit = 0) :
    OnCovered m C 0 stream := by
  unfold OnCovered
  rw [hcredit]
  split_ifs
  · exact ⟨by omega, by omega, fun _ => by omega⟩
  · omega
  · omega

theorem OnCovered.buffered (h : OnCovered m C extra stream) :
    stream.outbuf + stream.credit + extra ≤ C := by
  unfold OnCovered at h
  split_ifs at h
  · exact h.2.1
  · omega
  · omega

theorem onCovered_boundDrained (clock : Clock) (h : OnCovered m C extra stream) (n : ℕ) :
    OnCovered m C extra (boundDrained clock stream n) := by
  by_cases hbound : stream.drainedBytes ≥ u64 (2 ^ 32 - 1 - n)
  · rw [boundDrained, if_pos hbound]
    refine h.of_credit rfl rfl rfl rfl (Nat.add_le_add_right ?_ extra)
    exact RecvEdge.credit_le_add (n := 0) (fun h0 => if_pos h0) id (Nat.div_le_self _ 2)
  · rw [boundDrained, if_neg hbound]
    exact h

theorem onCovered_noteDrained {n : ℕ} (h : OnCovered m C n stream) :
    OnCovered m C 0 (noteDrained stream n) := by
  refine h.of_credit rfl rfl rfl rfl ?_
  refine RecvEdge.credit_le_add id id ?_
  exact_mod_cast wrap_natCast_le 32 (stream.drainedBytes + n)

theorem onCovered_startDrain (clock : Clock) (h : OnCovered m C 0 stream) :
    OnCovered m C 0 (startDrain clock stream) := by
  unfold startDrain
  split_ifs
  · exact h.of_credit rfl rfl rfl rfl (by simp [RecvEdge.credit])
  · exact h.of_credit rfl rfl rfl rfl (by simp [RecvEdge.credit])
  · exact h

theorem onCovered_updateDrainRate (clock : Clock) (hm : m ≤ params.xonRateBytes)
    (h : OnCovered m C 0 stream) :
    OnCovered m C 0 (updateDrainRate params clock stream) := by
  by_cases hdue : stream.drainStartUsec ≠ 0 ∧ stream.drainedBytes > params.xonRateBytes
  · have hcredit : stream.credit = stream.drainedBytes := by
      rw [RecvEdge.credit, if_neg fun h0 => hdue.1 h0.1]
    have hpaid : stream.outbuf + m ≤ C := by
      have := h.buffered
      omega
    rw [updateDrainRate, if_pos hdue]
    dsimp only
    split_ifs
    · exact h.of_credit rfl rfl rfl rfl le_rfl
    · exact OnCovered.of_paid hpaid (by simp [RecvEdge.credit])
    · exact h.of_credit rfl rfl rfl rfl le_rfl
    · exact OnCovered.of_paid hpaid (by simp [RecvEdge.credit])
  · rw [updateDrainRate, if_neg hdue]
    exact h

theorem ne_of_streamDrainRateChanged (h : streamDrainRateChanged params clock stream = true) :
    stream.ewmaRateLastSent ≠ 0 ∧ stream.ewmaDrainRate ≠ stream.ewmaRateLastSent := by
  unfold streamDrainRateChanged at h
  split_ifs at h with h1 h2
  refine ⟨h2, fun heq => ?_⟩
  rw [heq] at h
  have hup : stream.ewmaRateLastSent ≤ (100 + params.xonChangePct) * stream.ewmaRateLastSent / 100 := by
    rw [Nat.le_div_iff_mul_le (by norm_num), Nat.mul_comm]
    exact Nat.mul_le_mul_right _ (by omega)
  have hdown : (100 - params.xonChangePct) * stream.ewmaRateLastSent / 100 ≤ stream.ewmaRateLastSent := by
    refine Nat.div_le_of_le_mul ?_
    exact Nat.mul_le_mul_right _ (by omega)
  simp only [Bool.or_eq_true, decide_eq_true_eq] at h
  omega

def numXon (sent : List Control) : ℕ := (sent.filter (· != .xoff)).length
def numXoff (sent : List Control) : ℕ := (sent.filter (· == .xoff)).length

theorem RecvEdge.credit_clearDrainStart_le (stream : RecvEdge) :
    (clearDrainStart stream).credit ≤ stream.credit := by
  unfold clearDrainStart
  split_ifs
  · exact RecvEdge.credit_le_add (n := 0) (fun _ => rfl) id le_rfl
  · exact le_rfl

theorem onCovered_clearDrainStart (h : OnCovered m C 0 stream) :
    OnCovered m C 0 (clearDrainStart stream) := by
  have hcredit := stream.credit_clearDrainStart_le
  refine h.of_credit ?_ ?_ ?_ ?_ hcredit
  all_goals
    unfold clearDrainStart
    split_ifs <;> rfl

theorem onCovered_sent (hrest : stream.outbuf + stream.drainedBytes ≤ C ∨
      (stream.outbuf = 0 ∧ stream.ewmaDrainRate = 0)) :
    OnCovered m C 0 (clearDrainStart (circuitSendStreamXon stream).1) := by
  rcases hrest with hrest | ⟨hout, hewma⟩
  · refine onCovered_clearDrainStart ?_
    have hle := RecvEdge.credit_le (circuitSendStreamXon stream).1
    have hpaid : stream.outbuf + (circuitSendStreamXon stream).1.credit ≤ C :=
      (Nat.add_le_add_left hle _).trans hrest
    simpa [OnCovered, circuitSendStreamXon] using hpaid
  · simp [OnCovered, clearDrainStart, circuitSendStreamXon, RecvEdge.credit, RecvEdge.rate, hout, hewma]

theorem onCovered_considerXon (params : FlowParams) (clock : Clock) (h : OnCovered m C 0 stream) :
    m * numXon (considerXon params clock stream).2 ≤ C ∧
      OnCovered m (C - m * numXon (considerXon params clock stream).2) 0
        (clearDrainStart (considerXon params clock stream).1) := by
  have hone : m * numXon (circuitSendStreamXon stream).2 = m := by simp [numXon, circuitSendStreamXon]
  have hnil : m * numXon [] = 0 := rfl
  cases hsent : stream.xoffSent with
  | false =>
    by_cases hchanged : streamDrainRateChanged params clock stream = true
    · obtain ⟨hlast, hne⟩ := ne_of_streamDrainRateChanged hchanged
      have heq : considerXon params clock stream = circuitSendStreamXon stream := by
        simp [considerXon, hsent, hchanged]
      have hcredit : stream.credit = stream.drainedBytes := by
        rw [RecvEdge.credit, if_neg fun h0 => hlast (by simpa [RecvEdge.rate, hsent] using h0.2)]
      have hpaid : stream.outbuf + stream.drainedBytes + m ≤ C := by
        simp only [OnCovered, hsent, Bool.false_eq_true, if_false, if_pos (And.intro hlast hne),
          hcredit] at h
        omega
      rw [heq, hone]
      exact ⟨by omega, onCovered_sent (.inl (by omega))⟩
    · have heq : considerXon params clock stream = (stream, []) := by
        simp [considerXon, hsent, hchanged]
      rw [heq, hnil]
      exact ⟨Nat.zero_le _, onCovered_clearDrainStart h⟩
  | true =>
    have hxoff : m ≤ C ∧ (stream.ewmaDrainRate ≠ 0 → stream.outbuf + stream.credit + m ≤ C) := by
      simp only [OnCovered, hsent, if_true] at h
      exact ⟨h.1, h.2.2⟩
    by_cases hout : stream.outbuf = 0
    · have heq : considerXon params clock stream = circuitSendStreamXon stream := by
        simp [considerXon, hsent, hout]
      rw [heq, hone]
      refine ⟨hxoff.1, onCovered_sent ?_⟩
      by_cases hewma : stream.ewmaDrainRate = 0
      · exact .inr ⟨hout, hewma⟩
      · have hcredit : stream.credit = stream.drainedBytes := by
          rw [RecvEdge.credit, if_neg fun h0 => hewma (by simpa [RecvEdge.rate, hsent] using h0.2)]
        have := hxoff.2 hewma
        exact .inl (by omega)
    · have heq : considerXon params clock stream = (stream, []) := by
        simp [considerXon, hsent, hout]
      rw [heq, hnil]
      exact ⟨Nat.zero_le _, onCovered_clearDrainStart h⟩

theorem onCovered_doubleDrainRate (hm : m ≤ params.xonRateBytes) (h : OnCovered m C 0 stream) :
    OnCovered m C 0 (doubleDrainRate params stream) := by
  by_cases hdue : stream.outbuf = 0 ∧ stream.drainedBytes ≥ params.xonRateBytes ∧
      stream.ewmaRateLastSent ≠ 0
  · rw [doubleDrainRate, if_pos hdue]
    refine OnCovered.of_paid ?_ (by simp [RecvEdge.credit])
    show stream.outbuf + m ≤ C
    cases hsent : stream.xoffSent with
    | true =>
      simp only [OnCovered, hsent, if_true] at h
      omega
    | false =>
      have hcredit : stream.credit = stream.drainedBytes := by
        rw [RecvEdge.credit, if_neg fun h0 => hdue.2.2 (by simpa [RecvEdge.rate, hsent] using h0.2)]
      have := h.buffered
      omega
  · rw [doubleDrainRate, if_neg hdue]
    exact h

theorem onCovered_decideXon {n : ℕ} (hm : m ≤ params.xonRateBytes) (h : OnCovered m C n stream) :
    m * numXon (flowControlDecideXon params clock stream n).2 ≤ C ∧
      OnCovered m (C - m * numXon (flowControlDecideXon params clock stream n).2) 0
        (flowControlDecideXon params clock stream n).1 := by
  have hnoted := onCovered_noteDrained (onCovered_boundDrained clock h n)
  have hupdated := onCovered_updateDrainRate clock hm (onCovered_startDrain clock hnoted)
  obtain ⟨hcost, hrest⟩ := onCovered_considerXon params clock hupdated
  exact ⟨hcost, onCovered_doubleDrainRate hm hrest⟩

theorem counted_frame (params : FlowParams) (clock : Clock) (stream : RecvEdge) (n : ℕ) :
    (updateDrainRate params clock
        (startDrain clock (noteDrained (boundDrained clock stream n) n))).outbuf = stream.outbuf ∧
      (updateDrainRate params clock
        (startDrain clock (noteDrained (boundDrained clock stream n) n))).xoffSent = stream.xoffSent := by
  have hbound : ∀ s, (boundDrained clock s n).outbuf = s.outbuf ∧
      (boundDrained clock s n).xoffSent = s.xoffSent := by
    intro s
    unfold boundDrained
    split <;> exact ⟨rfl, rfl⟩
  have hstart : ∀ s, (startDrain clock s).outbuf = s.outbuf ∧
      (startDrain clock s).xoffSent = s.xoffSent := by
    intro s
    unfold startDrain
    split
    · exact ⟨rfl, rfl⟩
    · split <;> exact ⟨rfl, rfl⟩
  have hupdate : ∀ s, (updateDrainRate params clock s).outbuf = s.outbuf ∧
      (updateDrainRate params clock s).xoffSent = s.xoffSent := by
    intro s
    unfold updateDrainRate
    dsimp only
    split_ifs <;> exact ⟨rfl, rfl⟩
  obtain ⟨hb1, hb2⟩ := hbound stream
  obtain ⟨hs1, hs2⟩ := hstart (noteDrained (boundDrained clock stream n) n)
  obtain ⟨hu1, hu2⟩ := hupdate (startDrain clock (noteDrained (boundDrained clock stream n) n))
  exact ⟨hu1.trans (hs1.trans hb1), hu2.trans (hs2.trans hb2)⟩

theorem finished_frame (params : FlowParams) (stream : RecvEdge) :
    (doubleDrainRate params (clearDrainStart stream)).outbuf = stream.outbuf ∧
      (doubleDrainRate params (clearDrainStart stream)).xoffSent = stream.xoffSent := by
  have hclear : (clearDrainStart stream).outbuf = stream.outbuf ∧
      (clearDrainStart stream).xoffSent = stream.xoffSent := by
    unfold clearDrainStart
    split <;> exact ⟨rfl, rfl⟩
  unfold doubleDrainRate
  split <;> exact hclear

theorem decideXon_sent (params : FlowParams) (clock : Clock) (stream : RecvEdge) (n : ℕ) :
    (flowControlDecideXon params clock stream n).1.outbuf = stream.outbuf ∧
      (((flowControlDecideXon params clock stream n).2 = [] ∧
          (flowControlDecideXon params clock stream n).1.xoffSent = stream.xoffSent) ∨
        ∃ k, (flowControlDecideXon params clock stream n).2 = [.xon k] ∧
          (flowControlDecideXon params clock stream n).1.xoffSent = false ∧
          (stream.xoffSent = true → stream.outbuf = 0)) := by
  obtain ⟨hout, hsent⟩ := counted_frame params clock stream n
  simp only [flowControlDecideXon]
  generalize updateDrainRate params clock
    (startDrain clock (noteDrained (boundDrained clock stream n) n)) = counted at hout hsent ⊢
  obtain ⟨hfout, hfsent⟩ := finished_frame params (considerXon params clock counted).1
  rw [hfout, hfsent]
  unfold considerXon
  split_ifs with h1 h2 h3
  · refine ⟨hout, .inr ⟨_, rfl, rfl, fun h => ?_⟩⟩
    rw [hsent, h] at h1
    exact absurd h1 (by simp)
  · exact ⟨hout, .inl ⟨rfl, hsent⟩⟩
  · exact ⟨hout, .inr ⟨_, rfl, rfl, fun _ => hout.symm.trans h3⟩⟩
  · exact ⟨hout, .inl ⟨rfl, hsent⟩⟩

theorem decideXoff_sent (params : FlowParams) (clock : Clock) (stream : RecvEdge) (kind : EdgeKind) :
    (flowControlDecideXoff params clock stream kind).1.outbuf = stream.outbuf ∧
      (((flowControlDecideXoff params clock stream kind).2 = [.xoff] ∧
          (flowControlDecideXoff params clock stream kind).1.xoffSent = true ∧
          stream.xoffSent = false ∧ bufferLimitXoff params kind < stream.outbuf) ∨
        ((flowControlDecideXoff params clock stream kind).2 = [] ∧
          (flowControlDecideXoff params clock stream kind).1.xoffSent = stream.xoffSent) ∨
        ∃ k, (flowControlDecideXoff params clock stream kind).2 = [.xon k] ∧
          (flowControlDecideXoff params clock stream kind).1.xoffSent = false ∧
          (stream.xoffSent = true → stream.outbuf = 0)) := by
  unfold flowControlDecideXoff
  by_cases hover : stream.outbuf > bufferLimitXoff params kind ∧ stream.xoffSent = false
  · rw [if_pos hover]
    dsimp only
    split_ifs with hburst
    · obtain ⟨hout, hsent⟩ :=
        decideXon_sent params clock { stream with xoffSent := true, ewmaDrainRate := 0 } 0
      refine ⟨hout, .inl ?_⟩
      rcases hsent with ⟨hnil, hkeep⟩ | ⟨k, -, -, hempty⟩
      · exact ⟨by rw [hnil]; rfl, hkeep, hover.2, hover.1⟩
      · have hzero : stream.outbuf = 0 := hempty rfl
        have := hover.1
        omega
    · exact ⟨rfl, .inl ⟨rfl, rfl, hover.2, hover.1⟩⟩
  · rw [if_neg hover]
    dsimp only
    split_ifs with hburst
    · obtain ⟨hout, hsent⟩ := decideXon_sent params clock stream 0
      exact ⟨hout, .inr hsent⟩
    · exact ⟨rfl, .inr (.inl ⟨rfl, rfl⟩)⟩

theorem onCovered_decideXoff {kind : EdgeKind} (hm : m ≤ params.xonRateBytes)
    (hlimit : m ≤ bufferLimitXoff params kind) (h : OnCovered m C 0 stream) :
    m * numXon (flowControlDecideXoff params clock stream kind).2 ≤ C ∧
      OnCovered m (C - m * numXon (flowControlDecideXoff params clock stream kind).2) 0
        (flowControlDecideXoff params clock stream kind).1 := by
  unfold flowControlDecideXoff
  by_cases hover : stream.outbuf > bufferLimitXoff params kind ∧ stream.xoffSent = false
  · have hbuffered := h.buffered
    have hcredit : RecvEdge.credit { stream with xoffSent := true, ewmaDrainRate := 0 } ≤ stream.credit :=
      RecvEdge.credit_le_add (n := 0) id (fun _ => rfl) le_rfl
    have hoff : OnCovered m C 0 { stream with xoffSent := true, ewmaDrainRate := 0 } := by
      simp only [OnCovered, if_true]
      exact ⟨by omega, by omega, fun hne => absurd rfl hne⟩
    rw [if_pos hover]
    dsimp only
    split_ifs with hburst
    · simpa [numXon] using onCovered_decideXon hm hoff
    · simpa [numXon] using hoff
  · rw [if_neg hover]
    dsimp only
    split_ifs with hburst
    · simpa [numXon] using onCovered_decideXon hm h
    · simpa [numXon] using h

end FlowControl
