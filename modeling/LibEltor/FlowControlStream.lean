/-
Two honest ends of a stream under flow control (`core/or/congestion_control_flow.c`).

One side sends data, the other XOFF and XON; both queues keep their order and take any
time.  Without the scaling of the counters the bytes that are counted pay for every XOFF
and XON.  Scaling takes half of the bytes whose XOFF is still to come.
-/
import LibEltor.FlowControl
import LibEltor.Transition

open Word CongestionControl Transition

namespace FlowControl

/-! ### The two ends -/

/-- `data` are the lengths of the cells on their way, `control` the XOFFs and XONs on theirs. -/
structure Stream where
  sender : XmitEdge
  receiver : RecvEdge
  data : List ℕ
  control : List Control

inductive StreamAction
  | send (len : ℕ)
  | receiveData (clock : Clock)
  | drain (n : ℕ) (clock : Clock)
  | receiveControl

def streamStep (params : FlowParams) (kind : EdgeKind) (N : Stream) : StreamAction → Option Stream
  | .send len =>
    if len ≤ relayPayloadSize then
      some { N with sender := flowControlNoteSentData N.sender len, data := N.data ++ [len] }
    else none
  | .receiveData clock =>
    match N.data with
    | [] => none
    | len :: rest =>
      let (receiver, sent) := flowControlDecideXoff params clock
        { N.receiver with outbuf := N.receiver.outbuf + len } kind.peer
      some { N with receiver := receiver, data := rest, control := N.control ++ sent }
  | .drain n clock =>
    if n ≤ N.receiver.outbuf then
      let (receiver, sent) := flowControlDecideXon params clock
        { N.receiver with outbuf := N.receiver.outbuf - n } n
      some { N with receiver := receiver, control := N.control ++ sent }
    else none
  | .receiveControl =>
    match N.control with
    | [] => none
    | .xoff :: rest =>
      some { N with sender := (circuitProcessStreamXoff params kind N.sender).1, control := rest }
    | .xon _ :: rest =>
      some { N with sender := (circuitProcessStreamXon params kind N.sender).1, control := rest }

theorem streamStep_send {params : FlowParams} {kind : EdgeKind} {N : Stream} {len : ℕ}
    (hlen : len ≤ relayPayloadSize) :
    streamStep params kind N (.send len) = some { N with
      sender := flowControlNoteSentData N.sender len, data := N.data ++ [len] } :=
  if_pos hlen

theorem streamStep_receiveData {params : FlowParams} {kind : EdgeKind} {N : Stream} {clock : Clock}
    {len : ℕ} {rest : List ℕ} (hdata : N.data = len :: rest) :
    streamStep params kind N (.receiveData clock) = some { N with
      receiver := (flowControlDecideXoff params clock
        { N.receiver with outbuf := N.receiver.outbuf + len } kind.peer).1
      data := rest
      control := N.control ++ (flowControlDecideXoff params clock
        { N.receiver with outbuf := N.receiver.outbuf + len } kind.peer).2 } := by
  simp only [streamStep, hdata]

def newStream : Stream where
  sender := { totalBytesXmit := 0, numXoffRecv := 0, numXonRecv := 0, xoffReceived := false }
  receiver :=
    { outbuf := 0, drainedBytes := 0, prevDrainedBytes := 0, drainStartUsec := 0, ewmaDrainRate := 0,
      ewmaRateLastSent := 0, xoffSent := false }
  data := []
  control := []

def streamSystem (ns : Consensus) (kind : EdgeKind) : System Stream StreamAction where
  init := fun N => N = newStream
  step := fun N a N' => streamStep (flowControlNewConsensusParams ns) kind N a = some N'

/-! ### What holds in a run -/

/-- The counters of a sender pay, at a limit for each XOFF, for those counted and on their way, for
the data on its way and for what is buffered; and at theirs for the XONs. -/
def Covered (params : FlowParams) (kind : EdgeKind) (conn : XmitEdge) (N : Stream) : Prop :=
  (xoffLimit params kind * (conn.numXoffRecv + numXoff N.control) + N.data.sum ≤ conn.totalBytesXmit ∧
    OffCovered (xoffLimit params kind)
      (conn.totalBytesXmit -
        (xoffLimit params kind * (conn.numXoffRecv + numXoff N.control) + N.data.sum)) N.receiver) ∧
  (xonLimit params kind * (conn.numXonRecv + numXon N.control) + N.data.sum ≤ conn.totalBytesXmit ∧
    OnCovered (xonLimit params kind)
      (conn.totalBytesXmit -
        (xonLimit params kind * (conn.numXonRecv + numXon N.control) + N.data.sum)) 0 N.receiver)

def scales (N : Stream) : StreamAction → Bool
  | .send len => decide (N.sender.totalBytesXmit ≥ totalXmitScaleAt - len)
  | .receiveControl =>
    match N.control with
    | [] => false
    | .xoff :: _ => decide (N.sender.numXoffRecv = xoffCountScaleAt)
    | .xon _ :: _ => decide (N.sender.numXonRecv = xonCountScaleAt)
  | _ => false

/-- Where a sender that checks the limits scales its counters down, the halves still pay. -/
def HalvesCovered (ns : Consensus) (kind : EdgeKind) (N : Stream) (a : StreamAction) : Prop :=
  checksLimits kind = true → scales N a = true →
    Covered (flowControlNewConsensusParams ns) kind N.sender.halve N

/-- The next XOFF or XON is taken for valid, and an XOFF does not come after another. -/
def Accepted (params : FlowParams) (kind : EdgeKind) (N : Stream) : Prop :=
  match N.control with
  | [] => True
  | .xoff :: _ =>
    N.sender.xoffReceived = false ∧ (circuitProcessStreamXoff params kind N.sender).2 = true
  | .xon _ :: _ => (circuitProcessStreamXon params kind N.sender).2 = true

/-- Whether an XOFF is in force when all of a list have come; `none` where one comes after another. -/
def flagAfter : Bool → List Control → Option Bool
  | flag, [] => some flag
  | true, .xoff :: _ => none
  | false, .xoff :: rest => flagAfter true rest
  | _, .xon _ :: rest => flagAfter false rest

theorem flagAfter_append (flag : Bool) (l l' : List Control) :
    flagAfter flag (l ++ l') = (flagAfter flag l).bind fun flag => flagAfter flag l' := by
  induction l generalizing flag with
  | nil => cases flag <;> simp [flagAfter]
  | cons c l ih =>
    cases c with
    | xoff =>
      cases flag with
      | false => exact ih true
      | true => rfl
    | xon k => cases flag <;> exact ih false

@[simp] theorem numXoff_append (l l' : List Control) : numXoff (l ++ l') = numXoff l + numXoff l' := by
  simp [numXoff]

@[simp] theorem numXon_append (l l' : List Control) : numXon (l ++ l') = numXon l + numXon l' := by
  simp [numXon]

@[simp] theorem numXoff_xoff (l : List Control) : numXoff (.xoff :: l) = numXoff l + 1 := by
  simp [numXoff]

@[simp] theorem numXon_xoff (l : List Control) : numXon (.xoff :: l) = numXon l := by
  simp [numXon]

@[simp] theorem numXoff_xon (k : ℕ) (l : List Control) : numXoff (.xon k :: l) = numXoff l := by
  simp [numXoff]

@[simp] theorem numXon_xon (k : ℕ) (l : List Control) : numXon (.xon k :: l) = numXon l + 1 := by
  simp [numXon]

@[simp] theorem numXoff_nil : numXoff [] = 0 := rfl

@[simp] theorem numXon_nil : numXon [] = 0 := rfl

structure StreamInv (params : FlowParams) (kind : EdgeKind) (N : Stream) : Prop where
  flag : flagAfter N.sender.xoffReceived N.control = some N.receiver.xoffSent
  numXoff_le : N.sender.numXoffRecv ≤ xoffCountScaleAt
  numXon_le : N.sender.numXonRecv ≤ xonCountScaleAt
  total_le : N.sender.totalBytesXmit ≤ totalXmitScaleAt
  covered : checksLimits kind = true → Covered params kind N.sender N

variable {ns : Consensus} {params : FlowParams} {kind : EdgeKind} {N N' : Stream}

theorem xoffLimit_eq (h : checksLimits kind = true) :
    bufferLimitXoff params kind.peer = xoffLimit params kind := by
  cases kind <;> first | rfl | exact absurd h (by decide)

theorem u32_of_le {n : ℕ} (h : n ≤ totalXmitScaleAt) : u32 n = n := by
  refine wrap_natCast ?_
  exact lt_of_le_of_lt h (by decide)

theorem streamInv_send {len : ℕ} (h : StreamInv params kind N) (hlen : len ≤ relayPayloadSize)
    (hok : checksLimits kind = true → scales N (.send len) = true → Covered params kind N.sender.halve N) :
    StreamInv params kind
      { N with sender := flowControlNoteSentData N.sender len, data := N.data ++ [len] } := by
  have hlen' : len ≤ 2037 := hlen
  -- the counters before the bytes are added
  obtain ⟨conn, hconn, hscaled, htotal⟩ : ∃ conn : XmitEdge,
      flowControlNoteSentData N.sender len =
        { conn with totalBytesXmit := conn.totalBytesXmit + len } ∧
      (conn.xoffReceived = N.sender.xoffReceived ∧ conn.numXoffRecv ≤ xoffCountScaleAt ∧
        conn.numXonRecv ≤ xonCountScaleAt ∧ (checksLimits kind = true → Covered params kind conn N)) ∧
      conn.totalBytesXmit + len ≤ totalXmitScaleAt := by
    have hx := h.numXoff_le
    have hn := h.numXon_le
    have ht := h.total_le
    simp only [xoffCountScaleAt, xonCountScaleAt, totalXmitScaleAt] at hx hn ht ⊢
    by_cases hscale : N.sender.totalBytesXmit ≥ totalXmitScaleAt - len
    · have htotal : N.sender.halve.totalBytesXmit + len ≤ totalXmitScaleAt := by
        simp only [XmitEdge.halve, totalXmitScaleAt]
        omega
      refine ⟨N.sender.halve, ?_, ⟨rfl, ?_, ?_, fun hc => hok hc (decide_eq_true hscale)⟩, htotal⟩
      · simp only [flowControlNoteSentData, if_pos hscale]
        rw [← Nat.cast_add, u32_of_le htotal]
      · simp only [XmitEdge.halve]
        omega
      · simp only [XmitEdge.halve]
        omega
    · have htotal : N.sender.totalBytesXmit + len ≤ totalXmitScaleAt := by
        simp only [totalXmitScaleAt] at hscale ⊢
        omega
      refine ⟨N.sender, ?_, ⟨rfl, hx, hn, h.covered⟩, htotal⟩
      simp only [flowControlNoteSentData, if_neg hscale]
      rw [← Nat.cast_add, u32_of_le htotal]
  obtain ⟨hflag, hx, hn, hcov⟩ := hscaled
  rw [hconn]
  refine ⟨by simpa [hflag] using h.flag, hx, hn, htotal, fun hc => ?_⟩
  obtain ⟨⟨hoff, hoff'⟩, hon, hon'⟩ := hcov hc
  simp only [Covered, List.sum_append, List.sum_cons, List.sum_nil]
  refine ⟨⟨by omega, ?_⟩, by omega, ?_⟩
  · convert hoff' using 1
    omega
  · convert hon' using 1
    omega

theorem flag_append {flag : Bool} (stream : RecvEdge) {stream' : RecvEdge} {control sent : List Control}
    (h : flagAfter flag control = some stream.xoffSent)
    (hsent : (sent = [.xoff] ∧ stream'.xoffSent = true ∧ stream.xoffSent = false) ∨
      (sent = [] ∧ stream'.xoffSent = stream.xoffSent) ∨
        ∃ k, sent = [.xon k] ∧ stream'.xoffSent = false) :
    flagAfter flag (control ++ sent) = some stream'.xoffSent := by
  rw [flagAfter_append, h]
  rcases hsent with ⟨rfl, hto, hfrom⟩ | ⟨rfl, hkeep⟩ | ⟨k, rfl, hto⟩
  · simp [hto, hfrom, flagAfter]
  · simp [hkeep, flagAfter]
  · cases stream.xoffSent <;> simp [hto, flagAfter]

theorem offCovered_sent {limit C : ℕ} {stream stream' : RecvEdge} {sent : List Control}
    (h : OffCovered limit C stream) (hout : stream'.outbuf = stream.outbuf)
    (hsent : (sent = [.xoff] ∧ stream'.xoffSent = true ∧ stream.xoffSent = false ∧
        limit < stream.outbuf) ∨
      (sent = [] ∧ stream'.xoffSent = stream.xoffSent) ∨
        ∃ k, sent = [.xon k] ∧ stream'.xoffSent = false ∧ (stream.xoffSent = true → stream.outbuf = 0)) :
    limit * numXoff sent ≤ C ∧ OffCovered limit (C - limit * numXoff sent) stream' := by
  unfold OffCovered at h ⊢
  rw [hout]
  rcases hsent with ⟨rfl, hto, hfrom, hover⟩ | ⟨rfl, hkeep⟩ | ⟨k, rfl, hto, hempty⟩
  · rw [hfrom] at h
    simp only [Bool.false_eq_true, if_false] at h
    simp only [hto, if_true, numXoff_xoff, numXoff_nil]
    omega
  · simpa [hkeep] using h
  · rw [hto]
    simp only [numXoff_xon, numXoff_nil, Nat.mul_zero, Bool.false_eq_true, if_false]
    refine ⟨Nat.zero_le _, ?_⟩
    cases hfrom : stream.xoffSent with
    | true => simp [hempty hfrom]
    | false =>
      rw [hfrom] at h
      simpa using h

/-- The side that gets data has worked on its buffer: what it sent is on its way, and `gone` bytes
of data are no longer. -/
theorem covered_received {conn : XmitEdge} {stream : RecvEdge} {sent : List Control} {data : List ℕ}
    (gone : ℕ) (h : Covered params kind conn N) (hdata : data.sum + gone = N.data.sum)
    (hoff : ∀ C, OffCovered (xoffLimit params kind) C N.receiver →
      xoffLimit params kind * numXoff sent ≤ C + gone ∧
        OffCovered (xoffLimit params kind) (C + gone - xoffLimit params kind * numXoff sent) stream)
    (hon : ∀ C, OnCovered (xonLimit params kind) C 0 N.receiver →
      xonLimit params kind * numXon sent ≤ C + gone ∧
        OnCovered (xonLimit params kind) (C + gone - xonLimit params kind * numXon sent) 0 stream) :
    Covered params kind conn
      { N with receiver := stream, data := data, control := N.control ++ sent } := by
  obtain ⟨⟨hx, hx'⟩, hn, hn'⟩ := h
  obtain ⟨hoffle, hoff'⟩ := hoff _ hx'
  obtain ⟨honle, hon'⟩ := hon _ hn'
  simp only [Covered, numXoff_append, numXon_append, ← Nat.add_assoc, Nat.mul_add] at *
  refine ⟨⟨by omega, ?_⟩, by omega, ?_⟩
  · convert hoff' using 1
    omega
  · convert hon' using 1
    omega

theorem xonLimit_le_rate : xonLimit params kind ≤ params.xonRateBytes := Nat.min_le_right _ _

theorem streamInv_receiveData {len : ℕ} {rest : List ℕ} {clock : Clock}
    (h : StreamInv params kind N) (hdata : N.data = len :: rest) :
    StreamInv params kind { N with
      receiver := (flowControlDecideXoff params clock
        { N.receiver with outbuf := N.receiver.outbuf + len } kind.peer).1
      data := rest
      control := N.control ++ (flowControlDecideXoff params clock
        { N.receiver with outbuf := N.receiver.outbuf + len } kind.peer).2 } := by
  obtain ⟨hout, hsent⟩ :=
    decideXoff_sent params clock { N.receiver with outbuf := N.receiver.outbuf + len } kind.peer
  refine ⟨?_, h.numXoff_le, h.numXon_le, h.total_le, fun hc => ?_⟩
  · refine flag_append { N.receiver with outbuf := N.receiver.outbuf + len } h.flag ?_
    rcases hsent with ⟨h1, h2, h3, -⟩ | ⟨h1, h2⟩ | ⟨k, h1, h2, -⟩
    · exact .inl ⟨h1, h2, h3⟩
    · exact .inr (.inl ⟨h1, h2⟩)
    · exact .inr (.inr ⟨k, h1, h2⟩)
  · rw [xoffLimit_eq hc] at hsent
    refine covered_received len (h.covered hc) (by rw [hdata, List.sum_cons]; omega) ?_ ?_
    · intro C hC
      refine offCovered_sent (C := C + len) ?_ hout hsent
      unfold OffCovered at hC ⊢
      split_ifs at hC ⊢ <;> simp only [] <;> omega
    · intro C hC
      refine onCovered_decideXoff xonLimit_le_rate ?_ ?_
      · rw [xoffLimit_eq hc]
        exact Nat.min_le_left _ _
      · exact hC.of_outbuf (Nat.le_add_right C len) (by omega)

theorem streamInv_drain {n : ℕ} {clock : Clock} (h : StreamInv params kind N)
    (hn : n ≤ N.receiver.outbuf) :
    StreamInv params kind { N with
      receiver := (flowControlDecideXon params clock
        { N.receiver with outbuf := N.receiver.outbuf - n } n).1
      control := N.control ++ (flowControlDecideXon params clock
        { N.receiver with outbuf := N.receiver.outbuf - n } n).2 } := by
  obtain ⟨hout, hsent⟩ :=
    decideXon_sent params clock { N.receiver with outbuf := N.receiver.outbuf - n } n
  refine ⟨?_, h.numXoff_le, h.numXon_le, h.total_le, fun hc => ?_⟩
  · refine flag_append { N.receiver with outbuf := N.receiver.outbuf - n } h.flag (.inr ?_)
    rcases hsent with ⟨h1, h2⟩ | ⟨k, h1, h2, -⟩
    · exact .inl ⟨h1, h2⟩
    · exact .inr ⟨k, h1, h2⟩
  · refine covered_received 0 (h.covered hc) rfl ?_ ?_
    · intro C hC
      refine offCovered_sent ?_ hout (.inr hsent)
      unfold OffCovered at hC ⊢
      split_ifs at hC ⊢ <;> simp only [] <;> omega
    · intro C hC
      exact onCovered_decideXon xonLimit_le_rate (hC.of_outbuf le_rfl (by omega))

theorem u8_succ {n : ℕ} (h : n ≤ 200) : u8 (n + 1) = n + 1 := by
  have hlt : n + 1 < 2 ^ 8 := by omega
  exact_mod_cast wrap_natCast hlt

/-- The sender's counters when an XOFF or XON has come: `scaled` are those before it is counted. -/
theorem scaled_counters {due : Prop} [Decidable due] (h : StreamInv params kind N)
    (hok : checksLimits kind = true → due → Covered params kind N.sender.halve N) :
    (if due then N.sender.halve else N.sender).numXoffRecv ≤ 200 ∧
      (if due then N.sender.halve else N.sender).numXonRecv ≤ 200 ∧
      (if due then N.sender.halve else N.sender).totalBytesXmit ≤ totalXmitScaleAt ∧
      (if due then N.sender.halve else N.sender).xoffReceived = N.sender.xoffReceived ∧
      (checksLimits kind = true →
        Covered params kind (if due then N.sender.halve else N.sender) N) := by
  have hx : N.sender.numXoffRecv ≤ 200 := h.numXoff_le
  have hn : N.sender.numXonRecv ≤ 200 := h.numXon_le
  have ht := h.total_le
  split_ifs with hdue
  · simp only [XmitEdge.halve]
    exact ⟨by omega, by omega, by omega, trivial, fun hc => hok hc hdue⟩
  · exact ⟨hx, hn, ht, rfl, h.covered⟩

theorem not_lt_u32 {limit num total : ℕ} (h : limit * num ≤ total) :
    ¬ total < u32 ((limit : ℤ) * num) := by
  have hle : u32 ((limit : ℤ) * num) ≤ limit * num := by
    exact_mod_cast wrap_natCast_le 32 (limit * num)
  omega

theorem streamInv_xoff {rest : List Control} (h : StreamInv params kind N)
    (hcontrol : N.control = .xoff :: rest)
    (hok : checksLimits kind = true → N.sender.numXoffRecv = xoffCountScaleAt →
      Covered params kind N.sender.halve N) :
    N.sender.xoffReceived = false ∧ (circuitProcessStreamXoff params kind N.sender).2 = true ∧
      StreamInv params kind
        { N with sender := (circuitProcessStreamXoff params kind N.sender).1, control := rest } := by
  have hflag := h.flag
  rw [hcontrol] at hflag
  have hreceived : N.sender.xoffReceived = false := by
    cases hr : N.sender.xoffReceived with
    | false => rfl
    | true =>
      rw [hr] at hflag
      exact absurd hflag (by simp [flagAfter])
  obtain ⟨hx, hn, ht, -, hcov⟩ := scaled_counters h hok
  have hx' : (if N.sender.numXoffRecv = xoffCountScaleAt then N.sender.halve
      else N.sender).numXoffRecv + 1 ≤ 200 := by
    have hle := h.numXoff_le
    simp only [xoffCountScaleAt] at hle ⊢
    split_ifs
    · simp only [XmitEdge.halve]
      omega
    · omega
  simp only [circuitProcessStreamXoff, hreceived, Bool.false_eq_true, if_false]
  generalize (if N.sender.numXoffRecv = xoffCountScaleAt then N.sender.halve else N.sender) = conn
    at hx hn ht hcov hx' ⊢
  rw [u8_succ hx]
  refine ⟨trivial, ?_, ?_, hx', hn, ht, fun hc => ?_⟩
  · cases hc : checksLimits kind with
    | false => rfl
    | true =>
      obtain ⟨⟨hpaid, -⟩, -⟩ := hcov hc
      rw [hcontrol, numXoff_xoff] at hpaid
      have hle : xoffLimit params kind * (conn.numXoffRecv + 1) ≤ conn.totalBytesXmit := by
        refine le_trans (Nat.mul_le_mul_left _ ?_) (le_trans (Nat.le_add_right _ _) hpaid)
        omega
      simpa using not_lt_u32 hle
  · rw [hreceived] at hflag
    exact hflag
  · obtain ⟨hoff, hon⟩ := hcov hc
    simp only [Covered, hcontrol, numXoff_xoff, numXon_xoff] at hoff hon ⊢
    rw [← Nat.add_assoc, Nat.add_right_comm] at hoff
    exact ⟨hoff, hon⟩

theorem streamInv_xon {k : ℕ} {rest : List Control} (h : StreamInv params kind N)
    (hcontrol : N.control = .xon k :: rest)
    (hok : checksLimits kind = true → N.sender.numXonRecv = xonCountScaleAt →
      Covered params kind N.sender.halve N) :
    (circuitProcessStreamXon params kind N.sender).2 = true ∧
      StreamInv params kind
        { N with sender := (circuitProcessStreamXon params kind N.sender).1, control := rest } := by
  have hflag := h.flag
  rw [hcontrol] at hflag
  have hrest : flagAfter false rest = some N.receiver.xoffSent := by
    cases hr : N.sender.xoffReceived <;> simpa [hr, flagAfter] using hflag
  obtain ⟨hx, hn, ht, -, hcov⟩ := scaled_counters h hok
  have hn' : (if N.sender.numXonRecv = xonCountScaleAt then N.sender.halve
      else N.sender).numXonRecv + 1 ≤ 200 := by
    have hle := h.numXon_le
    simp only [xonCountScaleAt] at hle ⊢
    split_ifs
    · simp only [XmitEdge.halve]
      omega
    · omega
  simp only [circuitProcessStreamXon]
  generalize (if N.sender.numXonRecv = xonCountScaleAt then N.sender.halve else N.sender) = conn
    at hx hn ht hcov hn' ⊢
  rw [u8_succ hn]
  refine ⟨?_, hrest, hx, hn', ht, fun hc => ?_⟩
  · cases hc : checksLimits kind with
    | false => rfl
    | true =>
      obtain ⟨-, hpaid, -⟩ := hcov hc
      rw [hcontrol, numXon_xon] at hpaid
      have hle : xonLimit params kind * (conn.numXonRecv + 1) ≤ conn.totalBytesXmit := by
        refine le_trans (Nat.mul_le_mul_left _ ?_) (le_trans (Nat.le_add_right _ _) hpaid)
        omega
      simpa using not_lt_u32 hle
  · obtain ⟨hoff, hon⟩ := hcov hc
    simp only [Covered, hcontrol, numXoff_xon, numXon_xon] at hoff hon ⊢
    rw [← Nat.add_assoc, Nat.add_right_comm] at hon
    exact ⟨hoff, hon⟩

theorem streamInv_step {a : StreamAction} (h : StreamInv (flowControlNewConsensusParams ns) kind N)
    (hok : HalvesCovered ns kind N a)
    (hstep : streamStep (flowControlNewConsensusParams ns) kind N a = some N') :
    StreamInv (flowControlNewConsensusParams ns) kind N' := by
  cases a with
  | send len =>
    simp only [streamStep] at hstep
    split_ifs at hstep with hlen
    obtain rfl := Option.some.inj hstep
    exact streamInv_send h hlen hok
  | receiveData clock =>
    cases hdata : N.data with
    | nil => simp [streamStep, hdata] at hstep
    | cons len rest =>
      simp only [streamStep, hdata] at hstep
      obtain rfl := Option.some.inj hstep
      exact streamInv_receiveData h hdata
  | drain n clock =>
    simp only [streamStep] at hstep
    split_ifs at hstep with hn
    obtain rfl := Option.some.inj hstep
    exact streamInv_drain h hn
  | receiveControl =>
    cases hcontrol : N.control with
    | nil => simp [streamStep, hcontrol] at hstep
    | cons c rest =>
      simp only [HalvesCovered, scales, hcontrol] at hok
      cases c with
      | xoff =>
        simp only [decide_eq_true_eq] at hok
        simp only [streamStep, hcontrol] at hstep
        obtain rfl := Option.some.inj hstep
        exact (streamInv_xoff h hcontrol hok).2.2
      | xon k =>
        simp only [decide_eq_true_eq] at hok
        simp only [streamStep, hcontrol] at hstep
        obtain rfl := Option.some.inj hstep
        exact (streamInv_xon h hcontrol hok).2

theorem streamInv_new : StreamInv params kind newStream := by
  refine ⟨rfl, Nat.zero_le _, Nat.zero_le _, Nat.zero_le _, fun _ => ?_⟩
  simp [Covered, newStream, OffCovered, OnCovered, RecvEdge.credit]

theorem limit_mul_lt {k : ℕ} (hk : k ≤ 200) :
    xoffLimit (flowControlNewConsensusParams ns) kind * k < 2 ^ 32 ∧
      xonLimit (flowControlNewConsensusParams ns) kind * k < 2 ^ 32 := by
  have hbound : ∀ param, u32 (networkstatusGetParam ns param 500 1 10000 * relayPayloadSize) ≤
      10000 * 2037 := by
    intro param
    obtain ⟨hlo, hhi⟩ := networkstatusGetParam_mem ns param 500 (show (1 : ℤ) ≤ 10000 by norm_num)
    have hsize : ((relayPayloadSize : ℕ) : ℤ) = 2037 := rfl
    have hle := wrap_le (w := 32)
      (show 0 ≤ networkstatusGetParam ns param 500 1 10000 * 2037 by omega)
    rw [hsize]
    show wrap 32 _ ≤ _
    omega
  have hlimit : xoffLimit (flowControlNewConsensusParams ns) kind ≤ 10000 * 2037 := by
    unfold xoffLimit
    split_ifs
    · exact hbound _
    · exact hbound _
  have hprod : xoffLimit (flowControlNewConsensusParams ns) kind * k ≤ 10000 * 2037 * 200 :=
    Nat.mul_le_mul hlimit hk
  have hmin : xonLimit (flowControlNewConsensusParams ns) kind * k ≤
      xoffLimit (flowControlNewConsensusParams ns) kind * k :=
    Nat.mul_le_mul_right k (Nat.min_le_left _ _)
  omega

def stalledClock : Clock := ⟨false, 0⟩

def smallestXoffExit : Consensus := fun param => if param = .ccXoffExit then some 1 else none

theorem decideXon_filling {stream : RecvEdge} (hout : stream.outbuf ≠ 0)
    (hdrained : stream.drainedBytes = 0) (hstart : stream.drainStartUsec = 0) :
    flowControlDecideXon params stalledClock stream 0 = (stream, []) := by
  obtain ⟨outbuf, drainedBytes, prevDrainedBytes, drainStartUsec, ewma, last, xoffSent⟩ := stream
  dsimp only at hout hdrained hstart
  subst hdrained hstart
  have hbound : ¬ (0 ≥ u64 (2 ^ 32 - 1 - ((0 : ℕ) : ℤ))) := by decide
  have hnote : u32 (((0 : ℕ) : ℤ) + ((0 : ℕ) : ℤ)) = 0 := by decide
  simp only [flowControlDecideXon, boundDrained, if_neg hbound, noteDrained, hnote, startDrain,
    stalledClock, Bool.not_false, if_true, updateDrainRate, ne_eq, not_true_eq_false, false_and,
    if_false, considerXon, streamDrainRateChanged, Bool.false_eq_true, hout]
  cases xoffSent <;> simp [clearDrainStart, doubleDrainRate, hout]

/-- The stream at rest with some bytes buffered, after sending within what is counted. -/
structure Filling (N : Stream) (outbuf : ℕ) : Prop where
  receiver : N.receiver = { newStream.receiver with outbuf := outbuf }
  data : N.data = []
  control : N.control = []
  numXoffRecv : N.sender.numXoffRecv = 0
  xoffReceived : N.sender.xoffReceived = false
  total_le : N.sender.totalBytesXmit ≤ totalXmitScaleAt

theorem noteSentData_le {conn : XmitEdge} (h : conn.totalBytesXmit ≤ totalXmitScaleAt)
    (hnum : conn.numXoffRecv = 0) :
    (flowControlNoteSentData conn 2037).totalBytesXmit ≤ totalXmitScaleAt ∧
      (flowControlNoteSentData conn 2037).numXoffRecv = 0 ∧
      (flowControlNoteSentData conn 2037).xoffReceived = conn.xoffReceived := by
  have hle : ∀ n : ℕ, u32 ((n : ℤ) + ((2037 : ℕ) : ℤ)) ≤ n + 2037 := fun n => by
    exact_mod_cast wrap_natCast_le 32 (n + 2037)
  simp only [totalXmitScaleAt] at h ⊢
  unfold flowControlNoteSentData
  split_ifs with hscale
  · have := hle (conn.totalBytesXmit / 2)
    refine ⟨?_, by simp [XmitEdge.halve, hnum], rfl⟩
    simp only [XmitEdge.halve]
    omega
  · have := hle conn.totalBytesXmit
    simp only [totalXmitScaleAt] at hscale
    exact ⟨by dsimp only; omega, hnum, rfl⟩

def largestXoffExit : Consensus := fun param => if param = .ccXoffExit then some 10000 else none

theorem xoffLimit_largest :
    xoffLimit (flowControlNewConsensusParams largestXoffExit) .client = 20370000 := by decide

theorem filling_cell (params : FlowParams) {outbuf : ℕ} (h : Filling N outbuf) :
    streamStep params .client N (.send 2037) = some { N with
        sender := flowControlNoteSentData N.sender 2037, data := [2037] } ∧
      streamStep params .client
        { N with sender := flowControlNoteSentData N.sender 2037, data := [2037] }
        (.receiveData stalledClock) = some {
          sender := flowControlNoteSentData N.sender 2037
          receiver := (flowControlDecideXoff params stalledClock
            { newStream.receiver with outbuf := outbuf + 2037 } .exit).1
          data := []
          control := (flowControlDecideXoff params stalledClock
            { newStream.receiver with outbuf := outbuf + 2037 } .exit).2 } := by
  have hlen : 2037 ≤ relayPayloadSize := Nat.le_of_eq rfl
  constructor
  · simp only [streamStep, if_pos hlen, h.data, List.nil_append]
  · simp only [streamStep, h.receiver, h.control, List.nil_append, EdgeKind.peer]

theorem filling_reached (k : ℕ) (hk : k ≤ 10000) :
    ∃ N, Reached (streamSystem largestXoffExit .client) (fun _ _ => True) N ∧ Filling N (k * 2037) := by
  induction k with
  | zero => exact ⟨newStream, .init rfl, rfl, rfl, rfl, rfl, rfl, Nat.zero_le _⟩
  | succ k ih =>
    obtain ⟨N, hr, h⟩ := ih (by omega)
    obtain ⟨hsend, hreceive⟩ := filling_cell (flowControlNewConsensusParams largestXoffExit) h
    have hlimit : bufferLimitXoff (flowControlNewConsensusParams largestXoffExit) .exit = 20370000 :=
      xoffLimit_largest
    have hsame : flowControlDecideXoff (flowControlNewConsensusParams largestXoffExit) stalledClock
        { newStream.receiver with outbuf := k * 2037 + 2037 } .exit =
          ({ newStream.receiver with outbuf := k * 2037 + 2037 }, []) := by
      unfold flowControlDecideXoff
      rw [hlimit, if_neg (by dsimp only; omega)]
      dsimp only
      split_ifs
      · rw [decideXon_filling (by dsimp only; omega) rfl rfl]
        rfl
      · rfl
    rw [hsame] at hreceive
    obtain ⟨hle, hnum, hflag⟩ := noteSentData_le h.total_le h.numXoffRecv
    refine ⟨_, (hr.step trivial hsend).step trivial hreceive, ?_, rfl, rfl, hnum,
      hflag.trans h.xoffReceived, hle⟩
    rw [Nat.succ_mul]

theorem firstXoff_excess {conn : XmitEdge} (h : conn.totalBytesXmit ≤ totalXmitScaleAt)
    (hnum : conn.numXoffRecv = 0) (hflag : conn.xoffReceived = false) :
    (circuitProcessStreamXoff (flowControlNewConsensusParams largestXoffExit) .client conn).2 =
      false := by
  obtain ⟨total, numXoff, numXon, received⟩ := conn
  dsimp only at h hnum hflag
  subst hnum hflag
  have hone : u8 (((0 : ℕ) : ℤ) + 1) = 1 := by decide
  have hproduct : u32 (((20370000 : ℕ) : ℤ) * ((1 : ℕ) : ℤ)) = 20370000 := by decide
  have hshort : total < 20370000 := by
    simp only [totalXmitScaleAt] at h
    omega
  have hfirst : ¬ (0 = xoffCountScaleAt) := by decide
  simp only [circuitProcessStreamXoff, Bool.false_eq_true, if_false, if_neg hfirst, hone,
    xoffLimit_largest, hproduct, hshort, decide_true, Bool.and_true]
  rfl

end FlowControl
