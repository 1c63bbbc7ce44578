/-
The two ends of a circuit (`core/or/sendme.c`, `core/or/relay.c`).

Each end counts DATA cells by itself: the sender by its package window or by what
is in flight, the receiver by its deliver window.  A SENDME is accepted where the
two counts name the same cells.  The cells on the way and the SENDMEs on the way
back are queues; the steps of the two ends come in any order.
-/
import LibEltor.Sendme

open Bytes CongestionControl Vegas Sendme Transition

namespace SendmeNetwork

/-! ### Marks -/

def marks (inc n : ℕ) : List ℕ := (List.range (n / inc)).map fun k => inc * (k + 1)

@[simp] theorem marks_zero (inc : ℕ) : marks inc 0 = [] := by simp [marks]

@[simp] theorem length_marks (inc n : ℕ) : (marks inc n).length = n / inc := by simp [marks]

theorem marks_succ (inc n : ℕ) :
    marks inc (n + 1) = if inc ∣ n + 1 then marks inc n ++ [n + 1] else marks inc n := by
  unfold marks
  split_ifs with hdvd
  · -- `n + 1` is the next multiple: the quotient grows, and the list by its last entry
    rw [Nat.succ_div_of_dvd hdvd, List.range_succ, List.map_append]
    have hlast : inc * (n / inc + 1) = n + 1 := by
      rw [← Nat.succ_div_of_dvd hdvd]
      exact Nat.mul_div_cancel' hdvd
    simp [hlast]
  · rw [Nat.succ_div_of_not_dvd hdvd]

theorem marks_isPrefix (inc : ℕ) {n m : ℕ} (h : n ≤ m) : marks inc n <+: marks inc m := by
  induction m, h using Nat.le_induction with
  | base => exact List.prefix_refl _
  | succ m _ ih =>
    rw [marks_succ]
    split_ifs
    · exact ih.trans (List.prefix_append _ _)
    · exact ih

theorem mem_marks {inc n m : ℕ} : m ∈ marks inc n ↔ 0 < m ∧ m ≤ n ∧ inc ∣ m := by
  induction n with
  | zero =>
    simp only [marks_zero, List.not_mem_nil, false_iff]
    omega
  | succ n ih =>
    rw [marks_succ]
    split_ifs with hdvd
    · rw [List.mem_append, List.mem_singleton, ih]
      constructor
      · rintro (⟨hpos, hle, hm⟩ | rfl)
        · exact ⟨hpos, by omega, hm⟩
        · exact ⟨by omega, le_refl _, hdvd⟩
      · rintro ⟨hpos, hle, hm⟩
        rcases Nat.lt_or_ge n m with hlt | hge
        · exact .inr (by omega)
        · exact .inl ⟨hpos, hge, hm⟩
    · rw [ih]
      constructor
      · rintro ⟨hpos, hle, hm⟩
        exact ⟨hpos, by omega, hm⟩
      · rintro ⟨hpos, hle, hm⟩
        have hne : m ≠ n + 1 := by
          rintro rfl
          exact hdvd hm
        exact ⟨hpos, by omega, hm⟩

theorem succ_mod_cases {inc : ℕ} (hinc : 0 < inc) (n : ℕ) :
    (inc ∣ n + 1 ∧ n % inc + 1 = inc ∧ (n + 1) % inc = 0) ∨
      (¬inc ∣ n + 1 ∧ n % inc + 1 < inc ∧ (n + 1) % inc = n % inc + 1) := by
  have hlt := Nat.mod_lt n hinc
  have hmod := Nat.mod_add_mod n inc 1
  -- either the remainder moves on, or it is back at zero
  rcases Nat.lt_or_ge (n % inc + 1) inc with hsmall | hbig
  · rw [Nat.mod_eq_of_lt hsmall] at hmod
    refine .inr ⟨fun hdvd => ?_, hsmall, hmod.symm⟩
    have := Nat.mod_eq_zero_of_dvd hdvd
    omega
  · have hfull : n % inc + 1 = inc := by omega
    rw [hfull, Nat.mod_self] at hmod
    exact .inl ⟨Nat.dvd_of_mod_eq_zero hmod.symm, hfull, hmod.symm⟩

/-! ### The two ends -/

/-- One direction: the DATA cells on the way, by number, and the SENDMEs on the way
back; how many cells were sent and received and how many SENDMEs have arrived; the
cells whose digest was recorded and those answered with a SENDME. -/
structure Half where
  data : List ℕ
  sendmes : List Bytes
  sent : ℕ
  received : ℕ
  arrived : ℕ
  recorded : List ℕ
  answered : List ℕ

/-- The ends of a circuit, and for each end the direction it sends in. -/
structure Network where
  endpoint : Bool → Circuit
  half : Bool → Half

inductive Action
  | package (side : Bool) (nowUsec : ℕ)
  | deliverData (side : Bool)
  | deliverSendme (side : Bool) (env : Env)

structure Setup where
  /-- The parameters of the handshake. -/
  params : CircuitParams
  ns : Bool → Consensus
  path : Bool → CcPath
  /-- `sendme_accept_min_version` at each end. -/
  acceptVersion : Bool → ℤ
  /-- `sendme_emit_min_version` at each end. -/
  emitVersion : Bool → UInt8
  /-- The digest of each DATA cell an end sends. -/
  digest : Bool → ℕ → Block 20

def system (w : Setup) : System Network Action where
  init s := s = ⟨fun side => circuitNew (w.ns side) w.params (w.path side),
    fun _ => ⟨[], [], 0, 0, 0, [], []⟩⟩
  step s a s' :=
    match a with
    | .package side nowUsec =>
      let c := s.endpoint side
      let h := s.half side
      CanPackage c ∧ ∃ c', relaySendData (w.digest side (h.sent + 1)) nowUsec c = some c' ∧
        s' = ⟨Function.update s.endpoint side c', Function.update s.half side { h with
          data := h.data ++ [h.sent + 1]
          sent := h.sent + 1
          recorded := if c.sendmeLastDigests.length < c'.sendmeLastDigests.length
            then h.recorded ++ [h.sent + 1] else h.recorded }⟩
    | .deliverData side =>
      let h := s.half side
      ∃ n rest c' payloads, h.data = n :: rest ∧
        receiveData (w.emitVersion !side) (w.digest side n) (s.endpoint !side) =
          some (c', payloads) ∧
        s' = ⟨Function.update s.endpoint (!side) c', Function.update s.half side { h with
          data := rest
          received := h.received + 1
          sendmes := h.sendmes ++ payloads
          answered := if payloads = [] then h.answered else h.answered ++ [n] }⟩
    | .deliverSendme side env =>
      let h := s.half side
      ∃ payload rest accepted c', h.sendmes = payload :: rest ∧
        sendmeProcessCircuitLevel env (w.acceptVersion side) payload (s.endpoint side) =
          some (accepted, c') ∧
        s' = ⟨Function.update s.endpoint side c', Function.update s.half side { h with
          sendmes := rest
          arrived := h.arrived + 1 }⟩

def increment (w : Setup) : ℕ := if w.params.ccEnabled then w.params.sendmeIncCells.toNat else 100

/-- Both counts name the same cells: with congestion control the increment is not
one, and without it the initial package windows are multiples of the increment. -/
def Agreeing (w : Setup) : Prop :=
  if w.params.ccEnabled then w.params.sendmeIncCells ≠ 1
  else ∀ side, (100 : ℤ) ∣ circuitInitialPackageWindow (w.ns side)

def Window (inc : ℕ) (w₀ : ℤ) (c : Circuit) (sent arrived : ℕ) : Prop :=
  match c.edge.ccontrol with
  | none => inc = 100 ∧ (100 : ℤ) ∣ w₀ ∧ w₀ ≤ 1000 ∧
      c.edge.packageWindow = w₀ - sent + 100 * arrived
  | some cc => cc.sendmeInc = inc ∧ Covered cc c.sendmeLastDigests sent arrived

theorem sender_marks {inc : ℕ} (hinc : 2 ≤ inc) {w₀ : ℤ} {c : Circuit} {sent arrived : ℕ}
    (h : Window inc w₀ c sent arrived) (hcan : CanPackage c) :
    circuitSentCellForSendme c.edge = some (decide (inc ∣ sent + 1)) := by
  unfold Window at h
  rcases hcc : c.edge.ccontrol with _ | cc
  · rw [hcc] at h
    obtain ⟨rfl, hdvd, -, hwindow⟩ := h
    -- the windows start at a multiple, so what is left of one counts the cells sent
    have hmarks : (c.edge.packageWindow - 1).tmod 100 = 0 ↔ 100 ∣ sent + 1 := by
      rw [← Int.dvd_iff_tmod_eq_zero, hwindow]
      omega
    rw [circuitSentCellForSendme, hcc]
    show (if c.edge.packageWindow = 1000 then some false
      else some (decide ((c.edge.packageWindow - 1).tmod 100 = 0))) = _
    by_cases hfull : c.edge.packageWindow = 1000
    · -- the start of the window is no multiple plus one
      have hno : ¬100 ∣ sent + 1 := by omega
      rw [if_pos hfull, decide_eq_false hno]
    · rw [if_neg hfull, decide_eq_decide.mpr hmarks]
  · rw [hcc] at h
    obtain ⟨rfl, hcovered⟩ := h
    have hlt : cc.inflight + 1 < 2 ^ 64 := by
      have hcwnd := hcovered.cwnd_lt
      have hwindow := inflight_lt_cwnd hcc hcan.2
      omega
    rw [circuitSentCellForSendme_eq hcc hlt (.inr (by omega))]
    -- what was acknowledged is a multiple of the increment, and does not count
    have hmod : (cc.inflight + 1) % cc.sendmeInc = (sent + 1) % cc.sendmeInc := by
      rw [← hcovered.balance, Nat.add_right_comm, Nat.add_mul_mod_self_left]
    refine congrArg some (decide_eq_decide.mpr ?_)
    rw [NotesSendme, hmod, Nat.dvd_iff_mod_eq_zero]
    refine ⟨And.right, fun hzero => ⟨fun hnone => ?_, hzero⟩⟩
    -- with nothing in flight the next cell is the first of an increment
    rw [← hmod, hnone, Nat.mod_eq_of_lt (by omega)] at hzero
    omega

theorem receiver_marks {inc received : ℕ} (hinc : 0 < inc) {c : Circuit}
    (hcount : sendmeGetIncCount c.edge = inc)
    (hwindow : c.edge.deliverWindow = 1000 - (received % inc : ℕ)) :
    circuitSendmeCellIsNext c.edge.deliverWindow (sendmeGetIncCount c.edge) =
      some (decide (inc ∣ received + 1)) := by
  have hone : (1000 : ℤ) - (1000 - (received % inc : ℕ) - 1) = (received % inc + 1 : ℕ) := by omega
  rw [circuitSendmeCellIsNext, hcount, hwindow]
  show (Word.imod ((1000 : ℤ) - (1000 - (received % inc : ℕ) - 1)) inc).bind _ = _
  rw [hone, Word.imod, if_neg (by omega), ← Int.ofNat_tmod, Nat.mod_add_mod]
  show some (decide (((received + 1) % inc : ℕ) = (0 : ℤ))) = _
  refine congrArg some (decide_eq_decide.mpr ?_)
  rw [Nat.dvd_iff_mod_eq_zero]
  omega

theorem considerSending_eq {inc received : ℕ} (hinc : 0 < inc) :
    considerSending inc (1000 - (received % inc : ℕ) - 1) =
      ((1000 : ℤ) - ((received + 1) % inc : ℕ), if inc ∣ received + 1 then 1 else 0) := by
  have hstart : circwindowStart = 1000 := rfl
  rcases succ_mod_cases hinc received with ⟨hdvd, hfull, hmod⟩ | ⟨hdvd, hsmall, hmod⟩
  · -- one answer brings the window back to the start, so the loop ends after it
    rw [considerSending, if_pos (by omega), considerSending, if_neg (by omega), if_pos hdvd, hmod]
    simp only [Prod.mk.injEq, and_true]
    omega
  · rw [considerSending, if_neg (by omega), if_neg hdvd, hmod]
    simp only [Prod.mk.injEq, and_true]
    omega

/-! ### One direction -/

/-- One direction of a circuit whose sender starts with the package window `w₀`:
the cells that were recorded and those that were answered are the multiples of the
increment, and the SENDMEs on the way carry the oldest digests recorded. -/
structure Dir (digest : ℕ → Block 20) (emitVersion : UInt8) (inc : ℕ) (w₀ : ℤ)
    (sender receiver : Circuit) (h : Half) : Prop where
  received_le : h.received ≤ h.sent
  data : h.data = List.range' (h.received + 1) (h.sent - h.received)
  recorded : h.recorded = marks inc h.sent
  answered : h.answered = marks inc h.received
  arrived_le : h.arrived ≤ h.received / inc
  digests : sender.sendmeLastDigests = ((marks inc h.sent).drop h.arrived).map digest
  sendmes : h.sendmes = ((marks inc h.received).drop h.arrived).map fun n =>
    sendCircuitLevelSendme emitVersion (digest n)
  window : Window inc w₀ sender h.sent h.arrived
  deliver : receiver.edge.deliverWindow = 1000 - (h.received % inc : ℕ)
  count : sendmeGetIncCount receiver.edge = inc

variable {digest : ℕ → Block 20} {emitVersion : UInt8} {inc : ℕ} {w₀ : ℤ} {sender receiver : Circuit} {h : Half}

theorem Dir.frame_sender {sender' : Circuit} (hd : Dir digest emitVersion inc w₀ sender receiver h)
    (hcc : sender'.edge.ccontrol = sender.edge.ccontrol)
    (hwindow : sender'.edge.packageWindow = sender.edge.packageWindow)
    (hdigests : sender'.sendmeLastDigests = sender.sendmeLastDigests) :
    Dir digest emitVersion inc w₀ sender' receiver h := by
  refine { hd with digests := hdigests.trans hd.digests, window := ?_ }
  have hw := hd.window
  unfold Window at hw ⊢
  rwa [hcc, hwindow, hdigests]

theorem Dir.frame_receiver {receiver' : Circuit} (hd : Dir digest emitVersion inc w₀ sender receiver h)
    (hwindow : receiver'.edge.deliverWindow = receiver.edge.deliverWindow)
    (hcount : sendmeGetIncCount receiver'.edge = sendmeGetIncCount receiver.edge) :
    Dir digest emitVersion inc w₀ sender receiver' h :=
  { hd with deliver := hwindow.trans hd.deliver, count := hcount.trans hd.count }

theorem packaged_spec {c c' : Circuit} {d : Block 20} {nowUsec sent arrived : ℕ}
    (hinc : 2 ≤ inc) (hwindow : Window inc w₀ c sent arrived) (hcan : CanPackage c)
    (hsend : relaySendData d nowUsec c = some c') :
    c'.markedForClose = false ∧ c'.edge.deliverWindow = c.edge.deliverWindow ∧
      sendmeGetIncCount c'.edge = sendmeGetIncCount c.edge ∧
      c'.sendmeLastDigests = (if inc ∣ sent + 1 then c.sendmeLastDigests ++ [d]
        else c.sendmeLastDigests) ∧
      Window inc w₀ c' (sent + 1) arrived := by
  -- the digest is recorded at the multiples of the increment
  have hmarks := sender_marks hinc hwindow hcan
  obtain ⟨_, edge, _, hedge⟩ := relaySendData_eq_some hsend
  have hstep := hsend
  rw [relaySendData_eq hmarks hedge] at hstep
  obtain ⟨hdeliver, hcount, hfixed⟩ := noteCircuitDataPackaged_spec hedge
  have hc' := (Option.some_inj.mp hstep).symm
  have hdigests : c'.sendmeLastDigests =
      if inc ∣ sent + 1 then c.sendmeLastDigests ++ [d] else c.sendmeLastDigests := by
    rw [hc']
    simp only [decide_eq_true_eq]
  have hedge' : c'.edge = edge := by rw [hc']
  have hopen : ¬congestionControlGetPackageWindow edge < 0 → c'.markedForClose = false := by
    intro hnn
    rw [hc']
    simp [hnn, hcan.1]
  rcases hcc : c.edge.ccontrol with _ | cc
  · -- the window was positive, so a cell less does not overspend it
    obtain ⟨hnone, hleft⟩ := hfixed hcc
    have hpos : 0 < c.edge.packageWindow := by
      have hpos := hcan.2
      rwa [congestionControlGetPackageWindow, hcc] at hpos
    have hnn : ¬congestionControlGetPackageWindow edge < 0 := by
      rw [congestionControlGetPackageWindow, hnone]
      show ¬edge.packageWindow < 0
      omega
    rw [Window, hcc] at hwindow
    obtain ⟨hinc100, hdvd, hmax, hw⟩ := hwindow
    refine ⟨hopen hnn, by rw [hedge', hdeliver], by rw [hedge', hcount], hdigests, ?_⟩
    rw [Window, hedge', hnone]
    exact ⟨hinc100, hdvd, hmax, by push_cast; omega⟩
  · -- the cell is in flight now, and the records still agree
    rw [Window, hcc] at hwindow
    obtain ⟨hinc', hcovered⟩ := hwindow
    obtain ⟨cc', hcc', hcovered'⟩ := hcovered.package hcc hcan hsend
    have hnn : ¬congestionControlGetPackageWindow edge < 0 := by
      rw [← hedge']
      exact not_lt.mpr (packageWindow_nonneg hcc')
    refine ⟨hopen hnn, by rw [hedge', hdeliver], by rw [hedge', hcount], hdigests, ?_⟩
    have hsame : (cc'.sendmeInc : ℤ) = cc.sendmeInc := by
      rw [← hedge'] at hcount
      simpa only [sendmeGetIncCount, hcc, hcc'] using hcount
    rw [Window, hcc']
    exact ⟨by omega, hcovered'⟩

theorem received_spec {c : Circuit} {received : ℕ} (hinc : 0 < inc) (hle : inc ≤ 1000)
    (hopen : c.markedForClose = false) (hcount : sendmeGetIncCount c.edge = inc)
    (hwindow : c.edge.deliverWindow = 1000 - (received % inc : ℕ)) (d : Block 20) :
    ∃ c', receiveData emitVersion d c = some (c',
        if inc ∣ received + 1 then [sendCircuitLevelSendme emitVersion d] else []) ∧
      c'.markedForClose = false ∧ c'.edge.deliverWindow = 1000 - ((received + 1) % inc : ℕ) ∧
      sendmeGetIncCount c'.edge = inc := by
  have hnext := receiver_marks hinc hcount hwindow
  have hlt := Nat.mod_lt received hinc
  have hnn : ¬(1000 - (received % inc : ℕ) - 1 : ℤ) < 0 := by omega
  unfold receiveData
  rw [if_neg (by simp [hopen])]
  by_cases hdvd : inc ∣ received + 1
  · have hrecord : sendmeRecordReceivedCellDigest d c = some { c with sendmeDigest := d } := by
      simp only [sendmeRecordReceivedCellDigest, hnext, hdvd, decide_true, Option.bind_eq_bind,
        Option.bind_some, if_true]
      rfl
    refine ⟨{ c with
      sendmeDigest := d
      edge := { c.edge with deliverWindow := 1000 - ((received + 1) % inc : ℕ) } }, ?_, hopen, rfl,
      hcount⟩
    simp only [hrecord, Option.bind_eq_bind, Option.bind_some, hwindow, hnn, if_false, hcount,
      considerSending_eq hinc, hdvd, if_true]
    rfl
  · have hrecord : sendmeRecordReceivedCellDigest d c = some c := by
      simp only [sendmeRecordReceivedCellDigest, hnext, hdvd, decide_false, Option.bind_eq_bind,
        Option.bind_some, Bool.false_eq_true, if_false]
      rfl
    refine ⟨{ c with
      edge := { c.edge with deliverWindow := 1000 - ((received + 1) % inc : ℕ) } }, ?_, hopen, rfl,
      hcount⟩
    simp only [hrecord, Option.bind_eq_bind, Option.bind_some, hwindow, hnn, if_false, hcount,
      considerSending_eq hinc, hdvd]
    rfl

theorem processed_spec {c : Circuit} {d : Block 20} {ds : List (Block 20)} {acceptVersion : ℤ}
    {sent arrived : ℕ} (haccept : acceptVersion ≤ sentVersion emitVersion)
    (hopen : c.markedForClose = false) (hdigests : c.sendmeLastDigests = d :: ds) (hwindow : Window inc w₀ c sent arrived)
    (hdue : inc * (arrived + 1) ≤ sent) (env : Env) :
    ∃ c', sendmeProcessCircuitLevel env acceptVersion (sendCircuitLevelSendme emitVersion d) c =
        some (true, c') ∧
      c'.markedForClose = false ∧ c'.sendmeLastDigests = ds ∧
      c'.edge.deliverWindow = c.edge.deliverWindow ∧
      sendmeGetIncCount c'.edge = sendmeGetIncCount c.edge ∧
      Window inc w₀ c' sent (arrived + 1) := by
  have hvalid := sendmeIsValid_send haccept d ds
  unfold sendmeProcessCircuitLevel
  rw [if_neg (by simp [hopen]), hdigests]
  simp only [hvalid, not_true_eq_false, if_false]
  rcases hcc : c.edge.ccontrol with _ | cc
  · rw [Window, hcc] at hwindow
    obtain ⟨rfl, hdvd, hmax, hw⟩ := hwindow
    have hroom : ¬c.edge.packageWindow + circwindowIncrement > circwindowStart := by
      show ¬c.edge.packageWindow + 100 > 1000
      omega
    simp only [hroom, if_false]
    refine ⟨_, rfl, hopen, rfl, rfl, by simp [sendmeGetIncCount, hcc], ?_⟩
    rw [Window]
    refine ⟨rfl, hdvd, hmax, ?_⟩
    show c.edge.packageWindow + 100 = _
    push_cast
    omega
  · rw [Window, hcc] at hwindow
    obtain ⟨hinc, hcovered⟩ := hwindow
    rw [hdigests] at hcovered
    -- a digest was recorded, so there is a timestamp
    have htimes : cc.sendmePendingTimestamps ≠ [] := by
      intro hnil
      have := hcovered.timestamps
      rw [hnil] at this
      cases this
    obtain ⟨cc', hdispatch⟩ := Option.isSome_iff_exists.mp (dispatch_isSome env htimes)
    have hsame := (dispatch_spec hdispatch).2.2.2.1
    simp only [hdispatch, Option.bind_eq_bind, Option.bind_some]
    refine ⟨_, rfl, hopen, rfl, rfl, by simp [sendmeGetIncCount, hcc, hsame], ?_⟩
    rw [Window]
    exact ⟨hsame.trans hinc, (hcovered.sendme hdispatch).2.2⟩

theorem drop_marks_succ {n k : ℕ} (hk : k ≤ n / inc) :
    (marks inc (n + 1)).drop k =
      if inc ∣ n + 1 then (marks inc n).drop k ++ [n + 1] else (marks inc n).drop k := by
  rw [marks_succ]
  split_ifs
  · rw [List.drop_append_of_le_length (by rwa [length_marks])]
  · rfl

theorem Dir.package {sender' : Circuit} {nowUsec : ℕ}
    (hd : Dir digest emitVersion inc w₀ sender receiver h) (hinc : 2 ≤ inc) (hcan : CanPackage sender)
    (hsend : relaySendData (digest (h.sent + 1)) nowUsec sender = some sender') :
    sender'.markedForClose = false ∧ sender'.edge.deliverWindow = sender.edge.deliverWindow ∧
      sendmeGetIncCount sender'.edge = sendmeGetIncCount sender.edge ∧
      Dir digest emitVersion inc w₀ sender' receiver { h with
        data := h.data ++ [h.sent + 1]
        sent := h.sent + 1
        recorded := if sender.sendmeLastDigests.length < sender'.sendmeLastDigests.length
          then h.recorded ++ [h.sent + 1] else h.recorded } := by
  obtain ⟨hopen, hdeliver, hcount, hdigests, hwindow⟩ :=
    packaged_spec hinc hd.window hcan hsend
  have hle := hd.received_le
  have harrived : h.arrived ≤ h.sent / inc :=
    hd.arrived_le.trans (Nat.div_le_div_right hle)
  refine ⟨hopen, hdeliver, hcount, ?_⟩
  refine ⟨?_, ?_, ?_, hd.answered, hd.arrived_le, ?_, hd.sendmes, hwindow, hd.deliver, hd.count⟩
  · show h.received ≤ h.sent + 1
    omega
  · show h.data ++ [h.sent + 1] = List.range' (h.received + 1) (h.sent + 1 - h.received)
    have hlength : h.sent + 1 - h.received = h.sent - h.received + 1 := by omega
    have hlast : h.received + 1 + (h.sent - h.received) = h.sent + 1 := by omega
    rw [hlength, List.range'_1_concat, hlast, hd.data]
  · show (if _ then _ else _) = marks inc (h.sent + 1)
    rw [hdigests, marks_succ, hd.recorded]
    by_cases hdvd : inc ∣ h.sent + 1
    · rw [if_pos hdvd, if_pos hdvd, if_pos (by simp)]
    · rw [if_neg hdvd, if_neg hdvd, if_neg (by simp)]
  · show sender'.sendmeLastDigests = ((marks inc (h.sent + 1)).drop h.arrived).map digest
    rw [hdigests, drop_marks_succ harrived, hd.digests]
    by_cases hdvd : inc ∣ h.sent + 1
    · rw [if_pos hdvd, if_pos hdvd, List.map_append, List.map_singleton]
    · rw [if_neg hdvd, if_neg hdvd]

theorem Dir.deliverData {receiver' : Circuit} {n : ℕ} {rest : List ℕ} {payloads : List Bytes}
    (hd : Dir digest emitVersion inc w₀ sender receiver h) (hinc : 2 ≤ inc) (hle : inc ≤ 1000)
    (hopen : receiver.markedForClose = false) (hdata : h.data = n :: rest)
    (hreceive : receiveData emitVersion (digest n) receiver = some (receiver', payloads)) :
    receiver'.markedForClose = false ∧
      Dir digest emitVersion inc w₀ sender receiver' { h with
        data := rest
        received := h.received + 1
        sendmes := h.sendmes ++ payloads
        answered := if payloads = [] then h.answered else h.answered ++ [n] } := by
  obtain ⟨c', hc', hopen', hdeliver, hcount⟩ :=
    received_spec (by omega) hle hopen hd.count hd.deliver (digest n)
  rw [hreceive] at hc'
  cases hc'
  -- the first cell on the way is the next one
  have hnext : n = h.received + 1 ∧ h.received + 1 ≤ h.sent ∧
      rest = List.range' (h.received + 1 + 1) (h.sent - (h.received + 1)) := by
    have hrange := hd.data
    rw [hdata] at hrange
    rcases hk : h.sent - h.received with _ | k
    · rw [hk] at hrange
      cases hrange
    · rw [hk, List.range'_succ] at hrange
      have hleft : h.sent - (h.received + 1) = k := by omega
      rw [hleft]
      exact ⟨(List.cons.inj hrange).1, by omega, (List.cons.inj hrange).2⟩
  obtain ⟨rfl, hsent, hrest⟩ := hnext
  refine ⟨hopen', ?_⟩
  refine ⟨hsent, hrest, hd.recorded, ?_, ?_, hd.digests, ?_, hd.window, hdeliver, hcount⟩
  · show (if _ then _ else _) = marks inc (h.received + 1)
    rw [marks_succ, hd.answered]
    by_cases hdvd : inc ∣ h.received + 1
    · rw [if_pos hdvd, if_pos hdvd, if_neg (by simp)]
    · rw [if_neg hdvd, if_neg hdvd, if_pos rfl]
  · exact hd.arrived_le.trans (Nat.div_le_div_right (Nat.le_succ _))
  · show h.sendmes ++ _ = ((marks inc (h.received + 1)).drop h.arrived).map _
    rw [drop_marks_succ hd.arrived_le, hd.sendmes]
    by_cases hdvd : inc ∣ h.received + 1
    · rw [if_pos hdvd, if_pos hdvd, List.map_append, List.map_singleton]
    · rw [if_neg hdvd, if_neg hdvd, List.append_nil]

theorem Dir.deliverSendme {payload : Bytes} {rest : List Bytes} {acceptVersion : ℤ}
    (hd : Dir digest emitVersion inc w₀ sender receiver h) (hinc : 0 < inc)
    (haccept : acceptVersion ≤ sentVersion emitVersion) (hopen : sender.markedForClose = false)
    (hsendmes : h.sendmes = payload :: rest) (env : Env) :
    ∃ sender', sendmeProcessCircuitLevel env acceptVersion payload sender = some (true, sender') ∧
      sender'.markedForClose = false ∧ sender'.edge.deliverWindow = sender.edge.deliverWindow ∧
      sendmeGetIncCount sender'.edge = sendmeGetIncCount sender.edge ∧
      Dir digest emitVersion inc w₀ sender' receiver { h with
        sendmes := rest
        arrived := h.arrived + 1 } := by
  have hmap := hd.sendmes
  rw [hsendmes] at hmap
  obtain ⟨m, ms, hdrop, rfl, rfl⟩ := List.map_eq_cons_iff.mp hmap.symm
  have hrest : (marks inc h.received).drop (h.arrived + 1) = ms := by
    rw [← List.tail_drop, hdrop, List.tail_cons]
  have hlength : h.arrived < h.received / inc := by
    have hlen := congrArg List.length hdrop
    rw [List.length_drop, length_marks, List.length_cons] at hlen
    omega
  -- what is answered was recorded, in the same order
  obtain ⟨later, hprefix⟩ := (marks_isPrefix inc hd.received_le).drop h.arrived
  rw [hdrop] at hprefix
  have hlater : (marks inc h.sent).drop (h.arrived + 1) = ms ++ later := by
    rw [← List.tail_drop, ← hprefix, List.cons_append, List.tail_cons]
  have hdigests : sender.sendmeLastDigests = digest m :: (ms ++ later).map digest := by
    rw [hd.digests, ← hprefix, List.cons_append, List.map_cons]
  -- the SENDME is for cells that were sent, so the window has room for it
  have hdue : inc * (h.arrived + 1) ≤ h.sent := by
    have hmul := (Nat.le_div_iff_mul_le hinc).mp hlength
    rw [Nat.mul_comm]
    exact le_trans hmul hd.received_le
  obtain ⟨sender', hprocess, hopen', hleft, hdeliver, hcount, hwindow⟩ :=
    processed_spec haccept hopen hdigests hd.window hdue env
  refine ⟨sender', hprocess, hopen', hdeliver, hcount, ?_⟩
  refine ⟨hd.received_le, hd.data, hd.recorded, hd.answered, hlength, ?_, ?_, hwindow, hd.deliver,
    hd.count⟩
  · show sender'.sendmeLastDigests = ((marks inc h.sent).drop (h.arrived + 1)).map digest
    rw [hleft, hlater]
  · show ms.map _ = ((marks inc h.received).drop (h.arrived + 1)).map _
    rw [hrest]

/-! ### Runs -/

structure Synced (w : Setup) (s : Network) : Prop where
  opened : ∀ side, (s.endpoint side).markedForClose = false
  dir : ∀ side, Dir (w.digest side) (w.emitVersion !side) (increment w)
    (circuitInitialPackageWindow (w.ns side)) (s.endpoint side) (s.endpoint !side) (s.half side)

theorem circuitInitialPackageWindow_le (ns : Consensus) : circuitInitialPackageWindow ns ≤ 1000 := by
  have hmem := networkstatusGetParam_mem ns .circwindow circwindowStart
    (show (100 : ℤ) ≤ circwindowStart by decide)
  simp only [circuitInitialPackageWindow]
  split_ifs
  · exact le_refl _
  · exact hmem.2

theorem synced_init (w : Setup) (hagree : Agreeing w) :
    Synced w ⟨fun side => circuitNew (w.ns side) w.params (w.path side),
      fun _ => ⟨[], [], 0, 0, 0, [], []⟩⟩ where
  opened _ := rfl
  dir side := by
    refine ⟨le_refl _, rfl, by simp, by simp, Nat.zero_le _, by simp [circuitNew], by simp, ?_,
      by simp [circuitNew], ?_⟩
    · unfold Window
      unfold Agreeing at hagree
      by_cases hen : w.params.ccEnabled
      · simp only [circuitNew, hen, if_true, increment]
        refine ⟨rfl, Word.wrap_lt 64 _, Nat.two_pow_pos 64, by simp [congestionControlNew],
          by simp, rfl⟩
      · rw [if_neg hen] at hagree
        simp only [circuitNew, hen, increment]
        exact ⟨rfl, hagree side, circuitInitialPackageWindow_le _, by simp⟩
    · by_cases hen : w.params.ccEnabled
      · simp [circuitNew, sendmeGetIncCount, increment, hen, congestionControlNew]
      · simp [circuitNew, sendmeGetIncCount, increment, hen]

theorem two_le_increment {w : Setup} (hadmitted : w.params.ccEnabled → w.params.sendmeIncCells ≠ 0)
    (hagree : Agreeing w) : 2 ≤ increment w ∧ increment w ≤ 255 := by
  unfold increment
  unfold Agreeing at hagree
  by_cases hen : w.params.ccEnabled
  · rw [if_pos hen] at hagree ⊢
    have h0 : w.params.sendmeIncCells.toNat ≠ 0 := fun h =>
      hadmitted hen (UInt8.toNat_inj.mp (by simpa using h))
    have h1 : w.params.sendmeIncCells.toNat ≠ 1 := fun h =>
      hagree (UInt8.toNat_inj.mp (by simpa using h))
    have hlt := w.params.sendmeIncCells.toNat_lt
    omega
  · rw [if_neg hen]
    omega

/-- A step at `side` of its own direction: that direction moves, and the other sees
its receiver with the same deliver window and increment. -/
theorem Synced.sender_step {w : Setup} {s : Network} {side : Bool} {c' : Circuit} {h' : Half}
    (hs : Synced w s) (hopen : c'.markedForClose = false)
    (hdeliver : c'.edge.deliverWindow = (s.endpoint side).edge.deliverWindow)
    (hcount : sendmeGetIncCount c'.edge = sendmeGetIncCount (s.endpoint side).edge)
    (hdir : Dir (w.digest side) (w.emitVersion !side) (increment w)
      (circuitInitialPackageWindow (w.ns side)) c' (s.endpoint !side) h') :
    Synced w ⟨Function.update s.endpoint side c', Function.update s.half side h'⟩ := by
  refine ⟨fun side' => ?_, fun side' => ?_⟩
  · by_cases hside : side' = side
    · subst hside
      simpa using hopen
    · simpa [Function.update_of_ne hside] using hs.opened side'
  · by_cases hside : side' = side
    · subst hside
      simpa [Function.update_of_ne (Bool.not_ne_self side')] using hdir
    · -- the sender of one direction is the receiver of the other
      have hother : side = !side' := Bool.eq_not_of_ne (Ne.symm hside)
      subst hother
      simpa [Function.update_of_ne hside] using (hs.dir side').frame_receiver hdeliver hcount

/-- A step at the other end of the direction of `side`: that direction moves, and the
other sees a sender that sends as before. -/
theorem Synced.receiver_step {w : Setup} {s : Network} {side : Bool} {c' : Circuit} {h' : Half}
    (hs : Synced w s) (hopen : c'.markedForClose = false)
    (hcc : c'.edge.ccontrol = (s.endpoint !side).edge.ccontrol)
    (hwindow : c'.edge.packageWindow = (s.endpoint !side).edge.packageWindow)
    (hdigests : c'.sendmeLastDigests = (s.endpoint !side).sendmeLastDigests)
    (hdir : Dir (w.digest side) (w.emitVersion !side) (increment w)
      (circuitInitialPackageWindow (w.ns side)) (s.endpoint side) c' h') :
    Synced w ⟨Function.update s.endpoint (!side) c', Function.update s.half side h'⟩ := by
  refine ⟨fun side' => ?_, fun side' => ?_⟩
  · by_cases hside : side' = !side
    · subst hside
      simpa using hopen
    · simpa [Function.update_of_ne hside] using hs.opened side'
  · by_cases hside : side' = side
    · subst hside
      simpa [Function.update_of_ne (Bool.self_ne_not side')] using hdir
    · have hother : side = !side' := Bool.eq_not_of_ne (Ne.symm hside)
      subst hother
      have hframe := (hs.dir (!!side')).frame_sender (by simpa using hcc) (by simpa using hwindow)
        (by simpa using hdigests)
      simpa [Function.update_of_ne hside] using hframe

theorem synced_inductive (w : Setup)
    (hadmitted : w.params.ccEnabled → w.params.sendmeIncCells ≠ 0)
    (haccept : ∀ side, w.acceptVersion side ≤ sentVersion (w.emitVersion !side))
    (hagree : Agreeing w) :
    Inductive (system w) (fun _ _ => True) (Synced w) where
  init := by
    rintro s rfl
    exact synced_init w hagree
  step := by
    rintro s a s' hs - hstep
    obtain ⟨hinc, hmax⟩ := two_le_increment hadmitted hagree
    cases a with
    | package side nowUsec =>
      obtain ⟨hcan, c', hsend, rfl⟩ := hstep
      obtain ⟨hopen, hdeliver, hcount, hdir⟩ := (hs.dir side).package hinc hcan hsend
      exact hs.sender_step hopen hdeliver hcount hdir
    | deliverData side =>
      obtain ⟨n, rest, c', payloads, hdata, hreceive, rfl⟩ := hstep
      obtain ⟨hopen, hdir⟩ := (hs.dir side).deliverData hinc (by omega) (hs.opened !side) hdata
        hreceive
      obtain ⟨hcc, hwindow, hdigests, -⟩ := receiveData_frame hreceive
      exact hs.receiver_step hopen hcc hwindow hdigests hdir
    | deliverSendme side env =>
      obtain ⟨payload, rest, accepted, c', hsendmes, hprocess, rfl⟩ := hstep
      obtain ⟨c'', hprocess', hopen, hdeliver, hcount, hdir⟩ :=
        (hs.dir side).deliverSendme (by omega) (haccept side) (hs.opened side) hsendmes env
      -- the step of the run is the one that was shown to be accepted
      rw [hprocess] at hprocess'
      cases hprocess'
      exact hs.sender_step hopen hdeliver hcount hdir

/-- The two ends of a direction are in step: the circuit is open, the next SENDME
is accepted, the SENDMEs on the way carry the oldest digests, there is a digest and
a time for each of them, and of the cells that have arrived those were recorded that
were answered. -/
structure InStep (w : Setup) (s : Network) (side : Bool) : Prop where
  opened : (s.endpoint side).markedForClose = false
  accepted : ∀ payload rest, (s.half side).sendmes = payload :: rest → ∀ env, ∃ c,
    sendmeProcessCircuitLevel env (w.acceptVersion side) payload (s.endpoint side) = some (true, c)
  carried : (s.half side).sendmes <+:
    (s.endpoint side).sendmeLastDigests.map (sendCircuitLevelSendme (w.emitVersion !side))
  pending : (s.half side).sendmes ≠ [] → (s.endpoint side).sendmeLastDigests ≠ [] ∧
    ∀ cc ∈ (s.endpoint side).edge.ccontrol, cc.sendmePendingTimestamps ≠ []
  recorded : ∀ n ≤ (s.half side).received,
    n ∈ (s.half side).recorded ↔ n ∈ (s.half side).answered

theorem Synced.inStep {w : Setup} {s : Network} (hs : Synced w s) (hinc : 0 < increment w)
    (haccept : ∀ side, w.acceptVersion side ≤ sentVersion (w.emitVersion !side)) (side : Bool) :
    InStep w s side := by
  have hd := hs.dir side
  have hcarried : (s.half side).sendmes <+:
      (s.endpoint side).sendmeLastDigests.map (sendCircuitLevelSendme (w.emitVersion !side)) := by
    rw [hd.sendmes, hd.digests, List.map_map]
    exact ((marks_isPrefix _ hd.received_le).drop _).map _
  refine ⟨hs.opened side, ?_, hcarried, ?_, ?_⟩
  · intro payload rest hsendmes env
    obtain ⟨c, hprocess, -⟩ := hd.deliverSendme hinc (haccept side) (hs.opened side) hsendmes env
    exact ⟨c, hprocess⟩
  · -- there is a digest for each SENDME on the way, and a time for each digest
    intro hne
    have hdigests : (s.endpoint side).sendmeLastDigests ≠ [] := by
      intro hnil
      rw [hnil, List.map_nil, List.prefix_nil] at hcarried
      exact hne hcarried
    refine ⟨hdigests, fun cc hcc hnil => ?_⟩
    have hw := hd.window
    rw [Window, Option.mem_def.mp hcc] at hw
    have htimes := hw.2.timestamps
    rw [hnil] at htimes
    exact hdigests (List.length_eq_zero_iff.mp htimes.symm)
  · -- of the cells that have arrived, both lists are the multiples
    intro n hn
    rw [hd.recorded, hd.answered, mem_marks, mem_marks]
    have hle := hd.received_le
    constructor
    · rintro ⟨hpos, -, hdvd⟩
      exact ⟨hpos, hn, hdvd⟩
    · rintro ⟨hpos, -, hdvd⟩
      exact ⟨hpos, by omega, hdvd⟩

/-- Every SENDME is accepted, in any order of the steps. -/
theorem sendmes_accepted (w : Setup)
    (hadmitted : w.params.ccEnabled → w.params.sendmeIncCells ≠ 0)
    (haccept : ∀ side, w.acceptVersion side ≤ sentVersion (w.emitVersion !side))
    (hagree : Agreeing w) {s : Network}
    (hr : Reached (system w) (fun _ _ => True) s) (side : Bool) : InStep w s side := by
  have hinc := (two_le_increment hadmitted hagree).1
  exact (hr.invariant (synced_inductive w hadmitted haccept hagree)).inStep (by omega) haccept side

/-- A circuit with congestion control, by default parameters, at both ends. -/
def sampleSetup (sendmeInc : UInt8) : Setup where
  params := ⟨true, sendmeInc⟩
  ns _ _ := none
  path _ := .exit
  acceptVersion _ := 0
  emitVersion _ := 1
  digest _ _ := zeroFill 20 []

def sampleSender (sendmeInc : UInt8) : Circuit :=
  let c := circuitNew (fun _ => none) ⟨true, sendmeInc⟩ .exit
  { c with edge := { c.edge with
      ccontrol := some { congestionControlNew (fun _ => none) ⟨true, sendmeInc⟩ .exit with
        inflight := 1 } } }

theorem relaySendData_first : ∀ sendmeInc ∈ ([1, 2] : List UInt8),
    CanPackage (circuitNew (fun _ => none) ⟨true, sendmeInc⟩ .exit) ∧
      relaySendData (zeroFill 20 []) 0 (circuitNew (fun _ => none) ⟨true, sendmeInc⟩ .exit) =
        some (sampleSender sendmeInc) := by
  unfold CanPackage
  decide +kernel

def sampleNetwork (sendmeInc : UInt8) : Network :=
  ⟨Function.update (fun _ => circuitNew (fun _ => none) ⟨true, sendmeInc⟩ .exit) true
      (sampleSender sendmeInc),
    Function.update (fun _ => ⟨[], [], 0, 0, 0, [], []⟩) true ⟨[1], [], 1, 0, 0, [], []⟩⟩

theorem reached_sampleNetwork {sendmeInc : UInt8} (hmem : sendmeInc ∈ ([1, 2] : List UInt8)) :
    Reached (system (sampleSetup sendmeInc)) (fun _ _ => True) (sampleNetwork sendmeInc) := by
  obtain ⟨hcan, hsend⟩ := relaySendData_first sendmeInc hmem
  have hstep : (system (sampleSetup sendmeInc)).step
      ⟨fun _ => circuitNew (fun _ => none) ⟨true, sendmeInc⟩ .exit,
        fun _ => ⟨[], [], 0, 0, 0, [], []⟩⟩ (.package true 0) (sampleNetwork sendmeInc) :=
    ⟨hcan, sampleSender sendmeInc, hsend, rfl⟩
  exact .step (.init rfl) trivial hstep

theorem sendmes_accepted_sampleNetwork : InStep (sampleSetup 2) (sampleNetwork 2) true :=
  sendmes_accepted (sampleSetup 2) (fun _ => by decide) (fun _ => (by decide : (0 : ℤ) ≤ 1))
    (show (2 : UInt8) ≠ 1 by decide) (reached_sampleNetwork (by simp)) true

theorem firstCell_not_recorded :
    ¬∀ w : Setup, (w.params.ccEnabled → w.params.sendmeIncCells ≠ 0) →
      (∀ side, w.acceptVersion side ≤ sentVersion (w.emitVersion !side)) →
        ∀ s, Reached (system w) (fun _ _ => True) s → ∀ side, InStep w s side := by
  intro hall
  -- the receiver answers every cell; the sender has passed over its first
  have hreceive : ∃ c', receiveData 1 (zeroFill 20 [])
      (circuitNew (fun _ => none) ⟨true, 1⟩ .exit) =
        some (c', if 1 ∣ 0 + 1 then [sendCircuitLevelSendme 1 (zeroFill 20 [])] else []) ∧
      c'.markedForClose = false ∧ c'.edge.deliverWindow = 1000 - ((0 + 1) % 1 : ℕ) ∧
      sendmeGetIncCount c'.edge = (1 : ℕ) :=
    received_spec (by omega) (by omega) rfl rfl rfl (zeroFill 20 [])
  obtain ⟨c', hreceive, -⟩ := hreceive
  rw [if_pos (one_dvd _)] at hreceive
  have hstep : (system (sampleSetup 1)).step (sampleNetwork 1) (.deliverData true)
      ⟨Function.update (sampleNetwork 1).endpoint false c',
        Function.update (sampleNetwork 1).half true
          ⟨[], [sendCircuitLevelSendme 1 (zeroFill 20 [])], 1, 1, 0, [], [1]⟩⟩ :=
    ⟨1, [], c', [sendCircuitLevelSendme 1 (zeroFill 20 [])], rfl, hreceive, rfl⟩
  have hin := hall (sampleSetup 1) (fun _ => by decide) (fun _ => (by decide : (0 : ℤ) ≤ 1)) _
    (.step (reached_sampleNetwork (by simp)) trivial hstep) true
  exact (hin.pending (by simp)).1 rfl

end SendmeNetwork
