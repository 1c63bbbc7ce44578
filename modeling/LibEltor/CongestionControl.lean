/-
The congestion control object of a circuit (`core/or/congestion_control_st.h`,
`core/or/congestion_control_common.c`), and the flow control windows it stands
next to.

Sending is governed by one of two counters: the package window of the fixed
algorithm, or the number of cells in flight where congestion control is in use.
Both ends decide from their own counter which DATA cell is answered by a SENDME:
the sender with `circuitSentCellForSendme`, the receiver with
`circuitSendmeCellIsNext`.
-/
import LibEltor.Word

open Word

namespace CongestionControl

/-! ### Parameters of the consensus -/

inductive ConsensusParam
  | circwindow | ccCwndInit | ccCwndIncPctSs | ccCwndInc | ccCwndIncRate | ccCwndMin | ccCwndMax
  | ccSendmeInc | ccRttResetPct | ccEwmaCwndPct | ccEwmaMax | ccEwmaSs
  | ccVegasAlphaSbws | ccVegasBetaSbws | ccVegasGammaSbws | ccVegasDeltaSbws | ccSscapSbws
  | ccVegasAlphaExit | ccVegasBetaExit | ccVegasGammaExit | ccVegasDeltaExit | ccSscapExit
  | ccVegasAlphaOnion | ccVegasBetaOnion | ccVegasGammaOnion | ccVegasDeltaOnion | ccSscapOnion
  | ccSsMax | ccCwndFullMinpct | ccCwndFullGap | ccCwndFullPerCwnd
  | ccXoffClient | ccXoffExit | ccXonChangePct | ccXonRate | ccXonEwmaCnt
  deriving DecidableEq

abbrev Consensus := ConsensusParam → Option ℤ

def networkstatusGetParam (ns : Consensus) (param : ConsensusParam) (dflt lo hi : ℤ) : ℤ :=
  let res := (ns param).getD dflt
  if res < lo then lo else if res > hi then hi else res

theorem networkstatusGetParam_mem (ns : Consensus) (param : ConsensusParam) (dflt : ℤ) {lo hi : ℤ}
    (h : lo ≤ hi) :
    lo ≤ networkstatusGetParam ns param dflt lo hi ∧
      networkstatusGetParam ns param dflt lo hi ≤ hi := by
  simp only [networkstatusGetParam]
  split_ifs <;> omega

theorem stored_mem (w : ℕ) (ns : Consensus) (param : ConsensusParam) (dflt lo hi : ℤ)
    (h0 : 0 ≤ lo) (h : lo ≤ hi) (hw : hi < 2 ^ w) :
    lo ≤ wrap w (networkstatusGetParam ns param dflt lo hi) ∧
      wrap w (networkstatusGetParam ns param dflt lo hi) ≤ hi := by
  have hmem := networkstatusGetParam_mem ns param dflt h
  rw [wrap_of_mem (by omega) (by omega)]
  exact hmem

abbrev int16Max : ℤ := 32767
abbrev int32Max : ℤ := 2147483647

def tlsRecordMaxCells : ℤ := 16 * 1024 / 2053

abbrev sendmeIncDflt : ℤ := tlsRecordMaxCells
abbrev circwindowInit : ℤ := 4 * sendmeIncDflt

/-- `CIRCWINDOW_START`, which is also `CIRCWINDOW_START_MAX`. -/
abbrev circwindowStart : ℤ := 1000
abbrev circwindowIncrement : ℤ := 100

def circuitInitialPackageWindow (ns : Consensus) : ℤ :=
  let num := networkstatusGetParam ns .circwindow circwindowStart 100 circwindowStart
  if num < 0 then circwindowStart else num

/-! ### The congestion control object -/

/-- `vegas_params_t`: the first two fields have 32 bits, the others 16. -/
structure VegasParams where
  ssCwndCap : ℕ
  ssCwndMax : ℕ
  gamma : ℕ
  alpha : ℕ
  beta : ℕ
  delta : ℕ
  deriving DecidableEq

/-- `congestion_control_t`.  The times, `bdp`, `cwnd` and `inflight` have 64
bits; the counters of events, the percentage, the increment and `cwndMin` have
16; `cwndIncRate` and `sendmeInc` have 8. -/
structure CongestionControl where
  sendmePendingTimestamps : List ℕ
  ewmaRttUsec : ℕ
  minRttUsec : ℕ
  maxRttUsec : ℕ
  bdp : ℕ
  cwnd : ℕ
  inflight : ℕ
  nextCcEvent : ℕ
  nextCwndEvent : ℕ
  inSlowStart : Bool
  cwndFull : Bool
  blockedChan : Bool
  cwndIncPctSs : ℕ
  cwndInc : ℕ
  cwndMin : ℕ
  cwndIncRate : ℕ
  sendmeInc : ℕ
  vegasParams : VegasParams
  deriving DecidableEq

def cwndUpdateRate (cc : CongestionControl) : ℕ :=
  if cc.inSlowStart then 1
  else u64 (cc.cwnd + cc.cwndIncRate * cc.sendmeInc / 2) / (cc.cwndIncRate * cc.sendmeInc)

def sendmePerCwnd (cc : CongestionControl) : ℕ :=
  u64 (cc.cwnd + cc.sendmeInc / 2) / cc.sendmeInc

structure CircuitParams where
  ccEnabled : Bool
  sendmeIncCells : UInt8
  deriving DecidableEq

inductive CcPath
  | exit | onion | onionSos | onionVg | sbws
  deriving DecidableEq

abbrev outbufCells : ℤ := 2 * tlsRecordMaxCells

def congestionControlVegasSetParams (ns : Consensus) (path : CcPath) : VegasParams :=
  let get (a b g d s : ConsensusParam) (alpha beta gamma delta ssCwndCap : ℤ) : VegasParams :=
    { ssCwndCap := u32 (networkstatusGetParam ns s ssCwndCap 100 int32Max)
      ssCwndMax := u32 (networkstatusGetParam ns .ccSsMax 5000 500 int32Max)
      alpha := u16 (networkstatusGetParam ns a alpha 0 1000)
      beta := u16 (networkstatusGetParam ns b beta 0 1000)
      gamma := u16 (networkstatusGetParam ns g gamma 0 1000)
      delta := u16 (networkstatusGetParam ns d delta 0 int32Max) }
  match path with
  | .sbws =>
    get .ccVegasAlphaSbws .ccVegasBetaSbws .ccVegasGammaSbws .ccVegasDeltaSbws .ccSscapSbws
      (2 * outbufCells - tlsRecordMaxCells) (2 * outbufCells + tlsRecordMaxCells)
      (2 * outbufCells) (4 * outbufCells) 400
  | .exit | .onionSos =>
    get .ccVegasAlphaExit .ccVegasBetaExit .ccVegasGammaExit .ccVegasDeltaExit .ccSscapExit
      (3 * outbufCells) (4 * outbufCells) (3 * outbufCells) (5 * outbufCells) 600
  | .onion | .onionVg =>
    get .ccVegasAlphaOnion .ccVegasBetaOnion .ccVegasGammaOnion .ccVegasDeltaOnion .ccSscapOnion
      (3 * outbufCells) (6 * outbufCells) (4 * outbufCells) (7 * outbufCells) 475

/-- `congestion_control_new`, with `congestion_control_init` and
`congestion_control_init_params`. -/
def congestionControlNew (ns : Consensus) (params : CircuitParams) (path : CcPath) :
    CongestionControl where
  sendmePendingTimestamps := []
  ewmaRttUsec := 0
  minRttUsec := 0
  maxRttUsec := 0
  bdp := 0
  cwnd := u64 (networkstatusGetParam ns .ccCwndInit circwindowInit sendmeIncDflt 10000)
  inflight := 0
  -- `CWND_UPDATE_RATE` is 1 in slow start
  nextCcEvent := 1
  nextCwndEvent := 0
  inSlowStart := true
  cwndFull := false
  blockedChan := false
  cwndIncPctSs := u16 (networkstatusGetParam ns .ccCwndIncPctSs 100 1 500)
  cwndInc := u16 (networkstatusGetParam ns .ccCwndInc 1 1 1000)
  cwndMin := u16 (networkstatusGetParam ns .ccCwndMin circwindowInit sendmeIncDflt 1000)
  cwndIncRate := u8 (networkstatusGetParam ns .ccCwndIncRate sendmeIncDflt 1 250)
  sendmeInc := params.sendmeIncCells.toNat
  vegasParams := congestionControlVegasSetParams ns path

/-! ### The windows of an edge -/

/-- The flow control of a circuit at an edge: that of the last hop at the client
(`crypt_path_t`), that of the circuit itself at the other end (`circuit_t`). -/
structure Edge where
  packageWindow : ℤ
  deliverWindow : ℤ
  ccontrol : Option CongestionControl
  deriving DecidableEq

def sendmeGetIncCount (edge : Edge) : ℤ :=
  match edge.ccontrol with
  | none => circwindowIncrement
  | some cc => cc.sendmeInc

def congestionControlGetPackageWindow (edge : Edge) : ℤ :=
  match edge.ccontrol with
  | none => edge.packageWindow
  | some cc =>
    -- the window may have been lowered below what is in flight
    if cc.inflight > cc.cwnd then 0
    else if (cc.cwnd : ℤ) - cc.inflight > int32Max then int32Max
    else cc.cwnd - cc.inflight

theorem packageWindow_idle {cc : CongestionControl} {edge : Edge} (hcwnd : cc.cwnd ≤ 2147483647)
    (hedge : edge.ccontrol = some { cc with inflight := 0 }) :
    congestionControlGetPackageWindow edge = cc.cwnd := by
  have hmax : ¬(cc.cwnd : ℤ) - (0 : ℕ) > int32Max := by
    have hle : (cc.cwnd : ℤ) - (0 : ℕ) ≤ 2147483647 := by omega
    exact not_lt.mpr hle
  rw [congestionControlGetPackageWindow, hedge]
  show (if (0 : ℕ) > cc.cwnd then (0 : ℤ)
    else if (cc.cwnd : ℤ) - (0 : ℕ) > int32Max then int32Max else cc.cwnd - (0 : ℕ)) = cc.cwnd
  rw [if_neg (Nat.not_lt_zero _), if_neg hmax]
  omega

theorem inflight_lt_cwnd {cc : CongestionControl} {edge : Edge} (hcc : edge.ccontrol = some cc)
    (h : 0 < congestionControlGetPackageWindow edge) : cc.inflight < cc.cwnd := by
  -- at or above the window, the difference shows as zero
  by_contra hge
  have hle : (cc.cwnd : ℤ) - cc.inflight ≤ 0 := by omega
  have hmax : ¬(cc.cwnd : ℤ) - cc.inflight > int32Max := not_lt.mpr (hle.trans (by decide))
  rw [congestionControlGetPackageWindow, hcc] at h
  simp only [if_neg hmax] at h
  split_ifs at h <;> omega

theorem packageWindow_nonneg {cc : CongestionControl} {edge : Edge}
    (hcc : edge.ccontrol = some cc) : 0 ≤ congestionControlGetPackageWindow edge := by
  rw [congestionControlGetPackageWindow, hcc]
  simp only
  split_ifs
  · exact le_refl _
  · decide
  · omega

/-- `circuit_sent_cell_for_sendme`; there is no result where it divides by zero. -/
def circuitSentCellForSendme (edge : Edge) : Option Bool :=
  match edge.ccontrol with
  | some cc =>
    -- the first cell is never one of them
    if cc.inflight = 0 then some false
    else do return (← umod (u64 (cc.inflight + 1)) cc.sendmeInc) = 0
  | none =>
    -- at the start of the window no SENDME is expected
    if edge.packageWindow = circwindowStart then some false
    else do return (← imod (edge.packageWindow - 1) circwindowIncrement) = 0

def circuitSendmeCellIsNext (deliverWindow sendmeInc : ℤ) : Option Bool := do
  return (← imod (circwindowStart - (deliverWindow - 1)) sendmeInc) = 0

/-- `congestion_control_note_cell_sent`: the answer of `circuit_sent_cell_for_sendme`
is that before the cell is counted. -/
def congestionControlNoteCellSent (edge : Edge) (cc : CongestionControl) (nowUsec : ℕ) :
    Option CongestionControl := do
  let counted : CongestionControl := { cc with inflight := u64 (cc.inflight + 1) }
  if ← circuitSentCellForSendme edge then
    return { counted with sendmePendingTimestamps := cc.sendmePendingTimestamps ++ [nowUsec] }
  else
    return counted

/-- The cells for which a SENDME is expected, by the count of cells in flight. -/
def NotesSendme (cc : CongestionControl) : Prop :=
  cc.inflight ≠ 0 ∧ (cc.inflight + 1) % cc.sendmeInc = 0

instance (cc : CongestionControl) : Decidable (NotesSendme cc) :=
  inferInstanceAs (Decidable (_ ∧ _))

theorem circuitSentCellForSendme_eq {edge : Edge} {cc : CongestionControl}
    (hcc : edge.ccontrol = some cc) (hlt : cc.inflight + 1 < 2 ^ 64)
    (hdef : cc.inflight = 0 ∨ cc.sendmeInc ≠ 0) :
    circuitSentCellForSendme edge = some (decide (NotesSendme cc)) := by
  have hcount : u64 (cc.inflight + 1) = cc.inflight + 1 := by
    exact_mod_cast wrap_natCast hlt
  rw [circuitSentCellForSendme, hcc]
  show (if cc.inflight = 0 then some false
    else (umod (u64 (cc.inflight + 1)) cc.sendmeInc).bind fun r => some (decide (r = 0))) = _
  by_cases h0 : cc.inflight = 0
  · simp [h0, NotesSendme]
  · -- a cell in flight, so the count is divided by the increment
    have hinc : cc.sendmeInc ≠ 0 := hdef.resolve_left h0
    simp [h0, NotesSendme, hcount, umod, hinc]

theorem circuitSentCellForSendme_eq_some {edge : Edge} {cc : CongestionControl} {sent : Bool}
    (hcc : edge.ccontrol = some cc) (h : circuitSentCellForSendme edge = some sent) :
    cc.inflight = 0 ∨ cc.sendmeInc ≠ 0 := by
  by_contra hno
  obtain ⟨hpos, hzero⟩ := not_or.mp hno
  rw [circuitSentCellForSendme, hcc] at h
  simp [hpos, not_not.mp hzero, umod] at h

theorem noteCellSent_eq {edge : Edge} {cc : CongestionControl} (hcc : edge.ccontrol = some cc)
    (hlt : cc.inflight + 1 < 2 ^ 64) (hdef : cc.inflight = 0 ∨ cc.sendmeInc ≠ 0) (nowUsec : ℕ) :
    congestionControlNoteCellSent edge cc nowUsec = some { cc with
      inflight := cc.inflight + 1
      sendmePendingTimestamps :=
        if NotesSendme cc then cc.sendmePendingTimestamps ++ [nowUsec]
        else cc.sendmePendingTimestamps } := by
  have hcount : u64 (cc.inflight + 1) = cc.inflight + 1 := by
    exact_mod_cast wrap_natCast hlt
  simp only [congestionControlNoteCellSent, circuitSentCellForSendme_eq hcc hlt hdef,
    Option.bind_eq_bind, Option.bind_some, hcount, decide_eq_true_eq]
  split_ifs <;> rfl

theorem sendme_defined {edge : Edge} (h : ∀ cc ∈ edge.ccontrol, cc.sendmeInc ≠ 0) :
    (circuitSentCellForSendme edge).isSome ∧
      (circuitSendmeCellIsNext edge.deliverWindow (sendmeGetIncCount edge)).isSome := by
  rcases hcc : edge.ccontrol with _ | cc
  · refine ⟨?_, ?_⟩
    · unfold circuitSentCellForSendme
      rw [hcc]
      show (if _ then _ else _ : Option Bool).isSome
      split_ifs <;> rfl
    · unfold circuitSendmeCellIsNext sendmeGetIncCount
      rw [hcc]
      rfl
  · have hpos : cc.sendmeInc ≠ 0 := h cc hcc
    refine ⟨?_, ?_⟩
    · unfold circuitSentCellForSendme
      rw [hcc]
      by_cases h0 : cc.inflight = 0 <;> simp [h0, umod, hpos]
    · unfold circuitSendmeCellIsNext sendmeGetIncCount
      rw [hcc]
      simp [imod, hpos]

end CongestionControl
