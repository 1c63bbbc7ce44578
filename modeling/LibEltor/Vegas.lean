/-
The congestion window (`core/or/congestion_control_common.c`,
`core/or/congestion_control_vegas.c`).

A SENDME updates the round trip time, from it the bandwidth-delay product, and
from that the window, by the rules of TOR_VEGAS; the window is then clamped from
above.  Each branch of the rules assigns one sum or difference to the window,
which is converted to 64 bits.
-/
import LibEltor.CongestionControl
import LibEltor.Transition

open Word CongestionControl

namespace Vegas

/-! ### What a SENDME finds -/

/-- The surroundings of a SENDME: the time, whether some circuit has found the
clock broken, the cells queued for the channel and whether it is blocked, and
the consensus from which the parameters of the algorithm were last cached: those
of all algorithms, and those of `congestion_control_vegas_set_params`. -/
structure Env where
  nowUsec : ℕ
  isMonotimeClockBroken : Bool
  chanQ : ℕ
  blockedOnChan : Bool
  common : Consensus
  full : Consensus

namespace Env

variable (env : Env)

def cwndMax : ℕ := u32 (networkstatusGetParam env.common .ccCwndMax int32Max 500 int32Max)
def rttResetPct : ℕ := u8 (networkstatusGetParam env.common .ccRttResetPct 100 0 100)
def nEwmaCwndPct : ℕ := u8 (networkstatusGetParam env.common .ccEwmaCwndPct 50 1 255)
def nEwmaMax : ℕ := u8 (networkstatusGetParam env.common .ccEwmaMax 10 2 int32Max)
def nEwmaSs : ℕ := u8 (networkstatusGetParam env.common .ccEwmaSs 2 2 int32Max)
def cwndFullMinpct : ℤ := networkstatusGetParam env.full .ccCwndFullMinpct 25 0 100
def cwndFullGap : ℤ := networkstatusGetParam env.full .ccCwndFullGap 4 0 int16Max
def cwndFullPerCwnd : ℤ := networkstatusGetParam env.full .ccCwndFullPerCwnd 1 0 1

end Env

/-! ### Round trip time and bandwidth-delay product -/

def nCountEwma (curr prev n : ℕ) : ℕ :=
  if prev = 0 then curr else u64 (2 * curr + (n - 1) * prev) / u64 (n + 1)

def percentMaxMix (a b pctMax : ℕ) : ℕ :=
  if pctMax > 100 then max a b
  else u64 (u64 (pctMax * max a b) / 100 + u64 ((100 - pctMax) * min a b) / 100)

def nEwmaCount (env : Env) (cc : CongestionControl) : ℕ :=
  let ewmaCnt :=
    if cc.inSlowStart then env.nEwmaSs
    else min (u64 (cwndUpdateRate cc * env.nEwmaCwndPct) / 100) env.nEwmaMax
  max ewmaCnt 2

/-- `dequeue_timestamp`; there is nothing to read in an empty list. -/
def dequeueTimestamp : List ℕ → Option (ℕ × List ℕ)
  | [] => none
  | timestamp :: timestamps => some (timestamp, timestamps)

def timeDeltaShouldUseHeuristics (cc : CongestionControl) : Bool :=
  !cc.inSlowStart && cc.ewmaRttUsec ≠ 0

def timeDeltaStalledOrJumped (cc : CongestionControl) (broken : Bool) (oldDelta newDelta : ℕ) :
    Bool × Bool :=
  if newDelta = 0 then (true, true)
  else if ¬timeDeltaShouldUseHeuristics cc then (false, broken)
  -- a far smaller delta tells of a stalled clock only if one was seen before
  else if oldDelta > u64 (newDelta * 5000) then (broken, broken)
  else if newDelta > u64 (oldDelta * 5000) then (true, broken)
  else (false, false)

def updateMinRtt (env : Env) (cc : CongestionControl) : ℕ :=
  if cc.minRttUsec = 0 then cc.ewmaRttUsec
  else if cc.cwnd = cc.cwndMin ∧ ¬cc.inSlowStart then
    percentMaxMix cc.ewmaRttUsec cc.minRttUsec env.rttResetPct
  else if cc.ewmaRttUsec < cc.minRttUsec then cc.ewmaRttUsec
  else cc.minRttUsec

/-- `congestion_control_update_circuit_rtt`, with the round trip time it returns. -/
def congestionControlUpdateCircuitRtt (env : Env) (cc : CongestionControl) :
    Option (CongestionControl × ℕ) := do
  let (sentAtTimestamp, timestamps) ← dequeueTimestamp cc.sendmePendingTimestamps
  let dequeued : CongestionControl := { cc with sendmePendingTimestamps := timestamps }
  let rtt := u64 (env.nowUsec - sentAtTimestamp)
  if (timeDeltaStalledOrJumped cc env.isMonotimeClockBroken cc.ewmaRttUsec rtt).1 then
    return (dequeued, 0)
  let averaged : CongestionControl := { dequeued with
    ewmaRttUsec := nCountEwma rtt cc.ewmaRttUsec (nEwmaCount env cc)
    maxRttUsec := max rtt cc.maxRttUsec }
  return ({ averaged with minRttUsec := updateMinRtt env averaged }, rtt)

def unqueuedCwnd (env : Env) (cc : CongestionControl) : ℕ :=
  if env.chanQ ≥ cc.cwnd then cc.cwndMin else max (cc.cwnd - env.chanQ) cc.cwndMin

/-- `congestion_control_update_circuit_bdp`, with whether it was updated. -/
def congestionControlUpdateCircuitBdp (env : Env) (cc : CongestionControl) (currRttUsec : ℕ) :
    CongestionControl × Bool :=
  if cc.ewmaRttUsec = 0 then
    -- the clock has been stalled all the time
    ({ cc with
        blockedChan := env.blockedOnChan
        bdp := if env.blockedOnChan then unqueuedCwnd env cc else cc.cwnd },
      env.blockedOnChan)
  else
    ({ cc with
        bdp := u64 (cc.cwnd * cc.minRttUsec) / cc.ewmaRttUsec
        nextCcEvent := if env.blockedOnChan = cc.blockedChan then cc.nextCcEvent else 0
        blockedChan := env.blockedOnChan },
      env.blockedOnChan || currRttUsec ≠ 0)

def congestionControlUpdateCircuitEstimates (env : Env) (cc : CongestionControl) :
    Option (CongestionControl × Bool) := do
  let (cc, currRttUsec) ← congestionControlUpdateCircuitRtt env cc
  return congestionControlUpdateCircuitBdp env cc currRttUsec

/-! ### The window -/

def queueUse (cc : CongestionControl) : ℕ := if cc.bdp > cc.cwnd then 0 else cc.cwnd - cc.bdp

def rfc3742SsInc (cc : CongestionControl) : ℕ :=
  if cc.cwnd ≤ cc.vegasParams.ssCwndCap then u64 (cc.cwndIncPctSs * cc.sendmeInc + 50) / 100
  else max (u64 (cc.sendmeInc * cc.vegasParams.ssCwndCap + cc.cwnd) / u64 (2 * cc.cwnd)) 1

def exitSlowStart (cc : CongestionControl) : CongestionControl := { cc with inSlowStart := false }

/-- `cwnd_became_full` and `cwnd_became_nonfull` -/
def updateFull (env : Env) (cc : CongestionControl) : CongestionControl :=
  if u64 (cc.inflight + env.cwndFullGap * cc.sendmeInc) ≥ cc.cwnd then { cc with cwndFull := true }
  else if u64 (100 * cc.inflight) < u64 (env.cwndFullMinpct * cc.cwnd) then
    { cc with cwndFull := false }
  else cc

def ssSignal (cc : CongestionControl) : Bool :=
  ¬(queueUse cc < cc.vegasParams.gamma ∧ ¬cc.blockedChan)

def slowStartTarget (cc : CongestionControl) : ℤ :=
  if ssSignal cc then cc.bdp + cc.vegasParams.gamma
  else if cc.cwndFull then cc.cwnd + rfc3742SsInc cc
  else cc.cwnd

def slowStart (cc : CongestionControl) : CongestionControl :=
  let moved : CongestionControl := { cc with cwnd := u64 (slowStartTarget cc) }
  let left :=
    if ssSignal cc then exitSlowStart moved
    -- the increment is less than in steady state
    else if cc.cwndFull ∧
        u64 (rfc3742SsInc cc * sendmePerCwnd moved) ≤ cc.cwndInc * cc.cwndIncRate then
      exitSlowStart moved
    else moved
  if left.cwnd ≥ cc.vegasParams.ssCwndMax then
    exitSlowStart { left with cwnd := cc.vegasParams.ssCwndMax }
  else left

def steadyTarget (cc : CongestionControl) : ℤ :=
  if queueUse cc > cc.vegasParams.delta then cc.bdp + cc.vegasParams.delta - cc.cwndInc
  else if queueUse cc > cc.vegasParams.beta ∨ cc.blockedChan then cc.cwnd - cc.cwndInc
  else if cc.cwndFull ∧ queueUse cc < cc.vegasParams.alpha then cc.cwnd + cc.cwndInc
  else cc.cwnd

def steadyState (cc : CongestionControl) : CongestionControl :=
  { cc with cwnd := max (u64 (steadyTarget cc)) cc.cwndMin }

/-- The window after the slow start or the steady state, whichever it is in. -/
def updateWindow (cc : CongestionControl) : CongestionControl :=
  if cc.inSlowStart then slowStart cc
  else if cc.nextCcEvent = 0 then steadyState cc
  else cc

def countAck (cc : CongestionControl) : CongestionControl :=
  { cc with nextCcEvent := cc.nextCcEvent - 1, nextCwndEvent := cc.nextCwndEvent - 1 }

/-- The counters are wound up again, and with them the fullness of the window. -/
def resetEvents (env : Env) (cc : CongestionControl) : CongestionControl :=
  let wound : CongestionControl := { cc with
    nextCwndEvent := if cc.nextCwndEvent = 0 then u16 (sendmePerCwnd cc) else cc.nextCwndEvent
    nextCcEvent := if cc.nextCcEvent = 0 then u16 (cwndUpdateRate cc) else cc.nextCcEvent }
  let reset :=
    if env.cwndFullPerCwnd ≠ 0 then wound.nextCwndEvent = sendmePerCwnd wound
    else wound.nextCcEvent = cwndUpdateRate wound
  if reset then { wound with cwndFull := false } else wound

def ackInflight (cc : CongestionControl) : CongestionControl :=
  { cc with inflight := u64 (cc.inflight - cc.sendmeInc) }

def congestionControlVegasProcessSendme (env : Env) (cc : CongestionControl) :
    Option CongestionControl := do
  let (cc, updated) ← congestionControlUpdateCircuitEstimates env (countAck cc)
  if ¬updated then return ackInflight cc
  return ackInflight (resetEvents env (updateWindow (updateFull env cc)))

def congestionControlDispatchCcAlg (env : Env) (cc : CongestionControl) :
    Option CongestionControl := do
  let cc ← congestionControlVegasProcessSendme env cc
  return if cc.cwnd > env.cwndMax then { cc with cwnd := env.cwndMax } else cc

/-! ### What a SENDME leaves alone -/

/-- The timestamps, the cells in flight and the parameters of the circuit are the
same. -/
structure Same (cc cc' : CongestionControl) : Prop where
  timestamps : cc'.sendmePendingTimestamps = cc.sendmePendingTimestamps
  inflight : cc'.inflight = cc.inflight
  sendmeInc : cc'.sendmeInc = cc.sendmeInc
  cwndInc : cc'.cwndInc = cc.cwndInc
  cwndMin : cc'.cwndMin = cc.cwndMin
  cwndIncPctSs : cc'.cwndIncPctSs = cc.cwndIncPctSs
  vegasParams : cc'.vegasParams = cc.vegasParams

theorem Same.refl (cc : CongestionControl) : Same cc cc := ⟨rfl, rfl, rfl, rfl, rfl, rfl, rfl⟩

theorem Same.trans {cc₁ cc₂ cc₃ : CongestionControl} (h : Same cc₁ cc₂) (h' : Same cc₂ cc₃) :
    Same cc₁ cc₃ where
  timestamps := h'.timestamps.trans h.timestamps
  inflight := h'.inflight.trans h.inflight
  sendmeInc := h'.sendmeInc.trans h.sendmeInc
  cwndInc := h'.cwndInc.trans h.cwndInc
  cwndMin := h'.cwndMin.trans h.cwndMin
  cwndIncPctSs := h'.cwndIncPctSs.trans h.cwndIncPctSs
  vegasParams := h'.vegasParams.trans h.vegasParams

theorem same_updateFull (env : Env) (cc : CongestionControl) : Same cc (updateFull env cc) := by
  unfold updateFull
  split_ifs <;> exact ⟨rfl, rfl, rfl, rfl, rfl, rfl, rfl⟩

theorem same_slowStart (cc : CongestionControl) : Same cc (slowStart cc) := by
  simp only [slowStart, exitSlowStart]
  split_ifs <;> exact ⟨rfl, rfl, rfl, rfl, rfl, rfl, rfl⟩

theorem same_updateWindow (cc : CongestionControl) : Same cc (updateWindow cc) := by
  unfold updateWindow
  split_ifs
  · exact same_slowStart cc
  · exact ⟨rfl, rfl, rfl, rfl, rfl, rfl, rfl⟩
  · exact Same.refl cc

theorem same_resetEvents (env : Env) (cc : CongestionControl) : Same cc (resetEvents env cc) := by
  simp only [resetEvents]
  split_ifs <;> exact ⟨rfl, rfl, rfl, rfl, rfl, rfl, rfl⟩

theorem same_bdp (env : Env) (cc : CongestionControl) (rtt : ℕ) :
    Same cc (congestionControlUpdateCircuitBdp env cc rtt).1 := by
  unfold congestionControlUpdateCircuitBdp
  split_ifs <;> exact ⟨rfl, rfl, rfl, rfl, rfl, rfl, rfl⟩

def dequeued (cc : CongestionControl) : CongestionControl :=
  { cc with sendmePendingTimestamps := cc.sendmePendingTimestamps.tail }

theorem estimates_spec {env : Env} {cc est : CongestionControl} {updated : Bool}
    (h : congestionControlUpdateCircuitEstimates env cc = some (est, updated)) :
    cc.sendmePendingTimestamps ≠ [] ∧ Same (dequeued cc) est ∧ est.cwnd = cc.cwnd ∧
      est.inSlowStart = cc.inSlowStart := by
  simp only [congestionControlUpdateCircuitEstimates, congestionControlUpdateCircuitRtt,
    Option.bind_eq_bind, Option.bind_eq_some_iff] at h
  obtain ⟨⟨cc₁, rtt⟩, ⟨⟨sentAt, timestamps⟩, hdeq, hrtt⟩, hbdp⟩ := h
  rcases hts : cc.sendmePendingTimestamps with _ | ⟨t, ts⟩
  · rw [hts] at hdeq
    cases hdeq
  rw [hts] at hdeq
  cases hdeq
  -- the round trip time is measured or it is not; the timestamp is gone either way
  have hsame : Same (dequeued cc) cc₁ ∧ cc₁.cwnd = cc.cwnd ∧ cc₁.inSlowStart = cc.inSlowStart := by
    have htail : (dequeued cc).sendmePendingTimestamps = timestamps := by
      simp [dequeued, hts]
    split_ifs at hrtt
    · cases hrtt
      exact ⟨⟨htail.symm, rfl, rfl, rfl, rfl, rfl, rfl⟩, rfl, rfl⟩
    · cases hrtt
      exact ⟨⟨htail.symm, rfl, rfl, rfl, rfl, rfl, rfl⟩, rfl, rfl⟩
  -- the product is taken from the same window
  obtain ⟨hsame, hcwnd, hss⟩ := hsame
  have hest : est = (congestionControlUpdateCircuitBdp env cc₁ rtt).1 := by
    rw [Option.some_inj.mp hbdp]
  refine ⟨by simp, ?_, ?_, ?_⟩
  · rw [hest]
    exact hsame.trans (same_bdp env cc₁ rtt)
  · rw [hest, ← hcwnd]
    unfold congestionControlUpdateCircuitBdp
    split_ifs <;> rfl
  · rw [hest, ← hss]
    unfold congestionControlUpdateCircuitBdp
    split_ifs <;> rfl

theorem estimates_isSome (env : Env) {cc : CongestionControl}
    (h : cc.sendmePendingTimestamps ≠ []) :
    (congestionControlUpdateCircuitEstimates env cc).isSome := by
  obtain ⟨t, ts, hts⟩ := List.exists_cons_of_ne_nil h
  simp only [congestionControlUpdateCircuitEstimates, congestionControlUpdateCircuitRtt, hts,
    dequeueTimestamp, Option.bind_eq_bind, Option.bind_some]
  split_ifs <;> rfl

def processed (env : Env) (est : CongestionControl) (updated : Bool) : CongestionControl :=
  if updated then resetEvents env (updateWindow (updateFull env est)) else est

theorem same_processed (env : Env) (est : CongestionControl) (updated : Bool) :
    Same est (processed env est updated) := by
  unfold processed
  split_ifs
  · exact ((same_updateFull env est).trans (same_updateWindow _)).trans (same_resetEvents env _)
  · exact Same.refl est

def clampCwnd (env : Env) (cc : CongestionControl) : CongestionControl :=
  { cc with cwnd := min cc.cwnd env.cwndMax }

theorem dispatch_eq_some {env : Env} {cc cc' : CongestionControl}
    (h : congestionControlDispatchCcAlg env cc = some cc') :
    ∃ est updated, congestionControlUpdateCircuitEstimates env (countAck cc) = some (est, updated) ∧
      cc' = clampCwnd env (ackInflight (processed env est updated)) := by
  simp only [congestionControlDispatchCcAlg, congestionControlVegasProcessSendme,
    Option.bind_eq_bind, Option.bind_eq_some_iff] at h
  obtain ⟨acked, ⟨⟨est, updated⟩, hest, hacked⟩, hclamp⟩ := h
  refine ⟨est, updated, hest, ?_⟩
  -- an update that was skipped leaves the estimates, and is acknowledged as well
  have hacked : acked = ackInflight (processed env est updated) := by
    cases updated <;> cases hacked <;> rfl
  have hclamp : cc' = if acked.cwnd > env.cwndMax then { acked with cwnd := env.cwndMax }
      else acked := (Option.some_inj.mp hclamp).symm
  rw [hclamp, ← hacked, clampCwnd]
  split_ifs with hmax
  · rw [min_eq_right (le_of_lt hmax)]
  · rw [min_eq_left (not_lt.mp hmax)]

theorem dispatch_spec {env : Env} {cc cc' : CongestionControl}
    (h : congestionControlDispatchCcAlg env cc = some cc') :
    cc.sendmePendingTimestamps ≠ [] ∧
      cc'.sendmePendingTimestamps = cc.sendmePendingTimestamps.tail ∧
      cc'.inflight = u64 (cc.inflight - cc.sendmeInc) ∧ cc'.sendmeInc = cc.sendmeInc ∧
      cc'.cwnd ≤ env.cwndMax := by
  obtain ⟨est, updated, hest, rfl⟩ := dispatch_eq_some h
  obtain ⟨hne, hsame, -, -⟩ := estimates_spec hest
  have hall := hsame.trans (same_processed env est updated)
  refine ⟨hne, hall.timestamps, ?_, hall.sendmeInc, min_le_right _ _⟩
  show u64 ((processed env est updated).inflight - (processed env est updated).sendmeInc) = _
  rw [hall.inflight, hall.sendmeInc]
  rfl

theorem dispatch_isSome (env : Env) {cc : CongestionControl} (h : cc.sendmePendingTimestamps ≠ []) :
    (congestionControlDispatchCcAlg env cc).isSome := by
  obtain ⟨⟨est, updated⟩, hest⟩ :=
    Option.isSome_iff_exists.mp (estimates_isSome env (show (countAck cc).sendmePendingTimestamps ≠ [] from h))
  simp only [congestionControlDispatchCcAlg, congestionControlVegasProcessSendme, hest,
    Option.bind_eq_bind, Option.bind_some]
  split_ifs <;> rfl

theorem cwndMax_mem (env : Env) : 500 ≤ env.cwndMax ∧ env.cwndMax ≤ 2147483647 := by
  have hstored : 500 ≤ (env.cwndMax : ℤ) ∧ (env.cwndMax : ℤ) ≤ 2147483647 :=
    stored_mem 32 env.common .ccCwndMax int32Max 500 int32Max (by decide) (by decide) (by decide)
  omega

end Vegas
