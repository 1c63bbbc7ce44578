/-
What a SENDME divides by (`core/or/congestion_control_common.c`,
`core/or/congestion_control_vegas.c`).

The averages, the window and the log of the algorithm divide by counters that may
be zero.  Each function has the list of its divisors here, in the order in which
it divides; the constants 100 and 1000 are left out.  The window is not updated
while no round trip was ever measured, unless the channel is blocked: then slow
start is left, and its log divides by a round trip time of zero.
-/
import LibEltor.VegasWindow

open Word CongestionControl Transition VegasWindow

namespace Vegas

/-! ### The divisors of each function -/

def cwndUpdateRateDivisors (cc : CongestionControl) : List ℕ :=
  if cc.inSlowStart then [] else [cc.cwndIncRate * cc.sendmeInc]

def sendmePerCwndDivisors (cc : CongestionControl) : List ℕ := [cc.sendmeInc]

def nCountEwmaDivisors (prev n : ℕ) : List ℕ := if prev = 0 then [] else [u64 (n + 1)]

/-- What `congestion_control_update_circuit_rtt` measures for the oldest timestamp. -/
def rttSample (env : Env) (cc : CongestionControl) : ℕ :=
  match cc.sendmePendingTimestamps with
  | [] => 0
  | sentAtTimestamp :: _ => u64 (env.nowUsec - sentAtTimestamp)

def sampleIgnored (env : Env) (cc : CongestionControl) : Bool :=
  (timeDeltaStalledOrJumped cc env.isMonotimeClockBroken cc.ewmaRttUsec (rttSample env cc)).1

/-- `congestion_control_update_circuit_rtt`; the update rate is part of `n_ewma_count`. -/
def rttDivisors (env : Env) (cc : CongestionControl) : List ℕ :=
  if sampleIgnored env cc then []
  else cwndUpdateRateDivisors cc ++ nCountEwmaDivisors cc.ewmaRttUsec (nEwmaCount env cc)

def bdpDivisors (cc : CongestionControl) : List ℕ :=
  if cc.ewmaRttUsec = 0 then [] else [cc.ewmaRttUsec]

def rfc3742Divisors (cc : CongestionControl) : List ℕ :=
  if cc.cwnd ≤ cc.vegasParams.ssCwndCap then [] else [u64 (2 * cc.cwnd)]

/-- `congestion_control_vegas_log`: the arguments of the log are computed at any severity. -/
def vegasLogDivisors (cc : CongestionControl) : List ℕ := [max cc.minRttUsec cc.ewmaRttUsec]

/-- `congestion_control_vegas_exit_slow_start` logs on both sides of the change. -/
def exitSlowStartDivisors (cc : CongestionControl) : List ℕ :=
  vegasLogDivisors cc ++ vegasLogDivisors (exitSlowStart cc) ++ rfc3742Divisors (exitSlowStart cc)

/-- The slow start of `congestion_control_vegas_process_sendme`, before the window is compared with
its maximum: the window, and what was divided by. -/
def slowStartLeft (cc : CongestionControl) : CongestionControl × List ℕ :=
  let moved : CongestionControl := { cc with cwnd := u64 (slowStartTarget cc) }
  if ssSignal cc then (exitSlowStart moved, exitSlowStartDivisors moved)
  else if cc.cwndFull then
    if u64 (rfc3742SsInc cc * sendmePerCwnd moved) ≤ cc.cwndInc * cc.cwndIncRate then
      (exitSlowStart moved,
        rfc3742Divisors cc ++ sendmePerCwndDivisors moved ++ exitSlowStartDivisors moved)
    else (moved, rfc3742Divisors cc ++ sendmePerCwndDivisors moved)
  else (moved, [])

def slowStartDivisors (cc : CongestionControl) : List ℕ :=
  let (left, divisors) := slowStartLeft cc
  if left.cwnd ≥ cc.vegasParams.ssCwndMax then
    divisors ++ exitSlowStartDivisors { left with cwnd := cc.vegasParams.ssCwndMax }
  else divisors

def windowDivisors (cc : CongestionControl) : List ℕ :=
  if cc.inSlowStart then slowStartDivisors cc
  else if cc.nextCcEvent = 0 then vegasLogDivisors (steadyState cc)
  else []

/-- The counters that are wound up, and `cwnd_full_reset`. -/
def resetEventsDivisors (env : Env) (cc : CongestionControl) : List ℕ :=
  (if cc.nextCwndEvent = 0 then sendmePerCwndDivisors cc else []) ++
    (if cc.nextCcEvent = 0 then cwndUpdateRateDivisors cc else []) ++
    if env.cwndFullPerCwnd ≠ 0 then sendmePerCwndDivisors cc else cwndUpdateRateDivisors cc

def sendmeDivisors (env : Env) (cc : CongestionControl) : List ℕ :=
  let cc := countAck cc
  rttDivisors env cc ++
    match congestionControlUpdateCircuitRtt env cc with
    | none => []
    | some (measured, rtt) =>
      let (est, updated) := congestionControlUpdateCircuitBdp env measured rtt
      bdpDivisors measured ++
        if updated then
          windowDivisors (updateFull env est) ++
            resetEventsDivisors env (updateWindow (updateFull env est))
        else []

def noteCellSentDivisors (cc : CongestionControl) : List ℕ :=
  if cc.inflight = 0 then [] else [cc.sendmeInc]

/-- The clock of a SENDME.  A blocked channel does not meet an object that has never had a round trip
measured and now measures none; and a measurement does not make the sum of the average wrap to
less than its divisor, whose quotient is zero. -/
structure SafeClock (env : Env) (cc : CongestionControl) : Prop where
  blocked : env.blockedOnChan → cc.ewmaRttUsec = 0 → rttSample env cc ≠ 0
  sum : cc.ewmaRttUsec ≠ 0 → sampleIgnored env cc = false →
    u64 (nEwmaCount env cc + 1) ≤
      u64 (2 * rttSample env cc + (nEwmaCount env cc - 1) * cc.ewmaRttUsec)

def safeClock (cc : CongestionControl) : Action → Prop
  | .sent _ _ => True
  | .sendme env => SafeClock env cc

structure Divides (cc : CongestionControl) : Prop where
  range : InRange cc
  cwnd_le : cc.cwnd ≤ 2147483647
  sendmeInc : cc.sendmeInc ≠ 0
  cwndIncRate : cc.cwndIncRate ≠ 0
  ssCwndMax : cc.vegasParams.ssCwndMax < 2 ^ 32
  slow : cc.inSlowStart → cc.minRttUsec ≤ cc.ewmaRttUsec
  steady : ¬cc.inSlowStart → cc.ewmaRttUsec ≠ 0

theorem nEwmaCount_mem (env : Env) (cc : CongestionControl) :
    2 ≤ nEwmaCount env cc ∧ nEwmaCount env cc ≤ 255 := by
  have hss : env.nEwmaSs ≤ 255 := Nat.le_of_lt_succ (wrap_lt 8 _)
  have hmax : env.nEwmaMax ≤ 255 := Nat.le_of_lt_succ (wrap_lt 8 _)
  simp only [nEwmaCount]
  split_ifs <;> omega

theorem u64_nEwmaCount_succ (env : Env) (cc : CongestionControl) :
    u64 (nEwmaCount env cc + 1) = nEwmaCount env cc + 1 := by
  obtain ⟨-, hle⟩ := nEwmaCount_mem env cc
  have hstored : (u64 (nEwmaCount env cc + 1) : ℤ) = nEwmaCount env cc + 1 :=
    u64_of_mem (by omega) (by omega)
  exact_mod_cast hstored

theorem updateCircuitRtt_cases {env : Env} {cc measured : CongestionControl} {rtt : ℕ}
    (h : congestionControlUpdateCircuitRtt env cc = some (measured, rtt)) :
    ∃ timestamps,
      (sampleIgnored env cc = true ∧
        measured = { cc with sendmePendingTimestamps := timestamps }) ∨
      (sampleIgnored env cc = false ∧ ∃ averaged : CongestionControl,
        averaged = { cc with
          sendmePendingTimestamps := timestamps
          ewmaRttUsec := nCountEwma (rttSample env cc) cc.ewmaRttUsec (nEwmaCount env cc)
          maxRttUsec := max (rttSample env cc) cc.maxRttUsec } ∧
        measured = { averaged with minRttUsec := updateMinRtt env averaged }) := by
  simp only [congestionControlUpdateCircuitRtt, Option.bind_eq_bind, Option.bind_eq_some_iff] at h
  obtain ⟨⟨sentAt, timestamps⟩, hdeq, hupdate⟩ := h
  rcases hts : cc.sendmePendingTimestamps with _ | ⟨t, ts⟩
  · rw [hts] at hdeq
    cases hdeq
  rw [hts] at hdeq
  cases hdeq
  have hsample : u64 (env.nowUsec - sentAt) = rttSample env cc := by rw [rttSample, hts]
  rw [hsample] at hupdate
  have hignored : (timeDeltaStalledOrJumped cc env.isMonotimeClockBroken cc.ewmaRttUsec
      (rttSample env cc)).1 = sampleIgnored env cc := rfl
  rw [hignored] at hupdate
  refine ⟨timestamps, ?_⟩
  cases hig : sampleIgnored env cc with
  | true =>
    rw [if_pos hig] at hupdate
    cases hupdate
    exact .inl ⟨rfl, rfl⟩
  | false =>
    rw [if_neg (by simp [hig])] at hupdate
    cases hupdate
    exact .inr ⟨rfl, _, rfl, rfl⟩

theorem rtt_spec {env : Env} {cc measured : CongestionControl} {rtt : ℕ} (hsafe : SafeClock env cc)
    (h : congestionControlUpdateCircuitRtt env cc = some (measured, rtt)) :
    (measured.ewmaRttUsec ≠ 0 ∨
      (measured.ewmaRttUsec = 0 ∧ cc.ewmaRttUsec = 0 ∧ env.blockedOnChan = false)) ∧
      measured.cwndIncRate = cc.cwndIncRate := by
  obtain ⟨timestamps, ⟨hignored, rfl⟩ | ⟨hused, averaged, rfl, rfl⟩⟩ := updateCircuitRtt_cases h
  · -- the sample is not used: it is zero, or there is an average
    refine ⟨?_, rfl⟩
    by_cases hewma : cc.ewmaRttUsec = 0
    · have hzero : rttSample env cc = 0 := by
        by_contra hne
        simp [sampleIgnored, timeDeltaStalledOrJumped, timeDeltaShouldUseHeuristics, hne, hewma]
          at hignored
      refine .inr ⟨hewma, hewma, ?_⟩
      by_contra hblocked
      exact hsafe.blocked (by simpa using hblocked) hewma hzero
    · exact .inl hewma
  · refine ⟨.inl ?_, rfl⟩
    show nCountEwma (rttSample env cc) cc.ewmaRttUsec (nEwmaCount env cc) ≠ 0
    unfold nCountEwma
    split_ifs with hprev
    · -- the first average is the sample, and a sample of zero is not used
      intro hzero
      simp [sampleIgnored, timeDeltaStalledOrJumped, hzero] at hused
    · have hsum := hsafe.sum hprev hused
      have hpos := u64_nEwmaCount_succ env cc
      exact (Nat.div_pos hsum (by omega)).ne'

theorem bdp_frame (env : Env) (cc : CongestionControl) (rtt : ℕ) :
    (congestionControlUpdateCircuitBdp env cc rtt).1.ewmaRttUsec = cc.ewmaRttUsec ∧
      (congestionControlUpdateCircuitBdp env cc rtt).1.cwndIncRate = cc.cwndIncRate ∧
      (cc.ewmaRttUsec = 0 →
        (congestionControlUpdateCircuitBdp env cc rtt).2 = env.blockedOnChan) := by
  unfold congestionControlUpdateCircuitBdp
  by_cases hewma : cc.ewmaRttUsec = 0
  · rw [if_pos hewma]
    exact ⟨rfl, rfl, fun _ => rfl⟩
  · rw [if_neg hewma]
    exact ⟨rfl, rfl, fun h => absurd h hewma⟩

theorem rate_processed (env : Env) (est : CongestionControl) (updated : Bool) :
    (processed env est updated).cwndIncRate = est.cwndIncRate := by
  have hfull : (updateFull env est).cwndIncRate = est.cwndIncRate := by
    unfold updateFull
    split_ifs <;> rfl
  have hwindow : ∀ cc, (updateWindow cc).cwndIncRate = cc.cwndIncRate := by
    intro cc
    simp only [updateWindow, slowStart, steadyState, exitSlowStart]
    split_ifs <;> rfl
  have hreset : ∀ cc, (resetEvents env cc).cwndIncRate = cc.cwndIncRate := by
    intro cc
    simp only [resetEvents]
    split_ifs <;> rfl
  unfold processed
  split_ifs
  · rw [hreset, hwindow, hfull]
  · rfl

theorem rfc3742Divisors_ne_zero {cc : CongestionControl} (hcwnd : cc.cwnd < 2 ^ 63) :
    ∀ d ∈ rfc3742Divisors cc, d ≠ 0 := by
  intro d hd
  unfold rfc3742Divisors at hd
  split_ifs at hd with hcap
  · simp at hd
  · obtain rfl : d = u64 (2 * cc.cwnd) := by simpa using hd
    have hstored : (u64 (2 * cc.cwnd) : ℤ) = 2 * cc.cwnd := u64_of_mem (by omega) (by omega)
    omega

theorem exitSlowStartDivisors_ne_zero {cc : CongestionControl} (hcwnd : cc.cwnd < 2 ^ 63)
    (hrtt : cc.ewmaRttUsec ≠ 0) : ∀ d ∈ exitSlowStartDivisors cc, d ≠ 0 := by
  intro d hd
  have hlog : max cc.minRttUsec cc.ewmaRttUsec ≠ 0 := by omega
  rcases List.mem_append.mp hd with hlogs | hinc
  · obtain rfl : d = max cc.minRttUsec cc.ewmaRttUsec := by
      simpa [vegasLogDivisors, exitSlowStart] using hlogs
    exact hlog
  · exact rfc3742Divisors_ne_zero (show (exitSlowStart cc).cwnd < 2 ^ 63 from hcwnd) d hinc

theorem slowStartTarget_lt {cc : CongestionControl} (h : InRange cc) (hcwnd : cc.cwnd ≤ 2147483647)
    (hbdp : cc.bdp ≤ 2147483647) : u64 (slowStartTarget cc) < 2 ^ 63 := by
  have hgamma := h.gamma
  have hinc := rfc3742SsInc_le h hcwnd
  have htarget : 0 ≤ slowStartTarget cc ∧ slowStartTarget cc < 2 ^ 63 := by
    unfold slowStartTarget
    split_ifs <;> omega
  have hstored : (u64 (slowStartTarget cc) : ℤ) = slowStartTarget cc :=
    u64_of_mem htarget.1 (by omega)
  omega

theorem slowStartDivisors_ne_zero {cc : CongestionControl} (h : InRange cc)
    (hcwnd : cc.cwnd ≤ 2147483647) (hbdp : cc.bdp ≤ 2147483647) (hinc : cc.sendmeInc ≠ 0)
    (hrtt : cc.ewmaRttUsec ≠ 0) (hmax : cc.vegasParams.ssCwndMax < 2 ^ 63) :
    ∀ d ∈ slowStartDivisors cc, d ≠ 0 := by
  have htarget := slowStartTarget_lt h hcwnd hbdp
  set moved : CongestionControl := { cc with cwnd := u64 (slowStartTarget cc) } with hmoved
  have hexit : ∀ d ∈ exitSlowStartDivisors moved, d ≠ 0 :=
    exitSlowStartDivisors_ne_zero htarget hrtt
  have hgrow : ∀ d ∈ rfc3742Divisors cc ++ sendmePerCwndDivisors moved, d ≠ 0 := by
    intro d hd
    rcases List.mem_append.mp hd with hrfc | hper
    · exact rfc3742Divisors_ne_zero (by omega) d hrfc
    · obtain rfl : d = cc.sendmeInc := by simpa [sendmePerCwndDivisors, hmoved] using hper
      exact hinc
  -- the branches of slow start, and what they leave
  have hleft : (∀ d ∈ (slowStartLeft cc).2, d ≠ 0) ∧
      (slowStartLeft cc).1.ewmaRttUsec = cc.ewmaRttUsec := by
    simp only [slowStartLeft, ← hmoved]
    split_ifs
    · exact ⟨hexit, rfl⟩
    · refine ⟨fun d hd => ?_, rfl⟩
      rcases List.mem_append.mp hd with hg | he
      · exact hgrow d hg
      · exact hexit d he
    · exact ⟨hgrow, rfl⟩
    · exact ⟨by simp, rfl⟩
  intro d hd
  simp only [slowStartDivisors] at hd
  split_ifs at hd
  · rcases List.mem_append.mp hd with hl | he
    · exact hleft.1 d hl
    · refine exitSlowStartDivisors_ne_zero hmax ?_ d he
      exact hleft.2 ▸ hrtt
  · exact hleft.1 d hd

theorem cwndUpdateRateDivisors_ne_zero {cc : CongestionControl} (hinc : cc.sendmeInc ≠ 0)
    (hrate : cc.cwndIncRate ≠ 0) : ∀ d ∈ cwndUpdateRateDivisors cc, d ≠ 0 := by
  intro d hd
  unfold cwndUpdateRateDivisors at hd
  split_ifs at hd
  · simp at hd
  · obtain rfl : d = cc.cwndIncRate * cc.sendmeInc := by simpa using hd
    exact Nat.mul_ne_zero hrate hinc

theorem resetEventsDivisors_ne_zero (env : Env) {cc : CongestionControl} (hinc : cc.sendmeInc ≠ 0)
    (hrate : cc.cwndIncRate ≠ 0) : ∀ d ∈ resetEventsDivisors env cc, d ≠ 0 := by
  have hper : ∀ d ∈ sendmePerCwndDivisors cc, d ≠ 0 := by
    intro d hd
    obtain rfl : d = cc.sendmeInc := by simpa [sendmePerCwndDivisors] using hd
    exact hinc
  have hupdate := cwndUpdateRateDivisors_ne_zero hinc hrate
  intro d hd
  unfold resetEventsDivisors at hd
  split_ifs at hd <;> simp only [List.mem_append, List.not_mem_nil, or_false, false_or] at hd <;>
    grind

/-! ### Runs -/

theorem estimates_of_rtt {env : Env} {cc measured : CongestionControl} {rtt : ℕ}
    (h : congestionControlUpdateCircuitRtt env cc = some (measured, rtt)) :
    congestionControlUpdateCircuitEstimates env cc =
      some (congestionControlUpdateCircuitBdp env measured rtt) := by
  simp [congestionControlUpdateCircuitEstimates, h]

theorem updateDivisors_ne_zero {env : Env} {cc est : CongestionControl} (h : Divides cc)
    (hest : congestionControlUpdateCircuitEstimates env (countAck cc) = some (est, true))
    (hrate : est.cwndIncRate = cc.cwndIncRate) (hewma : est.ewmaRttUsec ≠ 0) :
    ∀ d ∈ windowDivisors (updateFull env est) ++
      resetEventsDivisors env (updateWindow (updateFull env est)), d ≠ 0 := by
  obtain ⟨-, hsame, hcwnd, hss⟩ := estimates_spec hest
  obtain ⟨hfullCwnd, hfullBdp, hfullSs, hfullMin, hfullEwma⟩ := updateFull_frame env est
  have hall := hsame.trans (same_updateFull env est)
  have hrange : InRange (updateFull env est) := by
    have hcounted : InRange (dequeued (countAck cc)) := h.range.counted _ _ _ _ _
    exact hcounted.of_same hall
  have hinc : (updateFull env est).sendmeInc ≠ 0 := by
    rw [hall.sendmeInc]
    exact h.sendmeInc
  have hcwnd' : (updateFull env est).cwnd = cc.cwnd := hfullCwnd.trans hcwnd
  intro d hd
  rcases List.mem_append.mp hd with hw | hr
  · unfold windowDivisors at hw
    split_ifs at hw with hslow
    · have hcc : cc.inSlowStart := by
        rwa [hfullSs, show est.inSlowStart = cc.inSlowStart from hss] at hslow
      have hbdp := (estimates_slowStart hest hcc (h.slow hcc)).2
      have hmin := h.range.cwndMin
      have hle := h.cwnd_le
      refine slowStartDivisors_ne_zero hrange (hcwnd' ▸ hle) ?_ hinc (hfullEwma ▸ hewma) ?_ d hw
      · rw [hfullBdp]
        refine hbdp.trans ?_
        show max cc.cwnd cc.cwndMin ≤ 2147483647
        omega
      · have hmax := h.ssCwndMax
        rw [hall.vegasParams]
        exact hmax.trans (by decide)
    · obtain rfl : d = max (updateFull env est).minRttUsec (updateFull env est).ewmaRttUsec := by
        simpa [vegasLogDivisors, steadyState] using hw
      rw [hfullEwma]
      omega
    · simp at hw
  · have hwindow := same_updateWindow (updateFull env est)
    refine resetEventsDivisors_ne_zero env ?_ ?_ d hr
    · rw [hwindow.sendmeInc]
      exact hinc
    · have hprocessed := rate_processed env est true
      have hreset : (processed env est true).cwndIncRate =
          (updateWindow (updateFull env est)).cwndIncRate := by
        simp only [processed, if_true, resetEvents]
        split_ifs <;> rfl
      rw [← hreset, hprocessed, hrate]
      exact h.cwndIncRate

theorem sendmeDivisors_ne_zero {env : Env} {cc : CongestionControl} (h : Divides cc)
    (hsafe : SafeClock env cc) : ∀ d ∈ sendmeDivisors env cc, d ≠ 0 := by
  have hsafe' : SafeClock env (countAck cc) := ⟨hsafe.blocked, hsafe.sum⟩
  intro d hd
  simp only [sendmeDivisors] at hd
  rcases List.mem_append.mp hd with hrtt | hrest
  · unfold rttDivisors at hrtt
    split_ifs at hrtt
    · simp at hrtt
    · rcases List.mem_append.mp hrtt with hrate | hcount
      · have hinc : (countAck cc).sendmeInc ≠ 0 := h.sendmeInc
        exact cwndUpdateRateDivisors_ne_zero hinc h.cwndIncRate d hrate
      · unfold nCountEwmaDivisors at hcount
        split_ifs at hcount
        · simp at hcount
        · have hsucc := u64_nEwmaCount_succ env (countAck cc)
          obtain rfl : d = u64 (nEwmaCount env (countAck cc) + 1) := by simpa using hcount
          omega
  · cases hmeasured : congestionControlUpdateCircuitRtt env (countAck cc) with
    | none => simp [hmeasured] at hrest
    | some pair =>
      obtain ⟨measured, rtt⟩ := pair
      obtain ⟨hewma, hrate⟩ := rtt_spec hsafe' hmeasured
      obtain ⟨hbdpEwma, hbdpRate, hnone⟩ := bdp_frame env measured rtt
      have hest := estimates_of_rtt hmeasured
      simp only [hmeasured] at hrest
      rcases hbdp : congestionControlUpdateCircuitBdp env measured rtt with ⟨est, updated⟩
      rw [hbdp] at hbdpEwma hbdpRate hnone hest
      simp only [hbdp] at hrest
      rcases List.mem_append.mp hrest with hb | hu
      · unfold bdpDivisors at hb
        split_ifs at hb with hzero
        · simp at hb
        · obtain rfl : d = measured.ewmaRttUsec := by simpa using hb
          exact hzero
      · cases updated with
        | false => simp at hu
        | true =>
          -- the window is updated, so there is an average
          have hpos : est.ewmaRttUsec ≠ 0 := by
            rcases hewma with hne | ⟨hzero, -, hunblocked⟩
            · rwa [← hbdpEwma] at hne
            · exact absurd ((hnone hzero).trans hunblocked) (by simp)
          exact updateDivisors_ne_zero h hest (hbdpRate.trans hrate) hpos d (by simpa using hu)

theorem Divides.sendme {env : Env} {cc cc' : CongestionControl} (h : Divides cc)
    (hsafe : SafeClock env cc) (hstep : congestionControlDispatchCcAlg env cc = some cc') :
    Divides cc' := by
  obtain ⟨est, updated, hest, rfl⟩ := dispatch_eq_some hstep
  obtain ⟨-, hmaxLe⟩ := cwndMax_mem env
  obtain ⟨-, hsame, -, hss⟩ := estimates_spec hest
  have hall := hsame.trans (same_processed env est updated)
  have hcounted : InRange (dequeued (countAck cc)) := h.range.counted _ _ _ _ _
  have hprocessed : InRange (processed env est updated) := hcounted.of_same hall
  obtain ⟨measured, rtt, hmeasured, hbdp⟩ : ∃ measured rtt,
      congestionControlUpdateCircuitRtt env (countAck cc) = some (measured, rtt) ∧
        congestionControlUpdateCircuitBdp env measured rtt = (est, updated) := by
    simp only [congestionControlUpdateCircuitEstimates, Option.bind_eq_bind,
      Option.bind_eq_some_iff] at hest
    obtain ⟨⟨measured, rtt⟩, hmeasured, hbdp⟩ := hest
    exact ⟨measured, rtt, hmeasured, Option.some.inj hbdp⟩
  have hsafe' : SafeClock env (countAck cc) := ⟨hsafe.blocked, hsafe.sum⟩
  obtain ⟨hewma, hrate⟩ := rtt_spec hsafe' hmeasured
  obtain ⟨hbdpEwma, hbdpRate, hnone⟩ := bdp_frame env measured rtt
  rw [hbdp] at hbdpEwma hbdpRate hnone
  obtain ⟨-, -, hkeepEwma⟩ := processed_frame env est updated
  refine ⟨hprocessed.counted _ _ _ _ _, le_trans (min_le_right _ _) hmaxLe, ?_, ?_, ?_,
    processed_slowStart hest h.slow, ?_⟩
  · show (processed env est updated).sendmeInc ≠ 0
    rw [hall.sendmeInc]
    exact h.sendmeInc
  · show (processed env est updated).cwndIncRate ≠ 0
    rw [rate_processed, hbdpRate, hrate]
    exact h.cwndIncRate
  · show (processed env est updated).vegasParams.ssCwndMax < 2 ^ 32
    rw [hall.vegasParams]
    exact h.ssCwndMax
  · intro hsteady
    show (processed env est updated).ewmaRttUsec ≠ 0
    rw [hkeepEwma, hbdpEwma]
    rcases hewma with hne | ⟨hzero, hcc, hunblocked⟩
    · exact hne
    · -- without an average slow start has not been left before, and is not left now
      exfalso
      have hslow : cc.inSlowStart = true := by
        by_contra hnot
        exact h.steady hnot hcc
      obtain rfl : updated = false := (hnone hzero).trans hunblocked
      exact hsteady (hss.trans hslow)

theorem divides_inductive {ns : Consensus} {params : CircuitParams} {path : CcPath}
    (hinc : params.sendmeIncCells ≠ 0) :
    Inductive (system ns params path) safeClock Divides where
  init := by
    rintro cc rfl
    have hcwnd := cwnd_new_le ns params path
    have hrate : 1 ≤ ((congestionControlNew ns params path).cwndIncRate : ℤ) :=
      (stored_mem 8 ns .ccCwndIncRate sendmeIncDflt 1 250 (by decide) (by decide) (by decide)).1
    refine ⟨inRange_new ns params path, by omega, ?_, by omega, ?_, fun _ => le_refl _, ?_⟩
    · intro hzero
      exact hinc (UInt8.toNat_inj.mp hzero)
    · cases path <;> exact wrap_lt 32 _
    · exact fun hnot => absurd rfl hnot
  step := by
    intro cc a cc' h hok hstep
    cases a with
    | sent edge nowUsec =>
      have hstep := hstep.2
      simp only [congestionControlNoteCellSent, Option.bind_eq_bind, Option.bind_eq_some_iff] at hstep
      obtain ⟨sent, -, hstep⟩ := hstep
      cases sent <;> cases hstep
      · exact ⟨h.range.counted _ _ _ _ _, h.cwnd_le, h.sendmeInc, h.cwndIncRate, h.ssCwndMax, h.slow,
          h.steady⟩
      · exact ⟨h.range.counted _ _ _ _ _, h.cwnd_le, h.sendmeInc, h.cwndIncRate, h.ssCwndMax, h.slow,
          h.steady⟩
    | sendme env => exact h.sendme hok hstep

/-- In a run whose SENDMEs have a safe clock, on a circuit with an increment, neither a SENDME with a
safe clock nor a cell that is sent divides by zero. -/
theorem divisors_ne_zero (ns : Consensus) (params : CircuitParams) (path : CcPath)
    (hinc : params.sendmeIncCells ≠ 0) {cc : CongestionControl}
    (hr : Reached (system ns params path) safeClock cc) :
    (∀ env, safeClock cc (.sendme env) → ∀ d ∈ sendmeDivisors env cc, d ≠ 0) ∧
      ∀ d ∈ noteCellSentDivisors cc, d ≠ 0 := by
  have h := hr.invariant (divides_inductive hinc)
  refine ⟨fun env hsafe => sendmeDivisors_ne_zero h hsafe, fun d hd => ?_⟩
  unfold noteCellSentDivisors at hd
  split_ifs at hd
  · simp at hd
  · obtain rfl : d = cc.sendmeInc := by simpa using hd
    exact h.sendmeInc

/-- The first SENDME of a circuit, one millisecond after the cell. -/
theorem firstSendme_divisors_ne_zero :
    0 ∉ sendmeDivisors (sendmeAt 1000 true) (twoCellsSent 186 2) := by
  intro hzero
  have hdiv := divisors_ne_zero (consensusWith .ccVegasGammaExit 186) ⟨true, 2⟩ .exit (by decide)
    (reached_twoCellsSent 186 (fun _ _ _ => trivial) 2 (by omega))
  exact hdiv.1 (sendmeAt 1000 true) ⟨fun _ _ => by decide +kernel, fun h => absurd rfl h⟩ 0 hzero rfl

/-- The first SENDME of a circuit, at the time of the cell, from a blocked channel. -/
theorem stalled_blocked_divides_by_zero :
    ∃ (ns : Consensus) (params : CircuitParams) (path : CcPath) (cc : CongestionControl) (env : Env),
      Reached (system ns params path) (fun _ _ => True) cc ∧
        (congestionControlDispatchCcAlg env cc).isSome ∧ 0 ∈ sendmeDivisors env cc :=
  ⟨consensusWith .ccVegasGammaExit 186, ⟨true, 2⟩, .exit, twoCellsSent 186 2, sendmeAt 0 true,
    reached_twoCellsSent 186 (fun _ _ _ => trivial) 2 (by omega), by decide +kernel,
    by decide +kernel⟩

end Vegas
