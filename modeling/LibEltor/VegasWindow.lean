/-
How small the congestion window can get (`core/or/congestion_control_vegas.c`).

A circuit can earn a SENDME only while its window holds one increment of cells.
The steady state keeps the window above `cwndMin`; the end of slow start does
not, and the differences are taken in 64 bits without a check.
-/
import LibEltor.Vegas

open Word CongestionControl Vegas Transition

namespace VegasWindow

/-! ### Parameters -/

structure InRange (cc : CongestionControl) : Prop where
  sendmeInc : cc.sendmeInc ≤ 255
  cwndInc : cc.cwndInc ≤ 1000
  cwndMin : cc.cwndMin ≤ 1000
  cwndIncPctSs : cc.cwndIncPctSs ≤ 500
  gamma : cc.vegasParams.gamma ≤ 1000
  delta : cc.vegasParams.delta < 2 ^ 16
  ssCwndCap : cc.vegasParams.ssCwndCap ≤ 2147483647
  le_ssCwndMax : 500 ≤ cc.vegasParams.ssCwndMax

theorem InRange.of_same {cc cc' : CongestionControl} (h : InRange cc) (hs : Same cc cc') :
    InRange cc' where
  sendmeInc := hs.sendmeInc ▸ h.sendmeInc
  cwndInc := hs.cwndInc ▸ h.cwndInc
  cwndMin := hs.cwndMin ▸ h.cwndMin
  cwndIncPctSs := hs.cwndIncPctSs ▸ h.cwndIncPctSs
  gamma := hs.vegasParams ▸ h.gamma
  delta := hs.vegasParams ▸ h.delta
  ssCwndCap := hs.vegasParams ▸ h.ssCwndCap
  le_ssCwndMax := hs.vegasParams ▸ h.le_ssCwndMax

theorem InRange.counted {cc : CongestionControl} (h : InRange cc) (inflight : ℕ)
    (timestamps : List ℕ) (nextCcEvent nextCwndEvent cwnd : ℕ) :
    InRange { cc with
      inflight := inflight
      sendmePendingTimestamps := timestamps
      nextCcEvent := nextCcEvent
      nextCwndEvent := nextCwndEvent
      cwnd := cwnd } :=
  ⟨h.sendmeInc, h.cwndInc, h.cwndMin, h.cwndIncPctSs, h.gamma, h.delta, h.ssCwndCap,
    h.le_ssCwndMax⟩

theorem vegasParams_mem (ns : Consensus) (path : CcPath) :
    (congestionControlVegasSetParams ns path).gamma ≤ 1000 ∧
      (congestionControlVegasSetParams ns path).delta < 2 ^ 16 ∧
      (congestionControlVegasSetParams ns path).ssCwndCap ≤ 2147483647 ∧
      500 ≤ (congestionControlVegasSetParams ns path).ssCwndMax := by
  have hgamma : ∀ param dflt, u16 (networkstatusGetParam ns param dflt 0 1000) ≤ 1000 := by
    intro param dflt
    exact_mod_cast (stored_mem 16 ns param dflt 0 1000 (by decide) (by decide) (by decide)).2
  have hcap : ∀ param dflt,
      u32 (networkstatusGetParam ns param dflt 100 int32Max) ≤ 2147483647 := by
    intro param dflt
    exact_mod_cast (stored_mem 32 ns param dflt 100 2147483647
      (by decide) (by decide) (by decide)).2
  have hmax : 500 ≤ u32 (networkstatusGetParam ns .ccSsMax 5000 500 int32Max) := by
    exact_mod_cast (stored_mem 32 ns .ccSsMax 5000 500 int32Max
      (by decide) (by decide) (by decide)).1
  cases path <;> exact ⟨hgamma _ _, wrap_lt 16 _, hcap _ _, hmax⟩

theorem inRange_new (ns : Consensus) (params : CircuitParams) (path : CcPath) :
    InRange (congestionControlNew ns params path) := by
  obtain ⟨hgamma, hdelta, hcap, hmax⟩ := vegasParams_mem ns path
  refine ⟨?_, ?_, ?_, ?_, hgamma, hdelta, hcap, hmax⟩
  · have := params.sendmeIncCells.toNat_lt
    show params.sendmeIncCells.toNat ≤ 255
    omega
  · exact_mod_cast (stored_mem 16 ns .ccCwndInc 1 1 1000 (by decide) (by decide) (by decide)).2
  · exact_mod_cast (stored_mem 16 ns .ccCwndMin circwindowInit sendmeIncDflt 1000
      (by decide) (by decide) (by decide)).2
  · exact_mod_cast (stored_mem 16 ns .ccCwndIncPctSs 100 1 500
      (by decide) (by decide) (by decide)).2

theorem cwnd_new_le (ns : Consensus) (params : CircuitParams) (path : CcPath) :
    (congestionControlNew ns params path).cwnd ≤ 10000 := by
  exact_mod_cast (stored_mem 64 ns .ccCwndInit circwindowInit sendmeIncDflt 10000
    (by decide) (by decide) (by decide)).2

theorem updateMinRtt_le (env : Env) {cc : CongestionControl} (hss : cc.inSlowStart) :
    updateMinRtt env cc ≤ cc.ewmaRttUsec := by
  -- the branches: no minimum yet, the minimum raised, a smaller average, no change
  unfold updateMinRtt
  split_ifs with hzero hmin hlt
  · exact le_refl _
  · exact absurd hss hmin.2
  · exact le_refl _
  · exact not_lt.mp hlt

theorem estimates_slowStart {env : Env} {cc est : CongestionControl} {updated : Bool}
    (h : congestionControlUpdateCircuitEstimates env cc = some (est, updated))
    (hss : cc.inSlowStart) (hrtt : cc.minRttUsec ≤ cc.ewmaRttUsec) :
    est.minRttUsec ≤ est.ewmaRttUsec ∧ est.bdp ≤ max cc.cwnd cc.cwndMin := by
  simp only [congestionControlUpdateCircuitEstimates, congestionControlUpdateCircuitRtt,
    Option.bind_eq_bind, Option.bind_eq_some_iff] at h
  obtain ⟨⟨cc₁, rtt⟩, ⟨⟨sentAt, timestamps⟩, hdeq, hupdate⟩, hbdp⟩ := h
  have hcc₁ : cc₁.minRttUsec ≤ cc₁.ewmaRttUsec ∧ cc₁.cwnd = cc.cwnd ∧ cc₁.cwndMin = cc.cwndMin := by
    split_ifs at hupdate
    · cases hupdate
      exact ⟨hrtt, rfl, rfl⟩
    · cases hupdate
      exact ⟨updateMinRtt_le env hss, rfl, rfl⟩
  obtain ⟨hle, hcwnd, hmin⟩ := hcc₁
  have hest : est = (congestionControlUpdateCircuitBdp env cc₁ rtt).1 := by
    rw [Option.some_inj.mp hbdp]
  rw [hest, ← hcwnd, ← hmin]
  unfold congestionControlUpdateCircuitBdp
  -- without an average the product is the window, or what is not queued of it
  by_cases hewma : cc₁.ewmaRttUsec = 0
  · rw [if_pos hewma]
    refine ⟨hle, ?_⟩
    show (if env.blockedOnChan then unqueuedCwnd env cc₁ else cc₁.cwnd) ≤ _
    unfold unqueuedCwnd
    split_ifs <;> omega
  · rw [if_neg hewma]
    refine ⟨hle, le_trans ?_ (le_max_left _ _)⟩
    -- the product may wrap, which only makes it smaller
    exact wrap_mul_div_le 64 (Nat.pos_of_ne_zero hewma) hle

/-! ### One update of the window -/

def windowTarget (cc : CongestionControl) : ℤ :=
  if cc.inSlowStart then slowStartTarget cc
  else if cc.nextCcEvent = 0 then steadyTarget cc
  else cc.cwnd

/-- A drop by the increment from `base` does not wrap, and leaves an increment of
cells where `cwndMin` does not. -/
def Drops (cc : CongestionControl) (base : ℕ) : Prop :=
  cc.cwndInc ≤ base ∧ (cc.sendmeInc ≤ cc.cwndMin ∨ cc.sendmeInc + cc.cwndInc ≤ base)

structure SafeUpdate (cc : CongestionControl) : Prop where
  signal : cc.inSlowStart → ssSignal cc → cc.sendmeInc ≤ cc.bdp + cc.vegasParams.gamma
  deltaDrop : ¬cc.inSlowStart → cc.nextCcEvent = 0 → queueUse cc > cc.vegasParams.delta →
    Drops cc (cc.bdp + cc.vegasParams.delta)
  betaDrop : ¬cc.inSlowStart → cc.nextCcEvent = 0 → ¬queueUse cc > cc.vegasParams.delta →
    queueUse cc > cc.vegasParams.beta ∨ cc.blockedChan → Drops cc cc.cwnd

theorem cwnd_slowStart (cc : CongestionControl) :
    (slowStart cc).cwnd = min (u64 (slowStartTarget cc)) cc.vegasParams.ssCwndMax := by
  simp only [slowStart, exitSlowStart]
  split_ifs <;> simp_all only [ge_iff_le, not_le, min_eq_right, min_eq_left, le_of_lt]

theorem rfc3742SsInc_le {cc : CongestionControl} (h : InRange cc) (hcwnd : cc.cwnd ≤ 2147483647) :
    rfc3742SsInc cc < 2 ^ 62 := by
  have hcap : cc.sendmeInc * cc.vegasParams.ssCwndCap ≤ 255 * 2147483647 :=
    Nat.mul_le_mul h.sendmeInc h.ssCwndCap
  have hpct : cc.cwndIncPctSs * cc.sendmeInc ≤ 500 * 255 :=
    Nat.mul_le_mul h.cwndIncPctSs h.sendmeInc
  unfold rfc3742SsInc
  split_ifs
  · have hstored : u64 (cc.cwndIncPctSs * cc.sendmeInc + 50) ≤
        cc.cwndIncPctSs * cc.sendmeInc + 50 := by
      exact_mod_cast wrap_natCast_le 64 (cc.cwndIncPctSs * cc.sendmeInc + 50)
    have hdiv := Nat.div_le_self (u64 (cc.cwndIncPctSs * cc.sendmeInc + 50)) 100
    omega
  · have hstored : u64 (cc.sendmeInc * cc.vegasParams.ssCwndCap + cc.cwnd) ≤
        cc.sendmeInc * cc.vegasParams.ssCwndCap + cc.cwnd := by
      exact_mod_cast wrap_natCast_le 64 (cc.sendmeInc * cc.vegasParams.ssCwndCap + cc.cwnd)
    have hdiv := Nat.div_le_self (u64 (cc.sendmeInc * cc.vegasParams.ssCwndCap + cc.cwnd))
      (u64 (2 * cc.cwnd))
    omega

theorem slowStart_ok_iff {cc : CongestionControl} (h : InRange cc) (hcwnd : cc.cwnd ≤ 2147483647)
    (hinc : cc.sendmeInc ≤ cc.cwnd) (hbdp : cc.bdp ≤ 2147483647) :
    ((0 ≤ slowStartTarget cc ∧ slowStartTarget cc < 2 ^ 64) ∧
      cc.sendmeInc ≤ (slowStart cc).cwnd) ↔
      (ssSignal cc → cc.sendmeInc ≤ cc.bdp + cc.vegasParams.gamma) := by
  have hinc255 := h.sendmeInc
  have hgamma := h.gamma
  have hssmax := h.le_ssCwndMax
  have hssInc := rfc3742SsInc_le h hcwnd
  -- whatever the branch, the target is far from both ends
  have hrange : 0 ≤ slowStartTarget cc ∧ slowStartTarget cc < 2 ^ 64 := by
    unfold slowStartTarget
    split_ifs <;> omega
  have hstored := u64_of_mem hrange.1 hrange.2
  rw [cwnd_slowStart]
  constructor
  · rintro ⟨-, hleft⟩ hsignal
    rw [slowStartTarget, if_pos hsignal] at hstored
    rw [slowStartTarget, if_pos hsignal] at hleft
    omega
  · intro hsafe
    refine ⟨hrange, ?_⟩
    by_cases hsignal : ssSignal cc
    · have hleft := hsafe hsignal
      rw [slowStartTarget, if_pos hsignal] at hstored ⊢
      omega
    · rw [slowStartTarget, if_neg hsignal] at hstored ⊢
      split_ifs at hstored ⊢ <;> omega

theorem drop_ok_iff {cc : CongestionControl} {base : ℕ} (hbase : base < 2 ^ 64) :
    ((0 ≤ (base : ℤ) - cc.cwndInc ∧ (base : ℤ) - cc.cwndInc < 2 ^ 64) ∧
      cc.sendmeInc ≤ max (u64 (base - cc.cwndInc)) cc.cwndMin) ↔ Drops cc base := by
  constructor
  · rintro ⟨⟨hnn, hlt⟩, hleft⟩
    have hstored := u64_of_mem hnn hlt
    refine ⟨by omega, ?_⟩
    rcases le_max_iff.mp hleft with hleft | hleft
    · exact .inr (by omega)
    · exact .inl hleft
  · rintro ⟨hle, hleft⟩
    have hstored : (u64 (base - cc.cwndInc) : ℤ) = _ := u64_of_mem (by omega) (by omega)
    refine ⟨⟨by omega, by omega⟩, le_max_iff.mpr ?_⟩
    rcases hleft with hleft | hleft
    · exact .inr hleft
    · exact .inl (by omega)

theorem steadyState_ok_iff {cc : CongestionControl} (h : InRange cc)
    (hcwnd : cc.cwnd ≤ 2147483647) (hinc : cc.sendmeInc ≤ cc.cwnd) :
    ((0 ≤ steadyTarget cc ∧ steadyTarget cc < 2 ^ 64) ∧
      cc.sendmeInc ≤ (steadyState cc).cwnd) ↔
      (queueUse cc > cc.vegasParams.delta → Drops cc (cc.bdp + cc.vegasParams.delta)) ∧
        (¬queueUse cc > cc.vegasParams.delta →
          queueUse cc > cc.vegasParams.beta ∨ cc.blockedChan → Drops cc cc.cwnd) := by
  have hupdate : (steadyState cc).cwnd = max (u64 (steadyTarget cc)) cc.cwndMin := rfl
  have hcwndInc := h.cwndInc
  rw [hupdate]
  by_cases hdrop : queueUse cc > cc.vegasParams.delta
  · -- above the delta threshold the product is below the window
    have hbdp : cc.bdp + cc.vegasParams.delta < cc.cwnd := by
      unfold queueUse at hdrop
      split_ifs at hdrop <;> omega
    have hsteady : steadyTarget cc =
        (cc.bdp + cc.vegasParams.delta : ℕ) - (cc.cwndInc : ℤ) := by
      rw [steadyTarget, if_pos hdrop]
      push_cast
      rfl
    rw [hsteady, drop_ok_iff (by omega)]
    constructor
    · intro hdrops
      exact ⟨fun _ => hdrops, fun hn => absurd hdrop hn⟩
    · rintro ⟨hsafe, -⟩
      exact hsafe hdrop
  · by_cases hbeta : queueUse cc > cc.vegasParams.beta ∨ cc.blockedChan
    · -- above beta, or blocked, the window drops by an increment from itself
      have hsteady : steadyTarget cc = cc.cwnd - cc.cwndInc := by
        rw [steadyTarget, if_neg hdrop, if_pos hbeta]
      rw [hsteady, drop_ok_iff (by omega)]
      constructor
      · intro hdrops
        exact ⟨fun hd => absurd hd hdrop, fun _ _ => hdrops⟩
      · rintro ⟨-, hsafe⟩
        exact hsafe hdrop hbeta
    · -- below beta the window only grows
      have hrange : cc.cwnd ≤ steadyTarget cc ∧ steadyTarget cc < 2 ^ 64 := by
        rw [steadyTarget, if_neg hdrop, if_neg hbeta]
        split_ifs <;> omega
      have hstored := u64_of_mem (x := steadyTarget cc) (by omega) hrange.2
      constructor
      · intro _
        exact ⟨fun hd => absurd hd hdrop, fun _ hb => absurd hb hbeta⟩
      · intro _
        exact ⟨⟨by omega, hrange.2⟩, le_max_iff.mpr (.inl (by omega))⟩

theorem updateWindow_ok_iff {cc : CongestionControl} (h : InRange cc)
    (hcwnd : cc.cwnd ≤ 2147483647) (hinc : cc.sendmeInc ≤ cc.cwnd)
    (hbdp : cc.inSlowStart → cc.bdp ≤ 2147483647) :
    ((0 ≤ windowTarget cc ∧ windowTarget cc < 2 ^ 64) ∧
      cc.sendmeInc ≤ (updateWindow cc).cwnd) ↔ SafeUpdate cc := by
  by_cases hss : cc.inSlowStart
  · rw [windowTarget, updateWindow, if_pos hss, if_pos hss,
      slowStart_ok_iff h hcwnd hinc (hbdp hss)]
    constructor
    · intro hsignal
      exact ⟨fun _ => hsignal, fun hn => absurd hss hn, fun hn => absurd hss hn⟩
    · intro hsafe
      exact hsafe.signal hss
  · by_cases hnext : cc.nextCcEvent = 0
    · rw [windowTarget, updateWindow, if_neg hss, if_neg hss, if_pos hnext, if_pos hnext,
        steadyState_ok_iff h hcwnd hinc]
      constructor
      · rintro ⟨hdelta, hbeta⟩
        exact ⟨fun hs => absurd hs hss, fun _ _ => hdelta, fun _ _ => hbeta⟩
      · intro hsafe
        exact ⟨hsafe.deltaDrop hss hnext, hsafe.betaDrop hss hnext⟩
    · -- no event is due, and the window stays
      rw [windowTarget, updateWindow, if_neg hss, if_neg hss, if_neg hnext, if_neg hnext]
      constructor
      · intro _
        exact ⟨fun hs => absurd hs hss, fun _ hn => absurd hn hnext, fun _ hn => absurd hn hnext⟩
      · intro _
        exact ⟨⟨by omega, by omega⟩, hinc⟩

/-! ### Every SENDME of a run -/

inductive Action
  /-- A cell is sent on the edge the object belongs to. -/
  | sent (edge : Edge) (nowUsec : ℕ)
  | sendme (env : Env)

def system (ns : Consensus) (params : CircuitParams) (path : CcPath) :
    System CongestionControl Action where
  init cc := cc = congestionControlNew ns params path
  step cc a cc' :=
    match a with
    | .sent edge nowUsec =>
      edge.ccontrol = some cc ∧ congestionControlNoteCellSent edge cc nowUsec = some cc'
    | .sendme env => congestionControlDispatchCcAlg env cc = some cc'

/-- A SENDME assigned nothing below zero or above 64 bits to the window, the window
is within its bounds, and once nothing is in flight an increment of cells can be
sent. -/
structure WindowOk (env : Env) (cc cc' : CongestionControl) : Prop where
  exact : ∀ est, congestionControlUpdateCircuitEstimates env (countAck cc) = some (est, true) →
    0 ≤ windowTarget (updateFull env est) ∧ windowTarget (updateFull env est) < 2 ^ 64
  min_le : min cc'.cwndMin cc'.sendmeInc ≤ cc'.cwnd
  le_max : cc'.cwnd ≤ env.cwndMax
  can_send : ∀ edge : Edge, edge.ccontrol = some { cc' with inflight := 0 } →
    cc'.sendmeInc ≤ congestionControlGetPackageWindow edge

def SafeSendme (env : Env) (cc : CongestionControl) : Prop :=
  ∀ est, congestionControlUpdateCircuitEstimates env (countAck cc) = some (est, true) →
    SafeUpdate (updateFull env est)

def safe (cc : CongestionControl) : Action → Prop
  | .sent _ _ => True
  | .sendme env => SafeSendme env cc

structure Earning (cc : CongestionControl) : Prop where
  range : InRange cc
  cwnd_le : cc.cwnd ≤ 2147483647
  inc_le : cc.sendmeInc ≤ cc.cwnd
  rtt : cc.inSlowStart → cc.minRttUsec ≤ cc.ewmaRttUsec

theorem updateFull_frame (env : Env) (cc : CongestionControl) :
    (updateFull env cc).cwnd = cc.cwnd ∧ (updateFull env cc).bdp = cc.bdp ∧
      (updateFull env cc).inSlowStart = cc.inSlowStart ∧
      (updateFull env cc).minRttUsec = cc.minRttUsec ∧
      (updateFull env cc).ewmaRttUsec = cc.ewmaRttUsec := by
  unfold updateFull
  split_ifs <;> exact ⟨rfl, rfl, rfl, rfl, rfl⟩

theorem resetEvents_frame (env : Env) (cc : CongestionControl) :
    (resetEvents env cc).cwnd = cc.cwnd ∧ (resetEvents env cc).inSlowStart = cc.inSlowStart ∧
      (resetEvents env cc).minRttUsec = cc.minRttUsec ∧
      (resetEvents env cc).ewmaRttUsec = cc.ewmaRttUsec := by
  simp only [resetEvents]
  split_ifs <;> exact ⟨rfl, rfl, rfl, rfl⟩

theorem updateWindow_frame (cc : CongestionControl) :
    ((updateWindow cc).inSlowStart → cc.inSlowStart) ∧
      (updateWindow cc).minRttUsec = cc.minRttUsec ∧
      (updateWindow cc).ewmaRttUsec = cc.ewmaRttUsec := by
  unfold updateWindow
  by_cases hss : cc.inSlowStart
  · rw [if_pos hss]
    simp only [slowStart, exitSlowStart]
    split_ifs <;> exact ⟨fun _ => hss, rfl, rfl⟩
  · rw [if_neg hss]
    split_ifs <;> exact ⟨fun h => absurd h hss, rfl, rfl⟩

theorem processed_ok_iff {env : Env} {cc est : CongestionControl} {updated : Bool}
    (h : Earning cc)
    (hest : congestionControlUpdateCircuitEstimates env (countAck cc) = some (est, updated)) :
    ((updated → 0 ≤ windowTarget (updateFull env est) ∧
        windowTarget (updateFull env est) < 2 ^ 64) ∧
      cc.sendmeInc ≤ (processed env est updated).cwnd) ↔
      (updated → SafeUpdate (updateFull env est)) := by
  obtain ⟨-, hsame, hcwnd, hss⟩ := estimates_spec hest
  have hcwnd : est.cwnd = cc.cwnd := hcwnd
  have hss : est.inSlowStart = cc.inSlowStart := hss
  have hinc : est.sendmeInc = cc.sendmeInc := hsame.sendmeInc
  cases updated with
  | false =>
    have hkept : (processed env est false).cwnd = cc.cwnd := hcwnd
    constructor
    · intro _ hno
      cases hno
    · intro _
      refine ⟨fun hno => absurd hno Bool.false_ne_true, ?_⟩
      rw [hkept]
      exact h.inc_le
  | true =>
    obtain ⟨hfullCwnd, hfullBdp, hfullSs, -, -⟩ := updateFull_frame env est
    have hfull := same_updateFull env est
    have hcc : InRange (dequeued (countAck cc)) := h.range.counted _ _ _ _ _
    have hrange : InRange (updateFull env est) := (hcc.of_same hsame).of_same hfull
    have hbdp : (updateFull env est).inSlowStart → (updateFull env est).bdp ≤ 2147483647 := by
      intro hslow
      have hslow : cc.inSlowStart := by rwa [hfullSs, hss] at hslow
      -- in slow start the product is bounded by the window, so the targets are small
      have hle := (estimates_slowStart hest hslow (h.rtt hslow)).2
      have hcwndMin := h.range.cwndMin
      have hcwndLe := h.cwnd_le
      have hle : est.bdp ≤ max cc.cwnd cc.cwndMin := hle
      rw [hfullBdp]
      omega
    have hiff := updateWindow_ok_iff hrange (by rw [hfullCwnd, hcwnd]; exact h.cwnd_le)
      (by rw [hfullCwnd, hcwnd, hfull.sendmeInc, hinc]; exact h.inc_le) hbdp
    have hprocessed : (processed env est true).cwnd = (updateWindow (updateFull env est)).cwnd :=
      (resetEvents_frame env _).1
    rw [hfull.sendmeInc, hinc, ← hprocessed] at hiff
    constructor
    · rintro ⟨htarget, hleft⟩ -
      exact hiff.mp ⟨htarget rfl, hleft⟩
    · intro hsafe
      obtain ⟨htarget, hleft⟩ := hiff.mpr (hsafe rfl)
      exact ⟨fun _ => htarget, hleft⟩

theorem sendme_ok_iff {env : Env} {cc cc' : CongestionControl} (h : Earning cc)
    (hstep : congestionControlDispatchCcAlg env cc = some cc') :
    WindowOk env cc cc' ↔ SafeSendme env cc := by
  obtain ⟨est, updated, hest, rfl⟩ := dispatch_eq_some hstep
  have hiff := processed_ok_iff h hest
  obtain ⟨-, hsame, -, -⟩ := estimates_spec hest
  have hinc : (processed env est updated).sendmeInc = cc.sendmeInc :=
    (hsame.trans (same_processed env est updated)).sendmeInc
  have hinc255 := h.range.sendmeInc
  obtain ⟨hmax, hmaxLe⟩ := cwndMax_mem env
  have hclamp : (clampCwnd env (ackInflight (processed env est updated))).cwnd ≤ env.cwndMax :=
    min_le_right _ _
  have hupdated : ∀ est', some (est, updated) = some (est', true) ↔ updated = true ∧ est' = est := by
    intro est'
    constructor
    · intro heq
      cases heq
      exact ⟨rfl, rfl⟩
    · rintro ⟨hu, rfl⟩
      rw [hu]
  constructor
  · intro hok est' hest'
    rw [hest, hupdated] at hest'
    obtain ⟨rfl, rfl⟩ := hest'
    refine hiff.mp ⟨fun _ => hok.exact est' hest, ?_⟩ rfl
    -- the edge shows the whole window when nothing is in flight
    have hsend := hok.can_send ⟨0, 0, _⟩ rfl
    rw [packageWindow_idle (hclamp.trans hmaxLe) rfl] at hsend
    have hleft : cc.sendmeInc ≤ min (processed env est' true).cwnd env.cwndMax := by
      rw [← hinc]
      exact_mod_cast hsend
    exact le_trans hleft (min_le_left _ _)
  · intro hsafe
    obtain ⟨htarget, hleft⟩ := hiff.mpr fun hu => hsafe est (by rw [hest, hu])
    have hcwnd : (processed env est updated).sendmeInc ≤
        min (processed env est updated).cwnd env.cwndMax := by
      rw [hinc]
      exact le_min hleft (by omega)
    refine ⟨?_, le_trans (min_le_right _ _) hcwnd, hclamp, ?_⟩
    · intro est' hest'
      rw [hest, hupdated] at hest'
      obtain ⟨hu, rfl⟩ := hest'
      exact htarget hu
    · intro edge hedge
      rw [packageWindow_idle (hclamp.trans hmaxLe) hedge]
      exact_mod_cast hcwnd

theorem processed_frame (env : Env) (est : CongestionControl) (updated : Bool) :
    ((processed env est updated).inSlowStart → est.inSlowStart) ∧
      (processed env est updated).minRttUsec = est.minRttUsec ∧
      (processed env est updated).ewmaRttUsec = est.ewmaRttUsec := by
  cases updated with
  | false => exact ⟨id, rfl, rfl⟩
  | true =>
    obtain ⟨-, hresetSs, hresetMin, hresetEwma⟩ :=
      resetEvents_frame env (updateWindow (updateFull env est))
    obtain ⟨hkeepSs, hkeepMin, hkeepEwma⟩ := updateWindow_frame (updateFull env est)
    obtain ⟨-, -, hfullSs, hfullMin, hfullEwma⟩ := updateFull_frame env est
    have hprocessed : processed env est true =
      resetEvents env (updateWindow (updateFull env est)) := rfl
    rw [hprocessed, hresetSs, hresetMin, hresetEwma, hkeepMin, hkeepEwma, hfullMin, hfullEwma]
    exact ⟨fun hslow => hfullSs ▸ hkeepSs hslow, rfl, rfl⟩

theorem processed_slowStart {env : Env} {cc est : CongestionControl} {updated : Bool}
    (hest : congestionControlUpdateCircuitEstimates env (countAck cc) = some (est, updated))
    (hrtt : cc.inSlowStart → cc.minRttUsec ≤ cc.ewmaRttUsec)
    (hslow : (processed env est updated).inSlowStart) :
    (processed env est updated).minRttUsec ≤ (processed env est updated).ewmaRttUsec := by
  obtain ⟨-, -, -, hss⟩ := estimates_spec hest
  obtain ⟨hkeep, hmin, hewma⟩ := processed_frame env est updated
  have hcc : cc.inSlowStart := by
    have hestSs := hkeep hslow
    rwa [show est.inSlowStart = cc.inSlowStart from hss] at hestSs
  rw [hmin, hewma]
  exact (estimates_slowStart hest hcc (hrtt hcc)).1

theorem Earning.sendme {env : Env} {cc cc' : CongestionControl} (h : Earning cc)
    (hsafe : SafeSendme env cc) (hstep : congestionControlDispatchCcAlg env cc = some cc') :
    Earning cc' := by
  obtain ⟨est, updated, hest, rfl⟩ := dispatch_eq_some hstep
  obtain ⟨-, hmaxLe⟩ := cwndMax_mem env
  obtain ⟨hmax, -⟩ := cwndMax_mem env
  have hleft := ((processed_ok_iff h hest).mpr fun hu => hsafe est (by rw [hest, hu])).2
  obtain ⟨-, hsame, -, hss⟩ := estimates_spec hest
  have hall := hsame.trans (same_processed env est updated)
  have hinc255 := h.range.sendmeInc
  have hrange : InRange (dequeued (countAck cc)) := h.range.counted _ _ _ _ _
  have hprocessed : InRange (processed env est updated) := hrange.of_same hall
  -- the clamp, the increment that is left, and the order of the round trip times
  refine ⟨hprocessed.counted _ _ _ _ _, ?_, ?_, ?_⟩
  · exact le_trans (min_le_right _ _) hmaxLe
  · show (processed env est updated).sendmeInc ≤ min (processed env est updated).cwnd env.cwndMax
    have hinc : (processed env est updated).sendmeInc = cc.sendmeInc := hall.sendmeInc
    rw [hinc]
    exact le_min hleft (by omega)
  · exact processed_slowStart hest h.rtt

theorem Earning.sent {edge : Edge} {cc cc' : CongestionControl} {nowUsec : ℕ} (h : Earning cc)
    (hstep : congestionControlNoteCellSent edge cc nowUsec = some cc') : Earning cc' := by
  simp only [congestionControlNoteCellSent, Option.bind_eq_bind, Option.bind_eq_some_iff] at hstep
  obtain ⟨sent, -, hstep⟩ := hstep
  cases sent <;> cases hstep
  · exact ⟨h.range.counted _ _ _ _ _, h.cwnd_le, h.inc_le, h.rtt⟩
  · exact ⟨h.range.counted _ _ _ _ _, h.cwnd_le, h.inc_le, h.rtt⟩

theorem earning_inductive {ns : Consensus} {params : CircuitParams} {path : CcPath}
    (hinit : params.sendmeIncCells.toNat ≤ (congestionControlNew ns params path).cwnd) :
    Inductive (system ns params path) safe Earning where
  init := by
    rintro cc rfl
    have hcwnd := cwnd_new_le ns params path
    exact ⟨inRange_new ns params path, by omega, hinit, fun _ => le_refl _⟩
  step := by
    intro cc a cc' h hok hstep
    cases a with
    | sent edge nowUsec => exact h.sent hstep.2
    | sendme env => exact h.sendme hok hstep

/-- In a run that has been safe so far, the window is in order after a SENDME just
where that SENDME is safe too. -/
theorem window_ok_iff (ns : Consensus) (params : CircuitParams) (path : CcPath)
    (hinit : params.sendmeIncCells.toNat ≤ (congestionControlNew ns params path).cwnd)
    {cc : CongestionControl} (hr : Reached (system ns params path) safe cc) (env : Env)
    {cc' : CongestionControl} (hstep : congestionControlDispatchCcAlg env cc = some cc') :
    WindowOk env cc cc' ↔ SafeSendme env cc :=
  sendme_ok_iff (hr.invariant (earning_inductive hinit)) hstep

/-- Parameters with which no estimate can make an update unsafe. -/
structure SafeParams (cc : CongestionControl) : Prop where
  gamma : cc.sendmeInc ≤ cc.vegasParams.gamma
  cwndMin : cc.sendmeInc ≤ cc.cwndMin
  delta : cc.cwndInc ≤ cc.vegasParams.delta
  cwndInc : cc.cwndInc ≤ cc.sendmeInc

theorem SafeParams.of_same {cc cc' : CongestionControl} (h : SafeParams cc) (hs : Same cc cc') :
    SafeParams cc' where
  gamma := by
    rw [hs.sendmeInc, hs.vegasParams]
    exact h.gamma
  cwndMin := by
    rw [hs.sendmeInc, hs.cwndMin]
    exact h.cwndMin
  delta := by
    rw [hs.cwndInc, hs.vegasParams]
    exact h.delta
  cwndInc := by
    rw [hs.cwndInc, hs.sendmeInc]
    exact h.cwndInc

/-! ### A run -/

def consensusWith (param : ConsensusParam) (value : ℤ) : Consensus :=
  fun p => if p = param then some value else none

def twoCells (gamma : ℤ) : CongestionControl :=
  congestionControlNew (consensusWith .ccVegasGammaExit gamma) ⟨true, 2⟩ .exit

/-- The circuit with `n` cells sent, of which the second, the fourth and so on
were noted at time 0. -/
def twoCellsSent (gamma : ℤ) (n : ℕ) : CongestionControl :=
  { twoCells gamma with
    inflight := n
    sendmePendingTimestamps := List.replicate (n / 2) 0 }

def sendmeAt (nowUsec : ℕ) (blockedOnChan : Bool) : Env :=
  ⟨nowUsec, false, 0, blockedOnChan, fun _ => none, fun _ => none⟩

theorem twoCellsSent_succ (gamma : ℤ) {n : ℕ} (hn : n + 1 < 2 ^ 64) :
    congestionControlNoteCellSent ⟨0, 0, some (twoCellsSent gamma n)⟩ (twoCellsSent gamma n) 0 =
      some (twoCellsSent gamma (n + 1)) := by
  have hnotes : NotesSendme (twoCellsSent gamma n) ↔ n % 2 = 1 := by
    show n ≠ 0 ∧ (n + 1) % 2 = 0 ↔ n % 2 = 1
    omega
  rw [noteCellSent_eq rfl hn (.inr two_ne_zero)]
  by_cases hodd : n % 2 = 1
  · have hhalf : (n + 1) / 2 = n / 2 + 1 := by omega
    rw [if_pos (hnotes.mpr hodd)]
    simp [twoCellsSent, hhalf, List.replicate_succ']
  · have hhalf : (n + 1) / 2 = n / 2 := by omega
    rw [if_neg (fun h => hodd (hnotes.mp h))]
    simp [twoCellsSent, hhalf]

theorem reached_twoCellsSent (gamma : ℤ) {ok : CongestionControl → Action → Prop}
    (hok : ∀ cc edge nowUsec, ok cc (.sent edge nowUsec)) (n : ℕ) (hn : n < 2 ^ 64) :
    Reached (system (consensusWith .ccVegasGammaExit gamma) ⟨true, 2⟩ .exit) ok
      (twoCellsSent gamma n) := by
  induction n with
  | zero => exact .init rfl
  | succ n ih => exact (ih (by omega)).step (hok _ _ 0) ⟨rfl, twoCellsSent_succ gamma hn⟩

def firstSendme : CongestionControl :=
  { twoCellsSent 1 4 with
    sendmePendingTimestamps := [0]
    ewmaRttUsec := 1000
    minRttUsec := 1000
    maxRttUsec := 1000
    bdp := 28
    inflight := 2
    nextCcEvent := 1
    nextCwndEvent := 14 }

def secondSendme : CongestionControl :=
  { firstSendme with
    sendmePendingTimestamps := []
    ewmaRttUsec := 667000
    maxRttUsec := 1000000
    bdp := 0
    cwnd := 1
    inflight := 0
    inSlowStart := false
    blockedChan := true
    nextCcEvent := 0
    nextCwndEvent := 13 }

theorem dispatch_firstSendme :
    congestionControlDispatchCcAlg (sendmeAt 1000 false) (twoCellsSent 1 4) = some firstSendme := by
  decide +kernel

theorem dispatch_secondSendme :
    congestionControlDispatchCcAlg (sendmeAt 1000000 true) firstSendme = some secondSendme := by
  decide +kernel

theorem window_ok_iff_firstSendme :
    WindowOk (sendmeAt 1000 false) (twoCellsSent 1 4) firstSendme ↔
      SafeSendme (sendmeAt 1000 false) (twoCellsSent 1 4) :=
  window_ok_iff (consensusWith .ccVegasGammaExit 1) ⟨true, 2⟩ .exit (by decide +kernel)
    (reached_twoCellsSent 1 (fun _ _ _ => trivial) 4 (by omega)) _ dispatch_firstSendme

/-- Slow start ends with a window of one cell, where a SENDME takes two. -/
theorem secondSendme_wedged :
    ¬∀ (ns : Consensus) (params : CircuitParams) (path : CcPath) (cc : CongestionControl),
      Reached (system ns params path) (fun _ _ => True) cc → ∀ (env : Env) (cc' : CongestionControl),
        congestionControlDispatchCcAlg env cc = some cc' → WindowOk env cc cc' := by
  intro hall
  have hsent : Reached (system (consensusWith .ccVegasGammaExit 1) ⟨true, 2⟩ .exit)
      (fun _ _ => True) (twoCellsSent 1 4) :=
    reached_twoCellsSent 1 (fun _ _ _ => trivial) 4 (by omega)
  have hstep : (system (consensusWith .ccVegasGammaExit 1) ⟨true, 2⟩ .exit).step (twoCellsSent 1 4)
      (.sendme (sendmeAt 1000 false)) firstSendme := dispatch_firstSendme
  have hok := hall _ _ _ _ (hsent.step trivial hstep) _ _ dispatch_secondSendme
  have hsmall : ¬min secondSendme.cwndMin secondSendme.sendmeInc ≤ secondSendme.cwnd := by
    decide +kernel
  exact hsmall hok.min_le

end VegasWindow
