/-
The order of the round trip times (`core/or/congestion_control_common.c`).

Each measurement updates an average, a maximum and a minimum, in this order.  The minimum follows the
average down, except where the window is at its floor outside slow start: there it becomes a mix of
both by `rtt_reset_pct`, which may be above an average that has just fallen.
-/
import LibEltor.VegasDivision
import Mathlib

open Word CongestionControl Transition

namespace Vegas

/-! ### The arithmetic -/

/-- No sample is longer than this: some two thousand years, in microseconds. -/
abbrev longestRtt : ℕ := 72057594037927936

def average (curr prev n : ℕ) : ℕ := (2 * curr + (n - 1) * prev) / (n + 1)

theorem average_mem (curr prev : ℕ) {n : ℕ} (hn : 1 ≤ n) :
    min curr prev ≤ average curr prev n ∧ average curr prev n ≤ max curr prev := by
  have hsum : n + 1 = 2 + (n - 1) := by omega
  have hpos : 0 < n + 1 := Nat.succ_pos n
  constructor
  · rw [average, Nat.le_div_iff_mul_le hpos]
    calc min curr prev * (n + 1)
        = 2 * min curr prev + (n - 1) * min curr prev := by rw [hsum]; ring
      _ ≤ 2 * curr + (n - 1) * prev := by gcongr <;> simp
  · rw [average]
    refine Nat.div_le_of_le_mul ?_
    calc 2 * curr + (n - 1) * prev
        ≤ 2 * max curr prev + (n - 1) * max curr prev := by gcongr <;> simp
      _ = (n + 1) * max curr prev := by rw [hsum]; ring

theorem nCountEwma_eq {curr prev n : ℕ} (hprev : prev ≠ 0) (hn : 1 ≤ n) (hmax : n ≤ 255)
    (hcurr : curr < longestRtt) (hlong : prev < longestRtt) :
    nCountEwma curr prev n = average curr prev n := by
  have hprod : (n - 1) * prev ≤ 254 * prev := Nat.mul_le_mul_right _ (by omega)
  have hcast : (2 * (curr : ℤ) + ((n : ℤ) - 1) * prev) = ((2 * curr + (n - 1) * prev : ℕ) : ℤ) := by
    push_cast [Nat.cast_sub hn]
    ring
  simp only [longestRtt] at hcurr hlong
  have hstored : u64 ((2 * curr + (n - 1) * prev : ℕ) : ℤ) = 2 * curr + (n - 1) * prev :=
    wrap_natCast (by norm_num; omega)
  have hdivisor : u64 ((n : ℤ) + 1) = n + 1 := by
    have := wrap_natCast (w := 64) (n := n + 1) (by omega)
    push_cast at this
    exact this
  rw [nCountEwma, if_neg hprev, hcast, hstored, hdivisor, average]

/-- The share of the lower value that is rounded away is what the share of the upper one may be too
much by. -/
def SharesFit (pct low avg : ℕ) : Prop :=
  pct * low / 100 ≤ (pct * avg + 99) / 100 ∧ (100 ≤ pct * max avg low ∨ 100 ≤ (100 - pct) * min avg low)

theorem percentMaxMix_eq {a b pct : ℕ} (hpct : pct ≤ 100) (ha : a < longestRtt)
    (hb : b < longestRtt) :
    percentMaxMix a b pct = pct * max a b / 100 + (100 - pct) * min a b / 100 := by
  have hmax : max a b < longestRtt := max_lt ha hb
  have hmin : min a b < longestRtt := lt_of_le_of_lt (min_le_left ..) ha
  have hupper : pct * max a b ≤ 100 * max a b := Nat.mul_le_mul_right _ hpct
  have hlower : (100 - pct) * min a b ≤ 100 * min a b := Nat.mul_le_mul_right _ (by omega)
  simp only [longestRtt] at hmax hmin
  have h₁ : u64 ((pct : ℤ) * (max a b : ℕ)) = pct * max a b := by
    have := wrap_natCast (w := 64) (n := pct * max a b) (by norm_num; omega)
    push_cast at this ⊢
    exact this
  have h₂ : u64 ((100 - (pct : ℤ)) * (min a b : ℕ)) = (100 - pct) * min a b := by
    have := wrap_natCast (w := 64) (n := (100 - pct) * min a b) (by norm_num; omega)
    push_cast [Nat.cast_sub hpct] at this ⊢
    exact this
  have h₃ : u64 ((pct * max a b / 100 + (100 - pct) * min a b / 100 : ℕ) : ℤ) =
      pct * max a b / 100 + (100 - pct) * min a b / 100 := wrap_natCast (by norm_num; omega)
  rw [percentMaxMix, if_neg (by omega), h₁, h₂, ← h₃]
  push_cast
  rfl

theorem div_hundred_le_iff {x y z : ℕ} (h : z ≤ 100 * y) :
    x / 100 + (100 * y - z) / 100 ≤ y ↔ x / 100 ≤ (z + 99) / 100 := by
  omega

theorem percentMaxMix_le_iff {avg low pct : ℕ} (hpct : pct ≤ 100) (havg : avg < longestRtt)
    (hlow : low < longestRtt) :
    0 < percentMaxMix avg low pct ∧ percentMaxMix avg low pct ≤ avg ↔ SharesFit pct low avg := by
  have hrest (x : ℕ) : (100 - pct) * x = 100 * x - pct * x := Nat.sub_mul ..
  have hbelow (x : ℕ) : pct * x ≤ 100 * x := Nat.mul_le_mul_right _ hpct
  have hpos : 0 < percentMaxMix avg low pct ↔
      100 ≤ pct * max avg low ∨ 100 ≤ (100 - pct) * min avg low := by
    rw [percentMaxMix_eq hpct havg hlow]
    omega
  rw [hpos, SharesFit, and_comm]
  refine and_congr_left fun _ => ?_
  rw [percentMaxMix_eq hpct havg hlow]
  rcases le_total avg low with hle | hle
  · rw [max_eq_right hle, min_eq_left hle, hrest]
    exact div_hundred_le_iff (hbelow avg)
  · -- a minimum that is not above the average never makes the mix too much
    rw [max_eq_left hle, min_eq_right hle, hrest]
    have hshare : pct * low ≤ pct * avg := Nat.mul_le_mul_left _ hle
    have := hbelow low
    have := hbelow avg
    have hsplit : 100 * low - pct * low ≤ 100 * avg - pct * avg := by
      rw [← hrest, ← hrest]
      exact Nat.mul_le_mul_left _ hle
    refine iff_of_true ?_ ?_ <;> omega

/-! ### One measurement -/

/-- The order of the three estimates, of which the minimum is positive. -/
structure InOrder (cc : CongestionControl) : Prop where
  pos : 0 < cc.minRttUsec
  min_le : cc.minRttUsec ≤ cc.ewmaRttUsec
  le_max : cc.ewmaRttUsec ≤ cc.maxRttUsec

/-- There are no estimates yet, or they are in order; none is longer than the longest sample. -/
structure Measured (cc : CongestionControl) : Prop where
  order : cc.ewmaRttUsec = 0 ∧ cc.minRttUsec = 0 ∧ cc.maxRttUsec = 0 ∨ InOrder cc
  short : cc.maxRttUsec < longestRtt

/-- The window is where `congestion_control_update_circuit_rtt` mixes the minimum. -/
def AtFloor (cc : CongestionControl) : Prop :=
  cc.cwnd = cc.cwndMin ∧ ¬cc.inSlowStart ∧ cc.minRttUsec ≠ 0

/-- The next sample is not too long, and at the floor, unless it is ignored, it does not pull the
average below what the mix can make up for by rounding. -/
def KeepsOrder (env : Env) (cc : CongestionControl) : Prop :=
  rttSample env cc < longestRtt ∧ (sampleIgnored env cc = false → AtFloor cc →
    SharesFit env.rttResetPct cc.minRttUsec
      (average (rttSample env cc) cc.ewmaRttUsec (nEwmaCount env cc)))

theorem rttResetPct_le (env : Env) : env.rttResetPct ≤ 100 := by
  exact_mod_cast (stored_mem 8 env.common .ccRttResetPct 100 0 100 (by norm_num) (by norm_num)
    (by norm_num)).2

variable {env : Env} {cc cc' : CongestionControl} {rtt : ℕ}

theorem updateCircuitRtt_spec (h : congestionControlUpdateCircuitRtt env cc = some (cc', rtt)) :
    (sampleIgnored env cc = true → cc'.ewmaRttUsec = cc.ewmaRttUsec ∧
      cc'.minRttUsec = cc.minRttUsec ∧ cc'.maxRttUsec = cc.maxRttUsec) ∧
    (sampleIgnored env cc = false →
      cc'.ewmaRttUsec = nCountEwma (rttSample env cc) cc.ewmaRttUsec (nEwmaCount env cc) ∧
      cc'.maxRttUsec = max (rttSample env cc) cc.maxRttUsec ∧
      cc'.minRttUsec =
        if cc.minRttUsec = 0 then cc'.ewmaRttUsec
        else if cc.cwnd = cc.cwndMin ∧ ¬cc.inSlowStart then
          percentMaxMix cc'.ewmaRttUsec cc.minRttUsec env.rttResetPct
        else min cc'.ewmaRttUsec cc.minRttUsec) := by
  obtain ⟨timestamps, ⟨hignored, rfl⟩ | ⟨hused, averaged, rfl, rfl⟩⟩ := updateCircuitRtt_cases h
  · exact ⟨fun _ => ⟨rfl, rfl, rfl⟩, fun hused => absurd (hignored.symm.trans hused) (by decide)⟩
  · refine ⟨fun hignored => absurd (hignored.symm.trans hused) (by decide), fun _ => ⟨rfl, rfl, ?_⟩⟩
    dsimp only
    rw [updateMinRtt]
    dsimp only
    split_ifs with hzero hfloor hless
    · rfl
    · rfl
    · exact (min_eq_left hless.le).symm
    · exact (min_eq_right (not_lt.mp hless)).symm

theorem ewma_mem (hm : Measured cc) (hshort : rttSample env cc < longestRtt)
    (hpos : 0 < rttSample env cc) {ewma : ℕ}
    (h : ewma = nCountEwma (rttSample env cc) cc.ewmaRttUsec (nEwmaCount env cc)) :
    0 < ewma ∧ ewma ≤ max (rttSample env cc) cc.maxRttUsec ∧ ewma < longestRtt := by
  obtain ⟨htwo, hcount⟩ := nEwmaCount_mem env cc
  rcases hm.order with ⟨hewma, -⟩ | horder
  · rw [nCountEwma, if_pos hewma] at h
    exact ⟨by omega, h ▸ le_max_left .., by omega⟩
  · have hprev : 0 < cc.ewmaRttUsec := lt_of_lt_of_le horder.pos horder.min_le
    have hlong : cc.ewmaRttUsec < longestRtt := lt_of_le_of_lt horder.le_max hm.short
    rw [nCountEwma_eq hprev.ne' (by omega) hcount hshort hlong] at h
    obtain ⟨hlow, hhigh⟩ := average_mem (rttSample env cc) cc.ewmaRttUsec
      (show 1 ≤ nEwmaCount env cc by omega)
    rw [← h] at hlow hhigh
    exact ⟨lt_of_lt_of_le (lt_min hpos hprev) hlow,
      hhigh.trans (max_le_max le_rfl horder.le_max), lt_of_le_of_lt hhigh (max_lt hshort hlong)⟩

theorem sendme_inOrder (hm : Measured cc) (hpos : 0 < rttSample env cc)
    (hshort : rttSample env cc < longestRtt)
    (h : congestionControlUpdateCircuitRtt env cc = some (cc', rtt)) :
    (InOrder cc' ↔ KeepsOrder env cc) ∧ cc'.maxRttUsec < longestRtt := by
  obtain ⟨hign, hused⟩ := updateCircuitRtt_spec h
  cases hig : sampleIgnored env cc with
  | true =>
    obtain ⟨hewma, hmin, hmax⟩ := hign hig
    -- a positive sample is ignored only where there are estimates
    have hknown : InOrder cc := by
      refine hm.order.resolve_left fun hnone => ?_
      simp [sampleIgnored, timeDeltaStalledOrJumped, timeDeltaShouldUseHeuristics, hpos.ne',
        hnone.1] at hig
    refine ⟨iff_of_true ⟨?_, ?_, ?_⟩ ⟨hshort, fun h => absurd h (by simp [hig])⟩, ?_⟩
    · rw [hmin]
      exact hknown.pos
    · rw [hmin, hewma]
      exact hknown.min_le
    · rw [hewma, hmax]
      exact hknown.le_max
    · rw [hmax]
      exact hm.short
  | false =>
    obtain ⟨hewma, hmax, hmin⟩ := hused hig
    obtain ⟨hewmaPos, hewmaLe, hewmaShort⟩ := ewma_mem hm hshort hpos hewma
    refine ⟨?_, by rw [hmax]; exact max_lt hshort hm.short⟩
    have hle : cc'.ewmaRttUsec ≤ cc'.maxRttUsec := by
      rw [hmax]
      exact hewmaLe
    by_cases hfloor : AtFloor cc
    · -- the mix
      obtain ⟨hcwnd, hslow, hzero⟩ := hfloor
      rw [if_neg hzero, if_pos ⟨hcwnd, hslow⟩] at hmin
      have horder : InOrder cc := hm.order.resolve_left fun hnone => hzero hnone.2.1
      have hprev : 0 < cc.ewmaRttUsec := lt_of_lt_of_le horder.pos horder.min_le
      have hlong : cc.ewmaRttUsec < longestRtt := lt_of_le_of_lt horder.le_max hm.short
      obtain ⟨htwo, hcount⟩ := nEwmaCount_mem env cc
      have havg : cc'.ewmaRttUsec =
          average (rttSample env cc) cc.ewmaRttUsec (nEwmaCount env cc) := by
        rw [hewma, nCountEwma_eq hprev.ne' (by omega) hcount hshort hlong]
      have hmix := percentMaxMix_le_iff (rttResetPct_le env) hewmaShort
        (lt_of_le_of_lt horder.min_le hlong)
      rw [← hmin, havg] at hmix
      rw [KeepsOrder, ← hmix, ← havg]
      constructor
      · exact fun hin => ⟨hshort, fun _ _ => ⟨hin.pos, hin.min_le⟩⟩
      · rintro ⟨-, hkeeps⟩
        obtain ⟨hminPos, hminLe⟩ := hkeeps hig ⟨hcwnd, hslow, hzero⟩
        exact ⟨hminPos, hminLe, hle⟩
    · refine iff_of_true ⟨?_, ?_, hle⟩ ⟨hshort, fun _ h => absurd h hfloor⟩
      all_goals
        rw [hmin]
        split_ifs with hzero hmixed
      · exact hewmaPos
      · exact absurd ⟨hmixed.1, hmixed.2, hzero⟩ hfloor
      · exact lt_min hewmaPos (Nat.pos_of_ne_zero hzero)
      · exact le_rfl
      · exact absurd ⟨hmixed.1, hmixed.2, hzero⟩ hfloor
      · exact min_le_left ..

/-! ### Runs -/

/-- What happens to the estimates of a circuit: a SENDME is measured, or anything else, which leaves
them. -/
inductive EstimateOp
  | sendme (env : Env)
  | other

def estimates : System CongestionControl EstimateOp where
  init cc := ∃ ns params path, cc = congestionControlNew ns params path
  step cc op cc' :=
    match op with
    | .sendme env => ∃ rtt, congestionControlUpdateCircuitRtt env cc = some (cc', rtt)
    | .other => cc'.ewmaRttUsec = cc.ewmaRttUsec ∧ cc'.minRttUsec = cc.minRttUsec ∧
        cc'.maxRttUsec = cc.maxRttUsec

def positive (cc : CongestionControl) : EstimateOp → Prop
  | .sendme env => 0 < rttSample env cc
  | .other => True

def keeping (cc : CongestionControl) : EstimateOp → Prop
  | .sendme env => 0 < rttSample env cc ∧ KeepsOrder env cc
  | .other => True

theorem measured_inductive : Inductive estimates keeping Measured where
  init cc hcc := by
    obtain ⟨ns, params, path, rfl⟩ := hcc
    exact ⟨.inl ⟨rfl, rfl, rfl⟩, Nat.zero_lt_succ _⟩
  step cc op cc' hm hok hstep := by
    cases op with
    | sendme env =>
      obtain ⟨rtt, h⟩ := hstep
      obtain ⟨hpos, hkeeps⟩ := hok
      obtain ⟨horder, hshort⟩ := sendme_inOrder hm hpos hkeeps.1 h
      exact ⟨.inr (horder.mpr hkeeps), hshort⟩
    | other =>
      obtain ⟨hewma, hmin, hmax⟩ := hstep
      refine ⟨?_, hmax ▸ hm.short⟩
      rw [hewma, hmin, hmax]
      exact hm.order.imp id fun h => ⟨by rw [hmin]; exact h.pos, by rw [hmin, hewma]; exact h.min_le,
        by rw [hewma, hmax]; exact h.le_max⟩

theorem bdp_le_cwnd (h : InOrder cc) (env : Env) (curr : ℕ) :
    (congestionControlUpdateCircuitBdp env cc curr).1.bdp ≤ cc.cwnd := by
  have hewma : 0 < cc.ewmaRttUsec := lt_of_lt_of_le h.pos h.min_le
  rw [congestionControlUpdateCircuitBdp, if_neg hewma.ne']
  exact wrap_mul_div_le 64 hewma h.min_le

/-- **The estimates stay in order** in every run whose samples keep it: then after each measurement
the minimum is positive and at most the average, the average at most the maximum, and the
bandwidth-delay product at most the window.  Of the samples below `longestRtt`, one that does not keep
the order breaks it. -/
theorem estimates_inOrder (hr : Reached estimates keeping cc) (hpos : 0 < rttSample env cc)
    (h : congestionControlUpdateCircuitRtt env cc = some (cc', rtt)) :
    (KeepsOrder env cc → InOrder cc' ∧ ∀ env' curr,
      (congestionControlUpdateCircuitBdp env' cc' curr).1.bdp ≤ cc'.cwnd) ∧
    (rttSample env cc < longestRtt → ¬KeepsOrder env cc → ¬InOrder cc') := by
  have hm : Measured cc := hr.invariant measured_inductive
  constructor
  · intro hkeeps
    have horder : InOrder cc' := (sendme_inOrder hm hpos hkeeps.1 h).1.mpr hkeeps
    exact ⟨horder, bdp_le_cwnd horder⟩
  · intro hshort hbreaks horder
    exact hbreaks ((sendme_inOrder hm hpos hshort h).1.mp horder)

/-- The time is `now`, and the consensus says nothing. -/
def envAt (now : ℕ) : Env := ⟨now, false, 0, false, fun _ => none, fun _ => none⟩

/-- A circuit with two timestamps, at its floor and out of slow start. -/
def flooredCc : CongestionControl :=
  let cc := congestionControlNew (fun _ => none) ⟨true, 31⟩ .exit
  { cc with sendmePendingTimestamps := [1000, 2000], cwnd := cc.cwndMin, inSlowStart := false }

theorem reached_flooredCc {ok : CongestionControl → EstimateOp → Prop}
    (hok : ∀ cc, ok cc .other) : Reached estimates ok flooredCc := by
  have hnew : Reached estimates ok (congestionControlNew (fun _ => none) ⟨true, 31⟩ .exit) :=
    .init ⟨_, _, _, rfl⟩
  have hother : estimates.step (congestionControlNew (fun _ => none) ⟨true, 31⟩ .exit) .other
      flooredCc := ⟨rfl, rfl, rfl⟩
  exact hnew.step (hok _) hother

/-- The first sample, of 100 microseconds, is average, minimum and maximum. -/
theorem estimates_inOrder_flooredCc : ∃ cc' rtt,
    congestionControlUpdateCircuitRtt (envAt 1100) flooredCc = some (cc', rtt) ∧ InOrder cc' := by
  have hkeeps : KeepsOrder (envAt 1100) flooredCc :=
    ⟨by decide, fun _ hfloor => absurd rfl hfloor.2.2⟩
  exact ⟨_, _, rfl, ((estimates_inOrder (reached_flooredCc fun _ => trivial) (by decide) rfl).1
    hkeeps).1⟩

def measuredCc : CongestionControl :=
  { flooredCc with
    sendmePendingTimestamps := [2000], ewmaRttUsec := 100, minRttUsec := 100, maxRttUsec := 100 }

/-- A sample of 10 microseconds behind one of 100: the average falls to 40, and the minimum stays. -/
theorem estimates_out_of_order :
    ¬∀ cc, Reached estimates positive cc → ∀ env cc' rtt, 0 < rttSample env cc →
      congestionControlUpdateCircuitRtt env cc = some (cc', rtt) → InOrder cc' := by
  intro hclaim
  have hfirst : estimates.step flooredCc (.sendme (envAt 1100)) measuredCc := ⟨100, by decide⟩
  have hpos : positive flooredCc (.sendme (envAt 1100)) :=
    show 0 < rttSample (envAt 1100) flooredCc by decide
  have hr : Reached estimates positive measuredCc :=
    (reached_flooredCc fun _ => trivial).step hpos hfirst
  obtain ⟨cc', rtt, hsecond, hmin, hewma⟩ : ∃ cc' rtt,
      congestionControlUpdateCircuitRtt (envAt 2010) measuredCc = some (cc', rtt) ∧
        cc'.minRttUsec = 100 ∧ cc'.ewmaRttUsec = 40 := ⟨_, _, rfl, by decide, by decide⟩
  have horder := hclaim measuredCc hr (envAt 2010) cc' rtt (by decide) hsecond
  have := horder.min_le
  omega

end Vegas
