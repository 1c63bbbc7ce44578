/-
The circuit creation defense against a client address (`core/or/dos.c`).

The entry of an address has a bucket of tokens, one for each CREATE cell.  It is refilled by the
seconds since the last time, and a client whose bucket is empty is marked for a period and a random
part of half of it.
-/
import Mathlib
import LibEltor.Transition
import LibEltor.Word

open Transition Word

namespace Dos

/-! ### Parameters -/

def int32Max : ℤ := 2 ^ 31 - 1

/-- `networkstatus_get_param` of a parameter that the consensus has as `param`, or does not have. -/
def networkstatusGetParam (param : Option ℤ) (defaultVal minVal maxVal : ℤ) : ℤ :=
  let res := param.getD defaultVal
  if res < minVal then minVal else if res > maxVal then maxVal else res

/-- A value of the configuration, unless it is zero, and else that of the consensus. -/
def getParam (option : ℤ) (param : Option ℤ) (defaultVal minVal maxVal : ℤ) : ℤ :=
  if option ≠ 0 then option else networkstatusGetParam param defaultVal minVal maxVal

/-- Where the parameters of the defense come from: an option, and a consensus parameter. -/
structure DosSources where
  enabled : ℤ × Option ℤ
  minConnections : ℤ × Option ℤ
  rate : ℤ × Option ℤ
  burst : ℤ × Option ℤ
  defenseTimePeriod : ℤ × Option ℤ
  numCircMaxOutq : Option ℤ

def getParamCcEnabled (src : DosSources) : Bool :=
  if src.enabled.1 ≠ -1 then decide (src.enabled.1 ≠ 0)
  else decide (networkstatusGetParam src.enabled.2 0 0 1 ≠ 0)

def getParamCcMinConcurrentConnection (src : DosSources) : ℤ :=
  getParam src.minConnections.1 src.minConnections.2 3 1 int32Max

def getParamCcCircuitRate (src : DosSources) : ℤ := getParam src.rate.1 src.rate.2 3 1 int32Max

def getParamCcCircuitBurst (src : DosSources) : ℤ := getParam src.burst.1 src.burst.2 90 1 int32Max

def getParamCcDefenseTimePeriod (src : DosSources) : ℤ :=
  getParam src.defenseTimePeriod.1 src.defenseTimePeriod.2 (60 * 60) 0 int32Max

def getParamDosNumCircMaxOutq (src : DosSources) : ℤ :=
  networkstatusGetParam src.numCircMaxOutq 3 0 int32Max

structure CcParams where
  enabled : Bool
  minConcurrentConn : ℤ
  circuitRate : ℤ
  circuitBurst : ℤ
  defenseTimePeriod : ℤ
  numCircMaxOutq : ℤ

def setDosParameters (src : DosSources) : CcParams where
  enabled := getParamCcEnabled src
  minConcurrentConn := getParamCcMinConcurrentConnection src
  circuitRate := getParamCcCircuitRate src
  circuitBurst := getParamCcCircuitBurst src
  defenseTimePeriod := getParamCcDefenseTimePeriod src
  numCircMaxOutq := getParamDosNumCircMaxOutq src

structure DosSources.Admitted (src : DosSources) : Prop where
  enabled : src.enabled.1 = -1 ∨ src.enabled.1 = 0 ∨ src.enabled.1 = 1
  minConnections : 0 ≤ src.minConnections.1 ∧ src.minConnections.1 ≤ int32Max
  rate : 0 ≤ src.rate.1 ∧ src.rate.1 ≤ int32Max
  burst : 0 ≤ src.burst.1 ∧ src.burst.1 ≤ int32Max
  defenseTimePeriod : 0 ≤ src.defenseTimePeriod.1 ∧ src.defenseTimePeriod.1 ≤ int32Max

structure CcParams.InRange (p : CcParams) : Prop where
  minConcurrentConn : 1 ≤ p.minConcurrentConn ∧ p.minConcurrentConn ≤ int32Max
  circuitRate : 1 ≤ p.circuitRate ∧ p.circuitRate ≤ int32Max
  circuitBurst : 1 ≤ p.circuitBurst ∧ p.circuitBurst ≤ int32Max
  defenseTimePeriod : 0 ≤ p.defenseTimePeriod ∧ p.defenseTimePeriod ≤ int32Max
  numCircMaxOutq : 0 ≤ p.numCircMaxOutq ∧ p.numCircMaxOutq ≤ int32Max

theorem networkstatusGetParam_mem (param : Option ℤ) (defaultVal : ℤ) {minVal maxVal : ℤ}
    (h : minVal ≤ maxVal) :
    minVal ≤ networkstatusGetParam param defaultVal minVal maxVal ∧
      networkstatusGetParam param defaultVal minVal maxVal ≤ maxVal := by
  unfold networkstatusGetParam
  simp only
  split_ifs <;> omega

theorem getParam_mem {option : ℤ} (hoption : 0 ≤ option ∧ option ≤ int32Max) (param : Option ℤ)
    (defaultVal : ℤ) {minVal : ℤ} (hmin : minVal ≤ 1) :
    minVal ≤ getParam option param defaultVal minVal int32Max ∧
      getParam option param defaultVal minVal int32Max ≤ int32Max := by
  unfold getParam
  split_ifs with hne
  · omega
  · refine networkstatusGetParam_mem param defaultVal (hmin.trans ?_)
    decide

theorem setDosParameters_inRange {src : DosSources} (h : src.Admitted) :
    (setDosParameters src).InRange where
  minConcurrentConn := getParam_mem h.minConnections _ _ (le_refl 1)
  circuitRate := getParam_mem h.rate _ _ (le_refl 1)
  circuitBurst := getParam_mem h.burst _ _ (le_refl 1)
  defenseTimePeriod := getParam_mem h.defenseTimePeriod _ _ zero_le_one
  numCircMaxOutq := networkstatusGetParam_mem _ _ (by decide)

/-! ### The entry of an address -/

def uint32Max : ℕ := 2 ^ 32 - 1

structure CcClientStats where
  circuitBucket : ℕ
  lastCircBucketRefillTs : ℤ
  markedUntilTs : ℤ

/-- The part of `dos_client_stats_t` that the defense uses; `concurrentCount` is kept by others. -/
structure DosClientStats where
  ccStats : CcClientStats
  numCircMaxCellQueueSize : ℕ

def clientStatsNew : DosClientStats := ⟨⟨0, 0, 0⟩, 0⟩

variable (p : CcParams)

/-- The tokens for the time since the last refill, a `uint64_t`. -/
def numToken (now lastRefillTs : ℤ) : ℕ :=
  if lastRefillTs = 0 then u64 p.circuitBurst
  else if now < lastRefillTs then u64 p.circuitBurst
  else
    let elapsed := u64 ((u64 now : ℤ) - u64 lastRefillTs)
    if elapsed > uint32Max then u64 p.circuitBurst
    else u64 ((elapsed : ℤ) * u64 p.circuitRate)

def ccStatsRefillBucket (now : ℤ) (stats : CcClientStats) : CcClientStats :=
  if now = stats.lastCircBucketRefillTs then stats
  else
    let num := numToken p now stats.lastCircBucketRefillTs
    let count :=
      if num > u32 ((uint32Max : ℤ) - stats.circuitBucket) then u32 p.circuitBurst
      else min (u32 ((stats.circuitBucket : ℤ) + u32 num)) (u32 p.circuitBurst)
    { stats with circuitBucket := count, lastCircBucketRefillTs := now }

def ccHasExhaustedCircuits (concurrentCount : ℕ) (stats : CcClientStats) : Bool :=
  decide (stats.circuitBucket = 0 ∧ concurrentCount ≥ u32 p.minConcurrentConn)

/-- `min + crypto_rand_int(max - min)`; none where an assertion fails. -/
def cryptoRandIntRange (random min max : ℕ) : Option ℕ :=
  if min < max ∧ max ≤ 2 ^ 31 - 1 then some (min + random % (max - min)) else none

def ccMarkClient (now : ℤ) (random : ℕ) (stats : CcClientStats) : Option CcClientStats :=
  (cryptoRandIntRange random 1 (u32 (p.defenseTimePeriod.tdiv 2))).map fun offset =>
    { stats with markedUntilTs := now + p.defenseTimePeriod + offset }

def dosCcNewCreateCell (now : ℤ) (concurrentCount random : ℕ) (stats : DosClientStats) :
    Option DosClientStats :=
  if p.enabled = false then some stats
  else
    let cc := ccStatsRefillBucket p now stats.ccStats
    let cc := if cc.circuitBucket > 0 then { cc with circuitBucket := cc.circuitBucket - 1 } else cc
    if ccHasExhaustedCircuits p concurrentCount cc then
      (ccMarkClient p now random cc).map fun cc => { stats with ccStats := cc }
    else some { stats with ccStats := cc }

def dosNoteCircMaxOutq (now : ℤ) (random : ℕ) (stats : DosClientStats) : Option DosClientStats :=
  if p.enabled = false then some stats
  else if stats.ccStats.markedUntilTs ≥ now then some stats
  else if u32 p.numCircMaxOutq = 0 then some stats
  else
    let num := u32 (stats.numCircMaxCellQueueSize + 1)
    if num ≥ u32 p.numCircMaxOutq then
      (ccMarkClient p now random stats.ccStats).map fun cc => ⟨cc, 0⟩
    else some { stats with numCircMaxCellQueueSize := num }

/-! ### The refill -/

def IsTime (t : ℤ) : Prop := -2 ^ 63 ≤ t ∧ t < 2 ^ 63

variable {p}

def refilled (p : CcParams) (now : ℤ) (stats : CcClientStats) : ℤ :=
  let last := stats.lastCircBucketRefillTs
  if now = last then stats.circuitBucket
  -- never filled, or the clock jumped
  else if last = 0 ∨ now < last ∨ now - last > uint32Max then p.circuitBurst
  else min (stats.circuitBucket + (now - last) * p.circuitRate) p.circuitBurst

theorem wrap_of_le_int32Max {w : ℕ} (hw : 31 ≤ w) {x : ℤ} (h0 : 0 ≤ x) (hx : x ≤ int32Max) :
    (wrap w x : ℤ) = x := by
  have hpow : (2 : ℤ) ^ 31 ≤ 2 ^ w := pow_le_pow_right₀ one_le_two hw
  exact wrap_of_mem h0 ((hx.trans_lt (sub_one_lt _)).trans_le hpow)

theorem u32_burst (hp : p.InRange) : (u32 p.circuitBurst : ℤ) = p.circuitBurst :=
  wrap_of_le_int32Max (by decide) (zero_le_one.trans hp.circuitBurst.1) hp.circuitBurst.2

theorem u64_burst (hp : p.InRange) : (u64 p.circuitBurst : ℤ) = p.circuitBurst :=
  wrap_of_le_int32Max (by decide) (zero_le_one.trans hp.circuitBurst.1) hp.circuitBurst.2

theorem u64_rate (hp : p.InRange) : (u64 p.circuitRate : ℤ) = p.circuitRate :=
  wrap_of_le_int32Max (by decide) (zero_le_one.trans hp.circuitRate.1) hp.circuitRate.2

theorem u64_elapsed {now last : ℤ} (hnow : IsTime now) (hlast : IsTime last) (hle : last ≤ now) :
    (u64 ((u64 now : ℤ) - u64 last) : ℤ) = now - last := by
  unfold IsTime at hnow hlast
  unfold u64 wrap
  rw [Int.toNat_of_nonneg (by omega), Int.toNat_of_nonneg (by omega),
    Int.toNat_of_nonneg (by omega)]
  omega

theorem numToken_exact (hp : p.InRange) {now last : ℤ} (hnow : IsTime now) (hlast : IsTime last) :
    (numToken p now last : ℤ) =
      if last = 0 ∨ now < last ∨ now - last > uint32Max then p.circuitBurst
      else (now - last) * p.circuitRate := by
  have hburst := u64_burst hp
  unfold numToken
  by_cases hzero : last = 0
  · rw [if_pos hzero, if_pos (.inl hzero), hburst]
  by_cases hback : now < last
  · rw [if_neg hzero, if_pos hback, if_pos (.inr (.inl hback)), hburst]
  have helapsed := u64_elapsed hnow hlast (by omega)
  rw [if_neg hzero, if_neg hback]
  simp only
  by_cases hforward : now - last > uint32Max
  · rw [if_pos (by omega), if_pos (.inr (.inr hforward)), hburst]
  · rw [if_neg (by omega), if_neg (by tauto), helapsed]
    have hrate := hp.circuitRate
    unfold int32Max at hrate
    -- both factors are below `2 ^ 32`
    have hnn : 0 ≤ (now - last) * p.circuitRate := Int.mul_nonneg (by omega) (by omega)
    have hlt : (now - last) * p.circuitRate ≤ (uint32Max : ℤ) * (2 ^ 31 - 1) :=
      Int.mul_le_mul (by omega) (by omega) (by omega) (by omega)
    rw [u64_rate hp]
    refine wrap_of_mem hnn (hlt.trans_lt ?_)
    norm_num [uint32Max]

theorem ccStatsRefillBucket_exact (hp : p.InRange) {now : ℤ} (hnow : IsTime now)
    {stats : CcClientStats} (hlast : IsTime stats.lastCircBucketRefillTs)
    (hbucket : stats.circuitBucket ≤ uint32Max) :
    ((ccStatsRefillBucket p now stats).circuitBucket : ℤ) = refilled p now stats := by
  unfold ccStatsRefillBucket refilled
  simp only
  by_cases hsame : now = stats.lastCircBucketRefillTs
  · rw [if_pos hsame, if_pos hsame]
  have hnum := numToken_exact hp hnow hlast
  have hburst := u32_burst hp
  have hrange := hp.circuitBurst
  rw [if_neg hsame, if_neg hsame]
  have hroom : (u32 ((uint32Max : ℤ) - stats.circuitBucket) : ℤ) =
      uint32Max - stats.circuitBucket :=
    wrap_of_mem (by omega) (by unfold uint32Max; omega)
  -- the bucket and the tokens, but not above the burst
  have hcount : ((if numToken p now stats.lastCircBucketRefillTs >
        u32 ((uint32Max : ℤ) - stats.circuitBucket) then u32 p.circuitBurst
      else min (u32 ((stats.circuitBucket : ℤ) + u32 (numToken p now stats.lastCircBucketRefillTs)))
        (u32 p.circuitBurst) : ℕ) : ℤ) =
      min (stats.circuitBucket + (numToken p now stats.lastCircBucketRefillTs : ℤ))
        p.circuitBurst := by
    unfold int32Max uint32Max at *
    split_ifs with hover
    · rw [hburst]
      omega
    · have htoken : (u32 (numToken p now stats.lastCircBucketRefillTs) : ℤ) =
          numToken p now stats.lastCircBucketRefillTs :=
        wrap_of_mem (by omega) (by omega)
      have hsum : (u32 ((stats.circuitBucket : ℤ) +
          u32 (numToken p now stats.lastCircBucketRefillTs)) : ℤ) =
          stats.circuitBucket + numToken p now stats.lastCircBucketRefillTs := by
        rw [htoken]
        exact wrap_of_mem (by omega) (by omega)
      push_cast
      rw [hsum, hburst]
  rw [hcount, hnum]
  split_ifs with hfull
  · omega
  · rfl

theorem refilled_le (now : ℤ) {stats : CcClientStats}
    (hbucket : (stats.circuitBucket : ℤ) ≤ p.circuitBurst) :
    refilled p now stats ≤ p.circuitBurst := by
  unfold refilled
  simp only
  split_ifs
  · exact hbucket
  · exact le_refl _
  · exact min_le_right _ _

theorem ccMarkClient_isSome_iff (hp : p.InRange) (now : ℤ) (random : ℕ) (stats : CcClientStats) :
    (ccMarkClient p now random stats).isSome = true ↔ 4 ≤ p.defenseTimePeriod := by
  obtain ⟨hpos, hmax⟩ := hp.defenseTimePeriod
  have hhalf : (u32 (p.defenseTimePeriod.tdiv 2) : ℤ) = p.defenseTimePeriod / 2 := by
    rw [Int.tdiv_eq_ediv_of_nonneg hpos]
    exact wrap_of_le_int32Max (by decide) (by omega) (by omega)
  unfold int32Max at hmax
  rw [ccMarkClient, Option.isSome_map, cryptoRandIntRange]
  split_ifs with h
  · exact iff_of_true rfl (by omega)
  · exact iff_of_false (by simp) (by omega)

theorem ccMarkClient_bucket {now : ℤ} {random : ℕ} {stats stats' : CcClientStats}
    (h : ccMarkClient p now random stats = some stats') :
    stats'.circuitBucket = stats.circuitBucket ∧
      stats'.lastCircBucketRefillTs = stats.lastCircBucketRefillTs := by
  obtain ⟨offset, -, rfl⟩ := Option.map_eq_some_iff.mp h
  exact ⟨rfl, rfl⟩

/-! ### Runs -/

inductive CcAction
  | createCell (now : ℤ) (concurrentCount random : ℕ)
  | circMaxOutq (now : ℤ) (random : ℕ)

/-- The clock is anywhere, the count of connections is a `uint32_t`. -/
def CcAction.Valid : CcAction → Prop
  | .createCell now concurrentCount _ => IsTime now ∧ concurrentCount ≤ uint32Max
  | .circMaxOutq now _ => IsTime now

def ccStep (p : CcParams) : CcAction → DosClientStats → Option DosClientStats
  | .createCell now concurrentCount random => dosCcNewCreateCell p now concurrentCount random
  | .circMaxOutq now random => dosNoteCircMaxOutq p now random

def ccSystem (p : CcParams) : System DosClientStats CcAction where
  init := fun stats => stats = clientStatsNew
  step := fun stats a stats' => ccStep p a stats = some stats'

def CcReached (p : CcParams) (stats : DosClientStats) : Prop :=
  Reached (ccSystem p) (fun _ a => a.Valid) stats

structure CcInv (p : CcParams) (cc : CcClientStats) : Prop where
  bucket : (cc.circuitBucket : ℤ) ≤ p.circuitBurst
  last : IsTime cc.lastCircBucketRefillTs

theorem CcInv.bucket_le_uint32Max (hp : p.InRange) {cc : CcClientStats} (h : CcInv p cc) :
    cc.circuitBucket ≤ uint32Max := by
  have hbucket := h.bucket
  have hburst := hp.circuitBurst
  unfold int32Max at hburst
  unfold uint32Max
  omega

theorem CcInv.refill (hp : p.InRange) {cc : CcClientStats} (h : CcInv p cc) {now : ℤ}
    (hnow : IsTime now) : CcInv p (ccStatsRefillBucket p now cc) where
  bucket := by
    rw [ccStatsRefillBucket_exact hp hnow h.last (h.bucket_le_uint32Max hp)]
    exact refilled_le now h.bucket
  last := by
    unfold ccStatsRefillBucket
    split_ifs
    · exact h.last
    · exact hnow

theorem CcInv.mark {now : ℤ} {random : ℕ} {cc cc' : CcClientStats} (h : CcInv p cc)
    (hmark : ccMarkClient p now random cc = some cc') : CcInv p cc' := by
  obtain ⟨hbucket, hlast⟩ := ccMarkClient_bucket hmark
  exact ⟨hbucket ▸ h.bucket, hlast ▸ h.last⟩

def takeToken (cc : CcClientStats) : CcClientStats :=
  if cc.circuitBucket > 0 then { cc with circuitBucket := cc.circuitBucket - 1 } else cc

theorem CcInv.take {cc : CcClientStats} (h : CcInv p cc) : CcInv p (takeToken cc) := by
  have hbucket := h.bucket
  rw [takeToken]
  split_ifs
  · exact ⟨by simp only; omega, h.last⟩
  · exact h

theorem dosCcNewCreateCell_eq (hon : p.enabled ≠ false) (now : ℤ) (concurrentCount random : ℕ)
    (stats : DosClientStats) :
    dosCcNewCreateCell p now concurrentCount random stats =
      let cc := takeToken (ccStatsRefillBucket p now stats.ccStats)
      if ccHasExhaustedCircuits p concurrentCount cc then
        (ccMarkClient p now random cc).map fun cc => { stats with ccStats := cc }
      else some { stats with ccStats := cc } := by
  rw [dosCcNewCreateCell, if_neg hon]
  rfl

theorem CcInv.createCell (hp : p.InRange) {now : ℤ} (hnow : IsTime now) {concurrentCount random : ℕ}
    {stats stats' : DosClientStats} (h : CcInv p stats.ccStats)
    (hstep : dosCcNewCreateCell p now concurrentCount random stats = some stats') :
    CcInv p stats'.ccStats := by
  have htake := (h.refill hp hnow).take
  by_cases hoff : p.enabled = false
  · rw [dosCcNewCreateCell, if_pos hoff] at hstep
    obtain rfl := Option.some.inj hstep
    exact h
  · rw [dosCcNewCreateCell_eq hoff] at hstep
    generalize takeToken (ccStatsRefillBucket p now stats.ccStats) = cc at htake hstep
    simp only at hstep
    by_cases hexhausted : ccHasExhaustedCircuits p concurrentCount cc = true
    · rw [if_pos hexhausted] at hstep
      obtain ⟨cc', hmark, rfl⟩ := Option.map_eq_some_iff.mp hstep
      exact htake.mark hmark
    · rw [if_neg hexhausted] at hstep
      obtain rfl := Option.some.inj hstep
      exact htake

theorem CcInv.circMaxOutq {now : ℤ} {random : ℕ} {stats stats' : DosClientStats}
    (h : CcInv p stats.ccStats) (hstep : dosNoteCircMaxOutq p now random stats = some stats') :
    CcInv p stats'.ccStats := by
  unfold dosNoteCircMaxOutq at hstep
  simp only at hstep
  split_ifs at hstep
  · obtain rfl := Option.some.inj hstep
    exact h
  · obtain rfl := Option.some.inj hstep
    exact h
  · obtain rfl := Option.some.inj hstep
    exact h
  · obtain ⟨cc, hmark, rfl⟩ := Option.map_eq_some_iff.mp hstep
    exact h.mark hmark
  · obtain rfl := Option.some.inj hstep
    exact h

theorem ccReached_inv (hp : p.InRange) {stats : DosClientStats} (hr : CcReached p stats) :
    CcInv p stats.ccStats := by
  have hburst := hp.circuitBurst
  refine hr.invariant (P := fun stats => CcInv p stats.ccStats) ⟨?_, ?_⟩
  · rintro stats rfl
    exact ⟨by simp only [clientStatsNew]; omega, by unfold clientStatsNew IsTime; norm_num⟩
  · intro stats a stats' h hvalid hstep
    cases a with
    | createCell now concurrentCount random => exact h.createCell hp hvalid.1 hstep
    | circMaxOutq now random => exact h.circMaxOutq hstep

theorem bucket_le_burst (hp : p.InRange) {stats : DosClientStats} (hr : CcReached p stats) :
    (stats.ccStats.circuitBucket : ℤ) ≤ p.circuitBurst ∧ ∀ now, IsTime now →
      ((ccStatsRefillBucket p now stats.ccStats).circuitBucket : ℤ) =
        refilled p now stats.ccStats := by
  have hinv := ccReached_inv hp hr
  exact ⟨hinv.bucket, fun now hnow =>
    ccStatsRefillBucket_exact hp hnow hinv.last (hinv.bucket_le_uint32Max hp)⟩

theorem dosCcNewCreateCell_isSome {now : ℤ} {concurrentCount random : ℕ} {stats : DosClientStats}
    (hmark : p.enabled = false ∨ ∀ cc, (ccMarkClient p now random cc).isSome = true) :
    (dosCcNewCreateCell p now concurrentCount random stats).isSome = true := by
  by_cases hoff : p.enabled = false
  · rw [dosCcNewCreateCell, if_pos hoff]
    rfl
  · rw [dosCcNewCreateCell_eq hoff]
    simp only
    split_ifs
    · rw [Option.isSome_map]
      exact hmark.resolve_left hoff _
    · rfl

theorem dosNoteCircMaxOutq_isSome {now : ℤ} {random : ℕ} {stats : DosClientStats}
    (hmark : p.enabled = false ∨ ∀ cc, (ccMarkClient p now random cc).isSome = true) :
    (dosNoteCircMaxOutq p now random stats).isSome = true := by
  simp only [dosNoteCircMaxOutq]
  split_ifs with hoff
  · rfl
  · rfl
  · rfl
  · rw [Option.isSome_map]
    exact hmark.resolve_left hoff _
  · rfl

theorem first_cell_marks (hon : p.enabled = true) :
    dosCcNewCreateCell p 0 (u32 p.minConcurrentConn) 0 clientStatsNew =
      (ccMarkClient p 0 0 ⟨0, 0, 0⟩).map fun cc => { clientStatsNew with ccStats := cc } := by
  have hon' : p.enabled ≠ false := by simp [hon]
  rw [dosCcNewCreateCell_eq hon']
  simp [clientStatsNew, ccStatsRefillBucket, takeToken, ccHasExhaustedCircuits]

theorem steps_iff (hp : p.InRange) :
    (∀ stats, CcReached p stats → ∀ a : CcAction, a.Valid → (ccStep p a stats).isSome = true) ↔
      p.enabled = false ∨ 4 ≤ p.defenseTimePeriod := by
  constructor
  · intro hall
    by_contra hnot
    push Not at hnot
    have hon : p.enabled = true := by simpa using hnot.1
    have hvalid : (CcAction.createCell 0 (u32 p.minConcurrentConn) 0).Valid := by
      refine ⟨by unfold IsTime; norm_num, ?_⟩
      have hlt : u32 p.minConcurrentConn < 2 ^ 32 := wrap_lt 32 p.minConcurrentConn
      unfold uint32Max
      omega
    have hstep := hall clientStatsNew (.init rfl) _ hvalid
    rw [ccStep, first_cell_marks hon, Option.isSome_map, ccMarkClient_isSome_iff hp] at hstep
    omega
  · intro h stats _ a _
    have hmark : p.enabled = false ∨
        ∀ now random cc, (ccMarkClient p now random cc).isSome = true :=
      h.imp_right fun hperiod now random cc => (ccMarkClient_isSome_iff hp now random cc).mpr hperiod
    cases a with
    | createCell now concurrentCount random =>
      exact dosCcNewCreateCell_isSome (hmark.imp_right fun h => h now random)
    | circMaxOutq now random =>
      exact dosNoteCircMaxOutq_isSome (hmark.imp_right fun h => h now random)

structure CcSafe (p : CcParams) (stats : DosClientStats) : Prop where
  bucket : (stats.ccStats.circuitBucket : ℤ) ≤ p.circuitBurst
  refill : ∀ now, IsTime now →
    ((ccStatsRefillBucket p now stats.ccStats).circuitBucket : ℤ) = refilled p now stats.ccStats
  steps : ∀ a : CcAction, a.Valid → (ccStep p a stats).isSome = true

/-- For all values of the options and of the consensus: every run is safe just where the defense is
off or its period is 4 or more. -/
theorem marking_iff {src : DosSources} (hsrc : src.Admitted) :
    (∀ stats, CcReached (setDosParameters src) stats → CcSafe (setDosParameters src) stats) ↔
      getParamCcEnabled src = false ∨ 4 ≤ getParamCcDefenseTimePeriod src := by
  have hp := setDosParameters_inRange hsrc
  refine Iff.trans ?_ (steps_iff hp)
  constructor
  · exact fun h stats hr => (h stats hr).steps
  · intro h stats hr
    obtain ⟨hbucket, hrefill⟩ := bucket_le_burst hp hr
    exact ⟨hbucket, hrefill, h stats hr⟩

/-- The defense is turned on by the consensus, and all else is as it is by default. -/
theorem default_period_safe :
    CcSafe (setDosParameters ⟨(-1, some 1), (0, none), (0, none), (0, none), (0, none), none⟩)
      clientStatsNew :=
  (marking_iff ⟨.inl rfl, by decide, by decide, by decide, by decide⟩).mpr (.inr (by decide)) _
    (.init rfl)

/-- A period of two seconds and a burst of one circuit: the first cell of a client that has three
connections fails an assertion. -/
theorem short_period_fails :
    ¬ ∀ src : DosSources, src.Admitted → ∀ stats, CcReached (setDosParameters src) stats →
      CcSafe (setDosParameters src) stats := by
  intro hall
  have hsafe := hall ⟨(1, none), (0, none), (0, none), (0, some 1), (0, some 2), none⟩
    ⟨.inr (.inr rfl), by decide, by decide, by decide, by decide⟩ clientStatsNew (.init rfl)
  have hvalid : (CcAction.createCell 1000 3 0).Valid := ⟨by unfold IsTime; norm_num, by decide⟩
  exact absurd (hsafe.steps _ hvalid) (by decide)

end Dos
