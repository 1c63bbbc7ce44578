/-
Token buckets (`lib/evloop/token_bucket.c`).

The level of a bucket is a 32-bit integer that may be negative.  A refill forms the gap below the burst
in `size_t`, and adds a 32-bit product where that does not overfill the bucket.
-/
import LibEltor.Transition
import LibEltor.Word

open Transition Word

namespace TokenBucket

def int32Max : ℤ := 2 ^ 31 - 1

def int32Min : ℤ := -2 ^ 31

def uint32Max : ℕ := 2 ^ 32 - 1

/-- A value as an `int32_t`. -/
def i32 (x : ℤ) : ℤ := x.bmod (2 ^ 32)

def tokenBucketMaxBurst : ℤ := int32Max

structure TokenBucketCfg where
  rate : ℕ
  burst : ℤ

def tokenBucketCfgInit (rate burst : ℕ) : TokenBucketCfg where
  rate := rate
  burst := if (burst : ℤ) > tokenBucketMaxBurst then tokenBucketMaxBurst else burst

/-- The level after a refill, and whether the bucket is no longer empty. -/
def tokenBucketRawRefillSteps (bucket : ℤ) (cfg : TokenBucketCfg) (elapsed : ℕ) : ℤ × Bool :=
  let wasEmpty := decide (bucket ≤ 0)
  let gap := u64 ((u64 cfg.burst : ℤ) - u64 bucket)
  let bucket :=
    if elapsed > gap / cfg.rate then cfg.burst
    else i32 (u32 bucket + u32 (cfg.rate * elapsed : ℕ))
  (bucket, wasEmpty && decide (bucket > 0))

/-- The level after a decrement, and whether the bucket has become empty. -/
def tokenBucketRawDec (bucket n : ℤ) : ℤ × Bool :=
  if n < 0 then (bucket, false)
  else (i32 (bucket - n), decide (bucket > 0 ∧ n ≥ bucket))

def tokenBucketRawAdjust (bucket : ℤ) (cfg : TokenBucketCfg) : ℤ := min bucket cfg.burst

def tokenBucketRawGet (bucket : ℤ) : ℤ := if bucket ≥ 0 then bucket else 0

structure TokenBucketCtr where
  cfg : TokenBucketCfg
  counter : ℤ
  lastRefilledAtTimestamp : ℕ

def tokenBucketCtrAdjust (bucket : TokenBucketCtr) (rate burst : ℕ) : TokenBucketCtr :=
  let cfg := tokenBucketCfgInit rate burst
  { bucket with cfg := cfg, counter := tokenBucketRawAdjust bucket.counter cfg }

def tokenBucketCtrReset (bucket : TokenBucketCtr) (nowTsSec : ℕ) : TokenBucketCtr :=
  { bucket with counter := bucket.cfg.burst, lastRefilledAtTimestamp := nowTsSec }

def tokenBucketCtrInit (rate burst nowTsSec : ℕ) : TokenBucketCtr :=
  tokenBucketCtrReset (tokenBucketCtrAdjust ⟨⟨0, 0⟩, 0, 0⟩ rate burst) nowTsSec

/-- The seconds for which a refill adds tokens: none after a very large jump. -/
def elapsedSec (lastRefilledAtTimestamp nowTsSec : ℕ) : ℕ :=
  let elapsed := u32 ((nowTsSec : ℤ) - lastRefilledAtTimestamp)
  if elapsed ≤ uint32Max / 4 then elapsed else 0

def tokenBucketCtrRefill (bucket : TokenBucketCtr) (nowTsSec : ℕ) : TokenBucketCtr :=
  let elapsed := u32 ((nowTsSec : ℤ) - bucket.lastRefilledAtTimestamp)
  let counter :=
    if elapsed ≤ uint32Max / 4 then
      (tokenBucketRawRefillSteps bucket.counter bucket.cfg elapsed).1
    else bucket.counter
  { bucket with counter := counter, lastRefilledAtTimestamp := nowTsSec }

def tokenBucketCtrDec (bucket : TokenBucketCtr) (n : ℤ) : TokenBucketCtr :=
  { bucket with counter := (tokenBucketRawDec bucket.counter n).1 }

def tokenBucketCtrGet (bucket : TokenBucketCtr) : ℤ := tokenBucketRawGet bucket.counter

structure TokenBucketCfg.Valid (cfg : TokenBucketCfg) : Prop where
  rate : 1 ≤ cfg.rate ∧ cfg.rate ≤ uint32Max
  burst : 0 ≤ cfg.burst ∧ cfg.burst ≤ int32Max

variable {cfg : TokenBucketCfg}

theorem valid_cfgInit {rate : ℕ} (hrate : 1 ≤ rate ∧ rate ≤ uint32Max) (burst : ℕ) :
    (tokenBucketCfgInit rate burst).Valid where
  rate := hrate
  burst := by
    simp only [tokenBucketCfgInit]
    split_ifs with hbig
    · exact ⟨by decide, le_refl _⟩
    · exact ⟨Int.natCast_nonneg burst, not_lt.mp hbig⟩

theorem i32_of_mem {x : ℤ} (h0 : int32Min ≤ x) (h1 : x ≤ int32Max) : i32 x = x := by
  unfold int32Min at h0
  unfold int32Max at h1
  rw [i32]
  exact Int.bmod_eq_of_le (by omega) (by omega)

theorem i32_wrap_add (x y : ℤ) : i32 (u32 x + u32 y) = i32 (x + y) := by
  have hx : (u32 x : ℤ) = x % 2 ^ 32 := Int.toNat_of_nonneg (Int.emod_nonneg x (by decide))
  have hy : (u32 y : ℤ) = y % 2 ^ 32 := Int.toNat_of_nonneg (Int.emod_nonneg y (by decide))
  rw [hx, hy, i32, i32, Int.bmod_def, Int.bmod_def]
  omega

theorem gap_eq (hcfg : cfg.Valid) {bucket : ℤ} (hlow : int32Min ≤ bucket) (hhigh : bucket ≤ cfg.burst) :
    (u64 ((u64 cfg.burst : ℤ) - u64 bucket) : ℤ) = cfg.burst - bucket := by
  obtain ⟨hpos, hmax⟩ := hcfg.burst
  unfold int32Min at hlow
  unfold int32Max at hmax
  have hburst : (u64 cfg.burst : ℤ) = cfg.burst := wrap_of_mem hpos (by omega)
  have hbucket : (u64 bucket : ℤ) = bucket % 2 ^ 64 :=
    Int.toNat_of_nonneg (Int.emod_nonneg bucket (by decide))
  rw [hburst, hbucket]
  have hmod : (cfg.burst - bucket % 2 ^ 64) % 2 ^ 64 = cfg.burst - bucket := by omega
  unfold u64 wrap
  rw [hmod]
  exact Int.toNat_of_nonneg (by omega)

theorem tokenBucketRawRefillSteps_spec (hcfg : cfg.Valid) {bucket : ℤ} (hlow : int32Min ≤ bucket)
    (hhigh : bucket ≤ cfg.burst) (elapsed : ℕ) :
    (tokenBucketRawRefillSteps bucket cfg elapsed).1 = min cfg.burst (bucket + cfg.rate * elapsed) ∧
      ((tokenBucketRawRefillSteps bucket cfg elapsed).2 = true ↔
        bucket ≤ 0 ∧ 0 < (tokenBucketRawRefillSteps bucket cfg elapsed).1) := by
  refine ⟨?_, by simp [tokenBucketRawRefillSteps]⟩
  have hgap := gap_eq hcfg hlow hhigh
  simp only [tokenBucketRawRefillSteps]
  generalize u64 ((u64 cfg.burst : ℤ) - u64 bucket) = gap at hgap ⊢
  by_cases hfull : elapsed > gap / cfg.rate
  · -- one more step than fits
    have hover : gap < elapsed * cfg.rate := (Nat.div_lt_iff_lt_mul hcfg.rate.1).mp hfull
    have hover' : (gap : ℤ) < cfg.rate * elapsed := by
      rw [mul_comm]
      exact_mod_cast hover
    rw [if_pos hfull, min_eq_left]
    omega
  · have hfits : elapsed * cfg.rate ≤ gap := (Nat.le_div_iff_mul_le hcfg.rate.1).mp (not_lt.mp hfull)
    have hfits' : (cfg.rate * elapsed : ℤ) ≤ gap := by
      rw [mul_comm]
      exact_mod_cast hfits
    have hnn : (0 : ℤ) ≤ cfg.rate * elapsed := by positivity
    rw [if_neg hfull, i32_wrap_add, min_eq_right (by omega)]
    push_cast
    exact i32_of_mem (by omega) (by have := hcfg.burst.2; omega)

/-! ### Runs of a counter -/

/-- A counter, the tokens that were taken from it while it had them, and the seconds since it was
made. -/
structure CtrRun where
  bucket : TokenBucketCtr
  granted : ℤ
  elapsed : ℕ

inductive CtrAction
  | refill (nowTsSec : ℕ)
  | dec (n : ℤ)

def grantedBy (bucket : TokenBucketCtr) (n : ℤ) : ℤ := if n < 0 then 0 else min n (tokenBucketCtrGet bucket)

def ctrStep (s : CtrRun) : CtrAction → CtrRun
  | .refill nowTsSec =>
    { s with
      bucket := tokenBucketCtrRefill s.bucket nowTsSec
      elapsed := s.elapsed + elapsedSec s.bucket.lastRefilledAtTimestamp nowTsSec }
  | .dec n =>
    { s with
      bucket := tokenBucketCtrDec s.bucket n
      granted := s.granted + grantedBy s.bucket n }

def ctrSystem (rate burst : ℕ) : System CtrRun CtrAction where
  init := fun s => ∃ nowTsSec, s = ⟨tokenBucketCtrInit rate burst nowTsSec, 0, 0⟩
  step := fun s a s' => s' = ctrStep s a

def LevelFits (s : CtrRun) : CtrAction → Prop
  | .refill _ => True
  | .dec n => 0 ≤ n → int32Min ≤ s.bucket.counter - n

/-- What has been granted and what can be, against the burst and the time. -/
structure CtrInv (cfg : TokenBucketCfg) (s : CtrRun) : Prop where
  cfg_eq : s.bucket.cfg = cfg
  low : int32Min ≤ s.bucket.counter
  high : s.bucket.counter ≤ cfg.burst
  granted : s.granted + max s.bucket.counter 0 ≤ cfg.burst + cfg.rate * s.elapsed

theorem CtrInv.refill {s : CtrRun} (hcfg : cfg.Valid) (h : CtrInv cfg s) (nowTsSec : ℕ) :
    CtrInv cfg (ctrStep s (.refill nowTsSec)) := by
  obtain ⟨hcfgeq, hlow, hhigh, hgranted⟩ := h
  simp only [ctrStep, tokenBucketCtrRefill, elapsedSec, hcfgeq]
  generalize u32 ((nowTsSec : ℤ) - s.bucket.lastRefilledAtTimestamp) = elapsed
  by_cases hsmall : elapsed ≤ uint32Max / 4
  · obtain ⟨hlevel, -⟩ := tokenBucketRawRefillSteps_spec hcfg hlow hhigh elapsed
    have hnn : (0 : ℤ) ≤ cfg.rate * elapsed := by positivity
    rw [if_pos hsmall, if_pos hsmall, hlevel]
    refine ⟨rfl, ?_, min_le_left _ _, ?_⟩
    · simp only
      omega
    · simp only
      push_cast
      rw [mul_add]
      omega
  · rw [if_neg hsmall, if_neg hsmall]
    exact ⟨rfl, hlow, hhigh, hgranted⟩

theorem CtrInv.dec {s : CtrRun} (hcfg : cfg.Valid) (h : CtrInv cfg s) {n : ℤ}
    (hfits : LevelFits s (.dec n)) : CtrInv cfg (ctrStep s (.dec n)) := by
  obtain ⟨hcfgeq, hlow, hhigh, hgranted⟩ := h
  have hburst := hcfg.burst
  simp only [ctrStep, tokenBucketCtrDec, tokenBucketRawDec, grantedBy, tokenBucketCtrGet,
    tokenBucketRawGet]
  by_cases hneg : n < 0
  · rw [if_pos hneg, if_pos hneg]
    exact ⟨hcfgeq, hlow, hhigh, by simpa using hgranted⟩
  · have hlevel : i32 (s.bucket.counter - n) = s.bucket.counter - n :=
      i32_of_mem (hfits (not_lt.mp hneg)) (by omega)
    rw [if_neg hneg, if_neg hneg, hlevel]
    refine ⟨hcfgeq, hfits (not_lt.mp hneg), by simp only; omega, ?_⟩
    simp only
    split_ifs <;> omega

theorem ctrInv_init (hcfg : cfg.Valid) (nowTsSec : ℕ) :
    CtrInv cfg ⟨tokenBucketCtrReset ⟨cfg, tokenBucketRawAdjust 0 cfg, 0⟩ nowTsSec, 0, 0⟩ := by
  obtain ⟨hpos, hmax⟩ := hcfg.burst
  refine ⟨rfl, ?_, le_refl _, ?_⟩
  · exact le_trans (by decide) hpos
  · simp only [tokenBucketCtrReset]
    omega

theorem ctrInv_reached {rate burst : ℕ} (hrate : 1 ≤ rate ∧ rate ≤ uint32Max) {s : CtrRun}
    (hr : Reached (ctrSystem rate burst) LevelFits s) :
    CtrInv (tokenBucketCfgInit rate burst) s := by
  have hcfg := valid_cfgInit hrate burst
  refine hr.invariant ⟨?_, ?_⟩
  · rintro s ⟨nowTsSec, rfl⟩
    exact ctrInv_init hcfg nowTsSec
  · rintro s a s' h hfits rfl
    cases a with
    | refill nowTsSec => exact h.refill hcfg nowTsSec
    | dec n => exact h.dec hcfg hfits

theorem elapsedSec_le {before now : ℕ} (h : before ≤ now) :
    elapsedSec (u32 before) (u32 now) ≤ now - before := by
  have hbefore : (u32 before : ℤ) = before % 2 ^ 32 :=
    Int.toNat_of_nonneg (Int.emod_nonneg _ (by decide))
  have hnow : (u32 now : ℤ) = now % 2 ^ 32 := Int.toNat_of_nonneg (Int.emod_nonneg _ (by decide))
  have hstamps : u32 ((u32 now : ℤ) - u32 before) ≤ now - before := by
    have hwrap : (u32 ((u32 now : ℤ) - u32 before) : ℤ) = ((now : ℤ) - before) % 2 ^ 32 := by
      rw [hnow, hbefore]
      refine (Int.toNat_of_nonneg (Int.emod_nonneg _ (by decide))).trans ?_
      omega
    omega
  simp only [elapsedSec]
  split_ifs
  · exact hstamps
  · exact Nat.zero_le _

/-- For every rate and burst: a refill is exact at every level, and a counter grants at most its burst
and its rate for each second, of which no more are counted than a clock has passed. -/
theorem granted_le {rate : ℕ} (hrate : 1 ≤ rate ∧ rate ≤ uint32Max) (burst : ℕ) :
    let cfg := tokenBucketCfgInit rate burst
    (∀ (bucket : ℤ) (elapsed : ℕ), int32Min ≤ bucket → bucket ≤ cfg.burst →
      (tokenBucketRawRefillSteps bucket cfg elapsed).1 = min cfg.burst (bucket + rate * elapsed) ∧
        ((tokenBucketRawRefillSteps bucket cfg elapsed).2 = true ↔
          bucket ≤ 0 ∧ 0 < (tokenBucketRawRefillSteps bucket cfg elapsed).1)) ∧
      (∀ s, Reached (ctrSystem rate burst) LevelFits s →
        s.granted ≤ cfg.burst + rate * s.elapsed) ∧
      ∀ before now : ℕ, before ≤ now → elapsedSec (u32 before) (u32 now) ≤ now - before := by
  intro cfg
  have hcfg : cfg.Valid := valid_cfgInit hrate burst
  refine ⟨fun bucket elapsed hlow hhigh => tokenBucketRawRefillSteps_spec hcfg hlow hhigh elapsed,
    fun s hr => ?_, fun before now => elapsedSec_le⟩
  have hgranted : s.granted + max s.bucket.counter 0 ≤ cfg.burst + rate * s.elapsed :=
    (ctrInv_reached hrate hr).granted
  omega

/-- Two tokens, of which one is taken. -/
theorem one_of_two_granted :
    (ctrStep ⟨tokenBucketCtrInit 1 2 1000, 0, 0⟩ (.dec 1)).granted ≤
      (tokenBucketCfgInit 1 2).burst + (1 : ℕ) * (0 : ℕ) := by
  have hinit : Reached (ctrSystem 1 2) LevelFits ⟨tokenBucketCtrInit 1 2 1000, 0, 0⟩ :=
    .init ⟨1000, rfl⟩
  have hfits : LevelFits ⟨tokenBucketCtrInit 1 2 1000, 0, 0⟩ (.dec 1) := by
    intro _
    decide
  exact (granted_le (by decide) 2).2.1 _ (hinit.step hfits rfl)

/-- A decrement that takes the level below -2147483648 leaves 2147483647 tokens. -/
theorem decrement_wraps :
    ¬ ∀ s, Reached (ctrSystem 1 1) (fun _ _ => True) s →
      s.granted ≤ (tokenBucketCfgInit 1 1).burst + (1 : ℕ) * s.elapsed := by
  intro hall
  have hinit : Reached (ctrSystem 1 1) (fun _ _ => True) ⟨tokenBucketCtrInit 1 1 1000, 0, 0⟩ :=
    .init ⟨1000, rfl⟩
  have hfull := (hinit.step trivial rfl : Reached _ _ (ctrStep _ (.dec (2 ^ 31 + 2))))
  have hspent := (hfull.step trivial rfl : Reached _ _ (ctrStep _ (.dec (2 ^ 31 - 1))))
  exact absurd (hall _ hspent) (by decide)

end TokenBucket
