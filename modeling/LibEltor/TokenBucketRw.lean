/-
Token buckets for reading and writing (`lib/evloop/token_bucket.c`).

They count steps of 16 ticks of a coarse clock.  A refill within a step leaves the time of the last
one, so that the ticks are counted later.
-/
import Mathlib.Tactic.Ring
import LibEltor.TokenBucket

open Transition Word

namespace TokenBucket

def ticksPerStep : ℕ := 16

inductive Dir
  | read
  | write

structure TokenBucketRw where
  cfg : TokenBucketCfg
  bucket : Dir → ℤ
  lastRefilledAtTimestamp : ℕ

variable (approxMsec : ℕ → ℕ)

/-- `approxMsec` is `monotime_coarse_stamp_units_to_approx_msec`. -/
def ratePerSecToRatePerStep (rate : ℕ) : ℕ :=
  let val := u32 (approxMsec (u64 (rate * ticksPerStep : ℕ)) / 1000 : ℕ)
  if val ≠ 0 then val else 1

def tokenBucketRwAdjust (b : TokenBucketRw) (rate burst : ℕ) : TokenBucketRw :=
  let cfg := tokenBucketCfgInit (ratePerSecToRatePerStep approxMsec rate) burst
  { b with cfg := cfg, bucket := fun d => tokenBucketRawAdjust (b.bucket d) cfg }

def tokenBucketRwReset (b : TokenBucketRw) (nowTsStamp : ℕ) : TokenBucketRw :=
  { b with bucket := fun _ => b.cfg.burst, lastRefilledAtTimestamp := nowTsStamp }

def tokenBucketRwInit (rate burst nowTsStamp : ℕ) : TokenBucketRw :=
  tokenBucketRwReset (tokenBucketRwAdjust approxMsec ⟨⟨0, 0⟩, fun _ => 0, 0⟩ rate burst) nowTsStamp

/-- The bucket, and the directions that were empty and no longer are. -/
def tokenBucketRwRefill (b : TokenBucketRw) (nowTsStamp : ℕ) : TokenBucketRw × (Dir → Bool) :=
  let elapsedTicks := u32 ((nowTsStamp : ℤ) - b.lastRefilledAtTimestamp)
  if elapsedTicks ≤ uint32Max / 4 then
    let elapsedSteps := elapsedTicks / ticksPerStep
    if elapsedSteps = 0 then (b, fun _ => false)
    else
      let refilled := fun d => tokenBucketRawRefillSteps (b.bucket d) b.cfg elapsedSteps
      ({ b with bucket := fun d => (refilled d).1, lastRefilledAtTimestamp := nowTsStamp },
        fun d => (refilled d).2)
  else ({ b with lastRefilledAtTimestamp := nowTsStamp }, fun _ => false)

/-- The bucket, and the directions that have become empty. -/
def tokenBucketRwDec (b : TokenBucketRw) (n : Dir → ℤ) : TokenBucketRw × (Dir → Bool) :=
  ({ b with bucket := fun d => (tokenBucketRawDec (b.bucket d) (n d)).1 },
    fun d => (tokenBucketRawDec (b.bucket d) (n d)).2)

/-! ### Runs -/

/-- A bucket, the bytes that were taken while it had them, how often it was reset, and the time on
a clock that does not wrap. -/
structure RwRun where
  bucket : TokenBucketRw
  granted : Dir → ℤ
  resets : ℕ
  now : ℕ

inductive RwAction
  | refill (now : ℕ)
  | dec (n : Dir → ℤ)
  | adjust (rate burst : ℕ)
  | reset (now : ℕ)

def rwStep (s : RwRun) : RwAction → RwRun
  | .refill now => { s with bucket := (tokenBucketRwRefill s.bucket (u32 now)).1, now := now }
  | .dec n =>
    { s with
      bucket := (tokenBucketRwDec s.bucket n).1
      granted := fun d =>
        s.granted d + if n d < 0 then 0 else min (n d) (tokenBucketRawGet (s.bucket.bucket d)) }
  | .adjust rate burst => { s with bucket := tokenBucketRwAdjust approxMsec s.bucket rate burst }
  | .reset now =>
    { s with bucket := tokenBucketRwReset s.bucket (u32 now), resets := s.resets + 1, now := now }

def rwSystem (rate burst start : ℕ) : System RwRun RwAction where
  init s := s = ⟨tokenBucketRwInit approxMsec rate burst (u32 start), fun _ => 0, 0, start⟩
  step s a s' := s' = rwStep approxMsec s a

/-- The clock goes on, no level is below -2147483648, and no rate for a step is above `top` and no
burst above `cap`. -/
def Within (top cap : ℕ) (s : RwRun) : RwAction → Prop
  | .refill now | .reset now => s.now ≤ now
  | .dec n => ∀ d, 0 ≤ n d → int32Min ≤ s.bucket.bucket d - n d
  | .adjust rate burst => ratePerSecToRatePerStep approxMsec rate ≤ top ∧ burst ≤ cap

/-- A full bucket for each reset, and the highest rate for each step up to `last`. -/
def allowed (top cap start resets last : ℕ) : ℕ :=
  cap * (1 + resets) + top * ((last - start) / ticksPerStep)

structure Kept (top cap start : ℕ) (s : RwRun) : Prop where
  valid : s.bucket.cfg.Valid
  rate : s.bucket.cfg.rate ≤ top
  burst : s.bucket.cfg.burst ≤ cap
  level : ∀ d, int32Min ≤ s.bucket.bucket d ∧ s.bucket.bucket d ≤ s.bucket.cfg.burst
  /-- The last refill that counted was at `last`. -/
  granted : ∃ last, start ≤ last ∧ last ≤ s.now ∧ s.bucket.lastRefilledAtTimestamp = u32 last ∧
    ∀ d, s.granted d + max (s.bucket.bucket d) 0 ≤ allowed top cap start s.resets last

variable {approxMsec} {top cap start : ℕ} {s : RwRun}

variable (approxMsec) in
theorem ratePerSecToRatePerStep_bounds (rate : ℕ) :
    1 ≤ ratePerSecToRatePerStep approxMsec rate ∧
      ratePerSecToRatePerStep approxMsec rate ≤ uint32Max := by
  have hlt := wrap_lt 32 (approxMsec (u64 (rate * ticksPerStep : ℕ)) / 1000 : ℕ)
  unfold ratePerSecToRatePerStep uint32Max u32
  dsimp only
  split_ifs <;> omega

theorem cfgInit_burst_le (rate : ℕ) {burst : ℕ} (h : burst ≤ cap) :
    (tokenBucketCfgInit rate burst).burst ≤ cap := by
  unfold tokenBucketCfgInit
  dsimp only
  split_ifs <;> omega

variable (cap) in
theorem allowed_add {rate last now elapsed : ℕ} (resets : ℕ) (hrate : rate ≤ top)
    (hstart : start ≤ last) (hnow : last ≤ now) (helapsed : elapsed ≤ now - last) :
    allowed top cap start resets last + rate * (elapsed / ticksPerStep) ≤
      allowed top cap start resets now := by
  have hsteps : (last - start) / ticksPerStep + elapsed / ticksPerStep ≤
      (now - start) / ticksPerStep := by
    unfold ticksPerStep
    omega
  calc allowed top cap start resets last + rate * (elapsed / ticksPerStep)
      ≤ allowed top cap start resets last + top * (elapsed / ticksPerStep) :=
        Nat.add_le_add_left (Nat.mul_le_mul_right _ hrate) _
    _ = cap * (1 + resets) + top * ((last - start) / ticksPerStep + elapsed / ticksPerStep) := by
        rw [allowed, Nat.mul_add top, Nat.add_assoc]
    _ ≤ _ := Nat.add_le_add_left (Nat.mul_le_mul_left top hsteps) _

variable (top cap) in
theorem allowed_mono {last now : ℕ} (resets : ℕ) (hstart : start ≤ last) (hnow : last ≤ now) :
    allowed top cap start resets last ≤ allowed top cap start resets now :=
  allowed_add cap resets (Nat.zero_le top) hstart hnow (Nat.zero_le _)

theorem tokenBucketRwRefill_spec {b : TokenBucketRw} (hcfg : b.cfg.Valid)
    (hlevel : ∀ d, int32Min ≤ b.bucket d ∧ b.bucket d ≤ b.cfg.burst) (now : ℕ) :
    let r := tokenBucketRwRefill b now
    let steps := elapsedSec b.lastRefilledAtTimestamp now / ticksPerStep
    r.1.cfg = b.cfg ∧
      (r.1.lastRefilledAtTimestamp = now ∨
        steps = 0 ∧ r.1.lastRefilledAtTimestamp = b.lastRefilledAtTimestamp) ∧
      ∀ d, r.1.bucket d = min b.cfg.burst (b.bucket d + b.cfg.rate * steps) ∧
        (r.2 d = true ↔ b.bucket d ≤ 0 ∧ 0 < r.1.bucket d) := by
  unfold tokenBucketRwRefill elapsedSec
  dsimp only
  generalize u32 ((now : ℤ) - b.lastRefilledAtTimestamp) = elapsed
  have hsame : ∀ d, b.bucket d = min b.cfg.burst (b.bucket d) := fun d =>
    (min_eq_right (hlevel d).2).symm
  split_ifs with hsmall hnone
  · refine ⟨rfl, .inr ⟨hnone, rfl⟩, fun d => ⟨?_, by simp⟩⟩
    simpa [hnone] using hsame d
  · exact ⟨rfl, .inl rfl, fun d =>
      tokenBucketRawRefillSteps_spec hcfg (hlevel d).1 (hlevel d).2 (elapsed / ticksPerStep)⟩
  · exact ⟨rfl, .inl rfl, fun d => ⟨by simpa using hsame d, by simp⟩⟩

theorem Kept.step (h : Kept top cap start s) {a : RwAction}
    (hok : Within approxMsec top cap s a) : Kept top cap start (rwStep approxMsec s a) := by
  obtain ⟨hvalid, hrate, hburst, hlevel, last, hstart, hlast, hstamp, hgranted⟩ := h
  have hpos := hvalid.burst
  cases a with
  | refill now =>
    have hnow : last ≤ now := hlast.trans hok
    have hticks := elapsedSec_le hnow
    obtain ⟨hcfg, hnext, hfill⟩ := tokenBucketRwRefill_spec hvalid hlevel (u32 now)
    rw [hstamp] at hnext hfill
    have hnn : (0 : ℤ) ≤ s.bucket.cfg.rate *
        (elapsedSec (u32 last) (u32 now) / ticksPerStep : ℕ) := by positivity
    refine ⟨hcfg ▸ hvalid, hcfg ▸ hrate, hcfg ▸ hburst, fun d => ?_, ?_⟩
    · have hlow := (hlevel d).1
      rw [rwStep, (hfill d).1, hcfg]
      exact ⟨le_min (le_trans (by decide) hpos.1) (by omega), min_le_left _ _⟩
    · obtain hnext | ⟨hnone, hnext⟩ := hnext
      · -- the time moves on by at least the steps that were added
        refine ⟨now, hstart.trans hnow, le_rfl, hnext, fun d => ?_⟩
        have hbefore := hgranted d
        have hadd := allowed_add cap s.resets hrate hstart hnow hticks
        rw [← Int.ofNat_le, Nat.cast_add, Nat.cast_mul] at hadd
        have hfilled := (hfill d).1.trans_le (min_le_right _ _)
        dsimp only [rwStep]
        omega
      · -- less than a step: the ticks are counted later
        refine ⟨last, hstart, hnow, hnext, fun d => ?_⟩
        have hsame := (hfill d).1
        rw [hnone, Nat.cast_zero, mul_zero, add_zero, min_eq_right (hlevel d).2] at hsame
        rw [rwStep, hsame]
        exact hgranted d
  | dec n =>
    have hdec : ∀ d, (tokenBucketRawDec (s.bucket.bucket d) (n d)).1 =
        if n d < 0 then s.bucket.bucket d else s.bucket.bucket d - n d := fun d => by
      have hlow := hok d
      have hhigh := (hlevel d).2
      unfold tokenBucketRawDec
      split_ifs with hneg
      · rfl
      · exact i32_of_mem (hlow (not_lt.mp hneg)) (by omega)
    refine ⟨hvalid, hrate, hburst, fun d => ?_, last, hstart, hlast, hstamp, fun d => ?_⟩
    · have hlow := hok d
      have hbefore := hlevel d
      simp only [rwStep, tokenBucketRwDec, hdec]
      split_ifs <;> omega
    · have hbefore := hgranted d
      simp only [rwStep, tokenBucketRwDec, hdec, tokenBucketRawGet]
      split_ifs <;> omega
  | adjust rate burst =>
    have hcfg := valid_cfgInit (ratePerSecToRatePerStep_bounds approxMsec rate) burst
    refine ⟨hcfg, hok.1, cfgInit_burst_le _ hok.2, fun d => ⟨?_, min_le_right _ _⟩,
      last, hstart, hlast, hstamp, fun d => (add_le_add_right ?_ _).trans (hgranted d)⟩
    · exact le_min (hlevel d).1 (le_trans (by decide) hcfg.burst.1)
    · exact max_le_max_right 0 (min_le_left _ _)
  | reset now =>
    refine ⟨hvalid, hrate, hburst, fun d => ⟨le_trans (by decide) hpos.1, le_rfl⟩,
      now, hstart.trans (hlast.trans hok), le_rfl, rfl, fun d => ?_⟩
    have hbefore := hgranted d
    have hmono := allowed_mono top cap s.resets hstart (hlast.trans hok)
    have hreset : allowed top cap start (s.resets + 1) now =
        cap + allowed top cap start s.resets now := by
      unfold allowed
      ring
    simp only [rwStep, tokenBucketRwReset, hreset]
    push_cast
    omega

/-- **A bucket grants at most what its settings allow**, in every run of refills, decrements and new
settings: a full bucket at the start and at every reset, and the highest rate for each step of the
clock.  Each refill is exact, and tells of the directions that were empty and no longer are. -/
theorem rwBucket_sound {rate burst : ℕ} (htop : ratePerSecToRatePerStep approxMsec rate ≤ top)
    (hcap : burst ≤ cap)
    (hr : Reached (rwSystem approxMsec rate burst start) (Within approxMsec top cap) s) :
    (∀ d, s.granted d ≤ allowed top cap start s.resets s.now) ∧
      (∀ d, int32Min ≤ s.bucket.bucket d ∧ s.bucket.bucket d ≤ s.bucket.cfg.burst) ∧
      ∀ now d,
        let r := tokenBucketRwRefill s.bucket now
        r.1.bucket d = min s.bucket.cfg.burst (s.bucket.bucket d + s.bucket.cfg.rate *
          (elapsedSec s.bucket.lastRefilledAtTimestamp now / ticksPerStep : ℕ)) ∧
        (r.2 d = true ↔ s.bucket.bucket d ≤ 0 ∧ 0 < r.1.bucket d) := by
  have hkept : Kept top cap start s := by
    refine hr.invariant ⟨?_, ?_⟩
    · rintro s rfl
      have hcfg := valid_cfgInit (ratePerSecToRatePerStep_bounds approxMsec rate) burst
      have hburst := cfgInit_burst_le (ratePerSecToRatePerStep approxMsec rate) hcap
      refine ⟨hcfg, htop, hburst, fun d => ⟨le_trans (by decide) hcfg.burst.1, le_rfl⟩,
        start, le_rfl, le_rfl, rfl, fun d => ?_⟩
      simpa [allowed, tokenBucketRwInit, tokenBucketRwReset, tokenBucketRwAdjust] using hburst
    · rintro s a s' h hok rfl
      exact h.step hok
  refine ⟨fun d => ?_, hkept.level, fun now =>
    (tokenBucketRwRefill_spec hkept.valid hkept.level now).2.2⟩
  obtain ⟨last, hstart, hlast, -, hgranted⟩ := hkept.granted
  have hbefore := hgranted d
  have hmono := allowed_mono top cap s.resets hstart hlast
  omega

/-- At 953 ticks a second. -/
def approxMsec953 (units : ℕ) : ℕ := units * 1000 / 953

def run953 : RwRun := ⟨tokenBucketRwInit approxMsec953 1000 500 0, fun _ => 0, 0, 0⟩

theorem rwBucket_sound_example :
    (rwStep approxMsec953 run953 (.dec fun _ => 600)).granted .read ≤ allowed 16 500 0 0 0 := by
  have hinit : Reached (rwSystem approxMsec953 1000 500 0) (Within approxMsec953 16 500) run953 :=
    .init rfl
  have hfits : Within approxMsec953 16 500 run953 (.dec fun _ => 600) := fun _ _ => by
    show int32Min ≤ (500 : ℤ) - 600
    decide
  exact (rwBucket_sound (by decide +kernel) le_rfl (hinit.step hfits rfl)).1 .read

end TokenBucket
