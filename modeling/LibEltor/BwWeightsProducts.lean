/-
When the products of the bandwidth weights fit (`networkstatus_compute_bw_weights_v10`).

The weights of every case are right if they are computed over the integers.  `ProductsFit` says,
case by case, which products of the totals and the scale have to be in `int64_t` for this.
-/
import Mathlib
import LibEltor.BwWeights

open Formula

namespace BwWeights

/-- The sums are within 10 of the scale, and every weight is between zero and the scale. -/
structure Weights.Right (w : Weights) (scale : ℤ) : Prop where
  both : |w.wed + w.wmd + w.wgd - scale| ≤ 10
  guard : |w.wmg + w.wgg - scale| ≤ 10
  exit : |w.wme + w.wee - scale| ≤ 10
  range : rangeCheck w scale = true

instance (w : Weights) (scale : ℤ) : Decidable (w.Right scale) :=
  decidable_of_iff (|w.wed + w.wmd + w.wgd - scale| ≤ 10 ∧ |w.wmg + w.wgg - scale| ≤ 10 ∧
      |w.wme + w.wee - scale| ≤ 10 ∧ rangeCheck w scale = true)
    ⟨fun h => ⟨h.1, h.2.1, h.2.2.1, h.2.2.2⟩, fun h => ⟨h.both, h.guard, h.exit, h.range⟩⟩

def weight (line : List (String × ℤ)) (keyword : String) : ℤ := (line.lookup keyword).getD 0

structure LineRight (line : List (String × ℤ)) (scale : ℤ) : Prop where
  range : ∀ p ∈ line, 0 ≤ p.2 ∧ p.2 ≤ scale
  guard : |weight line "Wgg" + weight line "Wmg" - scale| ≤ 10
  exit : |weight line "Wee" + weight line "Wme" - scale| ≤ 10
  both : |weight line "Wgd" + weight line "Wmd" + weight line "Wed" - scale| ≤ 10

/-! ### The condition -/

def int64Max : ℤ := 2 ^ 63 - 1

/-- The totals that are balanced are in range, if the weights pass the rest of the check. -/
def BalanceFits (w : Weights) (scale : ℤ) (n : Totals) : Prop :=
  w.Right scale →
    w.wgg * n.g + w.wgd * n.d ≤ int64Max ∧ w.wee * n.e + w.wed * n.d ≤ int64Max ∧
    InSigned 64 (10 * n.t) ∧
    (|w.wgg * n.g + w.wgd * n.d - (w.wee * n.e + w.wed * n.d)| ≤ (10 * n.t).tdiv 3 →
      n.m * scale + w.wmd * n.d + w.wme * n.e + w.wmg * n.g ≤ int64Max)

def exactWeights1 (n : Totals) (scale : ℤ) : Weights where
  wgg := scale - (scale * (2 * n.g - n.e - n.m)).tdiv (3 * n.g)
  wgd := scale.tdiv 3
  wmg := (scale * (2 * n.g - n.e - n.m)).tdiv (3 * n.g)
  wme := scale - (scale * (n.e + n.g + n.m)).tdiv (3 * n.e)
  wmd := scale.tdiv 3
  wee := (scale * (n.e + n.g + n.m)).tdiv (3 * n.e)
  wed := scale.tdiv 3

def exactWeights2b1 (n : Totals) (scale : ℤ) : Weights where
  wgg := scale
  wgd := (scale - (scale * (n.d - 2 * n.e + 4 * n.g - 2 * n.m)).tdiv (3 * n.d)).tdiv 2
  wmg := 0
  wme := (scale * (n.g - n.m)).tdiv n.e
  wmd := (scale - (scale * (n.d - 2 * n.e + 4 * n.g - 2 * n.m)).tdiv (3 * n.d)).tdiv 2
  wee := (scale * (n.e - n.g + n.m)).tdiv n.e
  wed := (scale * (n.d - 2 * n.e + 4 * n.g - 2 * n.m)).tdiv (3 * n.d)

def exactWeights2b2 (n : Totals) (scale : ℤ) : Weights where
  wgg := scale
  wgd := scale - (scale * (n.d - 2 * n.e + n.g + n.m)).tdiv (3 * n.d) -
    max 0 ((scale * (n.d - 2 * n.m + n.g + n.e)).tdiv (3 * n.d))
  wmg := 0
  wme := 0
  wmd := max 0 ((scale * (n.d - 2 * n.m + n.g + n.e)).tdiv (3 * n.d))
  wee := scale
  wed := (scale * (n.d - 2 * n.e + n.g + n.m)).tdiv (3 * n.d)

def exactWeights3b (n : Totals) (scale : ℤ) : Weights :=
  if n.g < n.e then
    let wgd := (scale * (n.d - 2 * n.g + n.e + n.m)).tdiv (3 * n.d)
    let wee := (scale * (n.e + n.m)).tdiv (2 * n.e)
    { wgg := scale, wgd := wgd, wmg := 0, wme := scale - wee
      wmd := (scale - wgd).tdiv 2, wee := wee, wed := (scale - wgd).tdiv 2 }
  else
    let wed := (scale * (n.d - 2 * n.e + n.g + n.m)).tdiv (3 * n.d)
    let wgg := (scale * (n.g + n.m)).tdiv (2 * n.g)
    { wgg := wgg, wgd := (scale - wed).tdiv 2, wmg := scale - wgg, wme := 0
      wmd := (scale - wed).tdiv 2, wee := scale, wed := wed }

def Fits1 (n : Totals) (scale : ℤ) : Prop :=
  scale * (n.e + n.g + n.m) ≤ int64Max ∧ scale * (2 * n.g - n.e - n.m) ≤ int64Max ∧
    BalanceFits (exactWeights1 n scale) scale n

def Fits2b1 (n : Totals) (scale : ℤ) : Prop :=
  4 * n.g ≤ int64Max ∧ 2 * n.m ≤ int64Max ∧ 3 * n.d ≤ int64Max ∧
    n.d - 2 * n.e + 4 * n.g ≤ int64Max ∧
    InSigned 64 (scale * (n.e - n.g + n.m)) ∧
    InSigned 64 (scale * (n.d - 2 * n.e + 4 * n.g - 2 * n.m)) ∧
    InSigned 64 (scale * (n.g - n.m)) ∧
    BalanceFits (exactWeights2b1 n scale) scale n

def Fits2b2 (n : Totals) (scale : ℤ) : Prop :=
  InSigned 64 (scale * (n.d - 2 * n.e + n.g + n.m)) ∧
    InSigned 64 (scale * (n.d - 2 * n.m + n.g + n.e)) ∧
    BalanceFits (exactWeights2b2 n scale) scale n

def Fits2b (n : Totals) (scale : ℤ) : Prop :=
  Fits2b1 n scale ∧
    ((networkstatusCheckWeights (exactWeights2b1 n scale) scale n 10 true).value ≠ .noError →
      Fits2b2 n scale)

def Fits3a (n : Totals) (scale : ℤ) : Prop :=
  if n.g < n.e then n.m ≤ n.e → scale * (n.e - n.m) ≤ int64Max
  else n.m ≤ n.g → scale * (n.g - n.m) ≤ int64Max

def Numerators3b (n : Totals) (scale : ℤ) : Prop :=
  if n.g < n.e then
    InSigned 64 (scale * (n.d - 2 * n.g + n.e + n.m)) ∧ scale * (n.e + n.m) ≤ int64Max
  else
    InSigned 64 (scale * (n.d - 2 * n.e + n.g + n.m)) ∧ scale * (n.g + n.m) ≤ int64Max

def Fits3b (n : Totals) (scale : ℤ) : Prop :=
  Numerators3b n scale ∧ BalanceFits (exactWeights3b n scale) scale n

def ProductsFit (n : Totals) (scale : ℤ) : Prop :=
  3 * n.e ≤ int64Max ∧ 3 * n.g ≤ int64Max ∧
    if n.t ≤ 3 * n.e ∧ n.t ≤ 3 * n.g then Fits1 n scale
    else if 3 * n.e < n.t ∧ 3 * n.g < n.t then
      min n.e n.g + n.d ≤ int64Max ∧
        (max n.e n.g ≤ min n.e n.g + n.d → Fits2b n scale)
    else
      3 * (min n.e n.g + n.d) ≤ int64Max ∧
        if 3 * (min n.e n.g + n.d) < n.t then Fits3a n scale else Fits3b n scale

theorem inSigned_iff {x : ℤ} :
    InSigned 64 x ↔ -9223372036854775808 ≤ x ∧ x ≤ 9223372036854775807 := by
  rw [InSigned]
  norm_num
  omega

theorem int64Max_eq : int64Max = 9223372036854775807 := rfl

theorem tdiv_bound {x k c : ℤ} (h : InSigned 64 x) (hc : 0 ≤ c) (hk : c ≤ k) :
    -9223372036854775808 ≤ c * x.tdiv k ∧ c * x.tdiv k ≤ 9223372036854775807 := by
  rw [inSigned_iff] at h
  rcases le_total 0 x with hx | hx
  · have hle := mul_tdiv_le hx hc hk
    have hnonneg : 0 ≤ c * x.tdiv k := mul_nonneg hc (Int.tdiv_nonneg hx (hc.trans hk))
    omega
  · have hx' : 0 ≤ -x := neg_nonneg.mpr hx
    have hle := mul_tdiv_le hx' hc hk
    have hnonneg : 0 ≤ c * (-x).tdiv k := mul_nonneg hc (Int.tdiv_nonneg hx' (hc.trans hk))
    rw [Int.neg_tdiv, mul_neg] at hle hnonneg
    omega

/-! ### The check -/

theorem value_checkEq (a b margin : ℤ) :
    (checkEq a b margin).value = decide (|a - b| ≤ margin) := by
  simp only [checkEq, value_bind, value_sub]
  split_ifs with hsign
  · rw [value_pure, abs_of_nonneg hsign]
  · have hneg : |a - b| = b - a := by
      rw [abs_of_neg (not_le.mp hsign), neg_sub]
    simp only [value_bind, value_sub, value_pure, hneg]

theorem fits_checkEq {a b : ℤ} (margin : ℤ) (h : InSigned 64 (a - b)) (h' : InSigned 64 (b - a)) :
    (checkEq a b margin).Fits 64 := by
  simp only [checkEq, fits_bind, fits_sub, value_sub]
  refine ⟨h, ?_⟩
  split_ifs
  · exact fits_pure 64 _
  · simp [h']

theorem inRange_iff {mx x : ℤ} : inRange mx x = true ↔ 0 ≤ x ∧ x ≤ mx := by
  simp [inRange]

theorem rangeCheck_iff {w : Weights} {mx : ℤ} : rangeCheck w mx = true ↔
    (0 ≤ w.wgg ∧ w.wgg ≤ mx) ∧ (0 ≤ w.wgd ∧ w.wgd ≤ mx) ∧ (0 ≤ w.wmg ∧ w.wmg ≤ mx) ∧
      (0 ≤ w.wme ∧ w.wme ≤ mx) ∧ (0 ≤ w.wmd ∧ w.wmd ≤ mx) ∧ (0 ≤ w.wed ∧ w.wed ≤ mx) ∧
      0 ≤ w.wee ∧ w.wee ≤ mx := by
  simp only [rangeCheck, Bool.and_eq_true, inRange_iff, and_assoc]

structure Totals.Positive (n : Totals) : Prop where
  g : 0 < n.g ∧ n.g ≤ int64Max
  m : 0 < n.m ∧ n.m ≤ int64Max
  e : 0 < n.e ∧ n.e ≤ int64Max
  d : 0 < n.d ∧ n.d ≤ int64Max

variable {w w' : Weights} {n : Totals} {scale : ℤ}

theorem inSigned_of_nonneg {x : ℤ} (h0 : 0 ≤ x) : InSigned 64 x ↔ x ≤ int64Max := by
  rw [inSigned_iff, int64Max_eq]
  omega

theorem value_guardTotal : (guardTotal w n).value = w.wgg * n.g + w.wgd * n.d := by
  simp [guardTotal]

theorem value_exitTotal : (exitTotal w n).value = w.wee * n.e + w.wed * n.d := by
  simp [exitTotal]

theorem value_middleTotal : (middleTotal w scale n).value =
    n.m * scale + w.wmd * n.d + w.wme * n.e + w.wmg * n.g := by
  simp [middleTotal]

theorem fits_guardTotal (hn : n.Positive) (hw : rangeCheck w scale = true) :
    (guardTotal w n).Fits 64 ↔ w.wgg * n.g + w.wgd * n.d ≤ int64Max := by
  obtain ⟨⟨hgg, -⟩, ⟨hgd, -⟩, -⟩ := rangeCheck_iff.mp hw
  have hg : 0 ≤ w.wgg * n.g := mul_nonneg hgg hn.g.1.le
  have hd : 0 ≤ w.wgd * n.d := mul_nonneg hgd hn.d.1.le
  simp only [guardTotal, fits_bind, fits_mul, value_mul, fits_add, inSigned_of_nonneg hg,
    inSigned_of_nonneg hd, inSigned_of_nonneg (add_nonneg hg hd)]
  omega

theorem fits_exitTotal (hn : n.Positive) (hw : rangeCheck w scale = true) :
    (exitTotal w n).Fits 64 ↔ w.wee * n.e + w.wed * n.d ≤ int64Max := by
  obtain ⟨-, -, -, -, -, ⟨hed, -⟩, hee, -⟩ := rangeCheck_iff.mp hw
  have he : 0 ≤ w.wee * n.e := mul_nonneg hee hn.e.1.le
  have hd : 0 ≤ w.wed * n.d := mul_nonneg hed hn.d.1.le
  simp only [exitTotal, fits_bind, fits_mul, value_mul, fits_add, inSigned_of_nonneg he,
    inSigned_of_nonneg hd, inSigned_of_nonneg (add_nonneg he hd)]
  omega

theorem fits_middleTotal (hn : n.Positive) (hscale : 0 ≤ scale) (hw : rangeCheck w scale = true) :
    (middleTotal w scale n).Fits 64 ↔
      n.m * scale + w.wmd * n.d + w.wme * n.e + w.wmg * n.g ≤ int64Max := by
  obtain ⟨-, -, ⟨hmg, -⟩, ⟨hme, -⟩, ⟨hmd, -⟩, -⟩ := rangeCheck_iff.mp hw
  have hm : 0 ≤ n.m * scale := mul_nonneg hn.m.1.le hscale
  have hd : 0 ≤ w.wmd * n.d := mul_nonneg hmd hn.d.1.le
  have he : 0 ≤ w.wme * n.e := mul_nonneg hme hn.e.1.le
  have hg : 0 ≤ w.wmg * n.g := mul_nonneg hmg hn.g.1.le
  have hmd' := add_nonneg hm hd
  have hmde := add_nonneg hmd' he
  simp only [middleTotal, fits_bind, fits_mul, value_mul, value_add, fits_add,
    inSigned_of_nonneg hm, inSigned_of_nonneg hd, inSigned_of_nonneg he, inSigned_of_nonneg hg,
    inSigned_of_nonneg hmd', inSigned_of_nonneg hmde, inSigned_of_nonneg (add_nonneg hmde hg)]
  omega

theorem fits_checkEq_of_nonneg {a b : ℤ} (ha : 0 ≤ a ∧ a ≤ int64Max) (hb : 0 ≤ b ∧ b ≤ int64Max)
    (margin : ℤ) : (checkEq a b margin).Fits 64 := by
  rw [int64Max_eq] at ha hb
  refine fits_checkEq margin ?_ ?_
  all_goals
    rw [inSigned_iff]
    omega

theorem fits_checkBalance (hn : n.Positive) (hscale : 0 ≤ scale) (hw : rangeCheck w scale = true) :
    (checkBalance w scale n 10).Fits 64 ↔
      w.wgg * n.g + w.wgd * n.d ≤ int64Max ∧ w.wee * n.e + w.wed * n.d ≤ int64Max ∧
      InSigned 64 (10 * n.t) ∧
      (|w.wgg * n.g + w.wgd * n.d - (w.wee * n.e + w.wed * n.d)| ≤ (10 * n.t).tdiv 3 →
        n.m * scale + w.wmd * n.d + w.wme * n.e + w.wmg * n.g ≤ int64Max) := by
  obtain ⟨⟨hgg, -⟩, ⟨hgd, -⟩, ⟨hmg, -⟩, ⟨hme, -⟩, ⟨hmd, -⟩, ⟨hed, -⟩, hee, -⟩ := rangeCheck_iff.mp hw
  have hguard0 : 0 ≤ w.wgg * n.g + w.wgd * n.d :=
    add_nonneg (mul_nonneg hgg hn.g.1.le) (mul_nonneg hgd hn.d.1.le)
  have hexit0 : 0 ≤ w.wee * n.e + w.wed * n.d :=
    add_nonneg (mul_nonneg hee hn.e.1.le) (mul_nonneg hed hn.d.1.le)
  have hmiddle0 : 0 ≤ n.m * scale + w.wmd * n.d + w.wme * n.e + w.wmg * n.g := by
    have hm : 0 ≤ n.m * scale := mul_nonneg hn.m.1.le hscale
    have hd : 0 ≤ w.wmd * n.d := mul_nonneg hmd hn.d.1.le
    have he : 0 ≤ w.wme * n.e := mul_nonneg hme hn.e.1.le
    have hg : 0 ≤ w.wmg * n.g := mul_nonneg hmg hn.g.1.le
    omega
  simp only [checkBalance, fits_bind, fits_guardTotal hn hw, fits_exitTotal hn hw, fits_mul,
    value_mul, fits_div, value_div, fits_ite, fits_middleTotal hn hscale hw, fits_pure, value_checkEq,
    decide_eq_false_iff_not, value_guardTotal, value_exitTotal, value_middleTotal]
  refine and_congr_right fun hguard => and_congr_right fun hexit => ?_
  refine and_congr_right fun hmargin => ⟨fun h hbalanced => ?_, fun hrest => ?_⟩
  · have hrest := h.2.2
    rw [if_neg (not_not.mpr hbalanced)] at hrest
    exact hrest.1
  · refine ⟨⟨by decide, hmargin.tdiv (by decide)⟩,
      fits_checkEq_of_nonneg ⟨hguard0, hguard⟩ ⟨hexit0, hexit⟩ _, ?_⟩
    by_cases hbalanced : |w.wgg * n.g + w.wgd * n.d - (w.wee * n.e + w.wed * n.d)| ≤ (10 * n.t).tdiv 3
    · have hmiddle := hrest hbalanced
      rw [if_neg (not_not.mpr hbalanced)]
      exact ⟨hmiddle, fits_checkEq_of_nonneg ⟨hguard0, hguard⟩ ⟨hmiddle0, hmiddle⟩ _, by simp⟩
    · rw [if_pos hbalanced]
      trivial

/-- The sums of weights are in range, and so is what they are off by. -/
structure SumsFit (w : Weights) (scale : ℤ) : Prop where
  edmd : InSigned 64 (w.wed + w.wmd)
  both : -2 ^ 62 ≤ w.wed + w.wmd + w.wgd ∧ w.wed + w.wmd + w.wgd ≤ 2 ^ 62
  guard : -2 ^ 62 ≤ w.wmg + w.wgg ∧ w.wmg + w.wgg ≤ 2 ^ 62
  exit : -2 ^ 62 ≤ w.wme + w.wee ∧ w.wme + w.wee ≤ 2 ^ 62

theorem fits_check (hn : n.Positive) (hscale : 1 ≤ scale ∧ scale ≤ int32Max)
    (hsums : SumsFit w scale) :
    (networkstatusCheckWeights w scale n 10 true).Fits 64 ↔ BalanceFits w scale n := by
  have hsum : ∀ x : ℤ, -2 ^ 62 ≤ x ∧ x ≤ 2 ^ 62 → InSigned 64 x ∧ (checkEq x scale 10).Fits 64 := by
    intro x hx
    unfold int32Max at hscale
    refine ⟨inSigned_iff.mpr (by omega), fits_checkEq 10 ?_ ?_⟩
    all_goals
      rw [inSigned_iff]
      omega
  have hboth := hsum _ hsums.both
  have hguard := hsum _ hsums.guard
  have hexit := hsum _ hsums.exit
  simp only [networkstatusCheckWeights, fits_bind, fits_add, value_add, hsums.edmd, hboth, hguard,
    hexit, true_and, fits_ite, value_checkEq, decide_eq_false_iff_not, fits_pure, if_true]
  rw [BalanceFits]
  by_cases hright : w.Right scale
  · rw [if_neg (not_not.mpr hright.both), if_neg (not_not.mpr hright.guard),
      if_neg (not_not.mpr hright.exit), if_neg (by simp [hright.range]),
      fits_checkBalance hn (by omega) hright.range]
    exact ⟨fun h _ => h, fun h => h hright⟩
  · refine iff_of_true ?_ fun h => absurd h hright
    split_ifs with h1 h2 h3 h4
    all_goals first
      | trivial
      | exact absurd ⟨h1, h2, h3, by simpa using h4⟩ hright

theorem right_of_check
    (h : (networkstatusCheckWeights w scale n 10 true).value = .noError ∨
      (networkstatusCheckWeights w scale n 10 true).value = .balanceMidError) : w.Right scale := by
  simp only [networkstatusCheckWeights, value_bind, value_add, value_ite, value_checkEq,
    decide_eq_false_iff_not, value_pure] at h
  split_ifs at h with h1 h2 h3 h4
  all_goals first
    | exact ⟨h1, h2, h3, by simpa using h4⟩
    | simp at h

/-! ### The weights -/

theorem scaled_bounds {x : ℤ} (c k : ℤ) (hscale : 1 ≤ scale) (h : InSigned 64 (scale * x))
    (hc : 1 ≤ c) (hk : c ≤ k) :
    InSigned 64 x ∧ InSigned 64 ((scale * x).tdiv k) ∧
      -9223372036854775808 ≤ c * (scale * x).tdiv k ∧
      c * (scale * x).tdiv k ≤ 9223372036854775807 :=
  ⟨h.of_mul hscale, h.tdiv (hc.trans hk), tdiv_bound h (by omega) hk⟩

theorem value_weights1 : (weights1 n scale).value = exactWeights1 n scale := by
  simp [weights1, exactWeights1]

theorem inSigned_weights1 (hn : n.Positive) (hscale : 1 ≤ scale)
    (hsum : scale * (n.e + n.g + n.m) ≤ int64Max)
    (hdiff : scale * (2 * n.g - n.e - n.m) ≤ int64Max) :
    InSigned 64 (scale * (n.e + n.g + n.m)) ∧ InSigned 64 (scale * (2 * n.g - n.e - n.m)) := by
  obtain ⟨⟨hg, -⟩, ⟨hm, -⟩, ⟨he, -⟩, -⟩ := hn
  have hsum0 : 0 ≤ scale * (n.e + n.g + n.m) := mul_nonneg (by omega) (by omega)
  have hthree : scale * (2 * n.g - n.e - n.m) + scale * (n.e + n.g + n.m) = scale * (3 * n.g) := by
    ring
  have hthree0 : 0 ≤ scale * (3 * n.g) := mul_nonneg (by omega) (by omega)
  rw [inSigned_iff, inSigned_iff]
  rw [int64Max_eq] at hsum hdiff
  omega

theorem fits_weights1 (hn : n.Positive) (hscale : 1 ≤ scale ∧ scale ≤ int32Max)
    (he3 : 3 * n.e ≤ int64Max) (hg3 : 3 * n.g ≤ int64Max) :
    (weights1 n scale).Fits 64 ↔
      scale * (n.e + n.g + n.m) ≤ int64Max ∧ scale * (2 * n.g - n.e - n.m) ≤ int64Max := by
  simp only [weights1, fits_bind, fits_add, value_add, fits_sub, value_sub, fits_mul, value_mul,
    fits_div, value_div, fits_pure, and_true]
  refine ⟨fun h => ?_, fun h => ?_⟩
  · simp only [inSigned_iff] at h
    rw [int64Max_eq]
    omega
  · obtain ⟨hsum, hdiff⟩ := h
    obtain ⟨hsum', hdiff'⟩ := inSigned_weights1 hn hscale.1 hsum hdiff
    obtain ⟨⟨hg, hgmax⟩, ⟨hm, hmmax⟩, ⟨he, hemax⟩, -⟩ := hn
    have hee := scaled_bounds 3 (3 * n.e) hscale.1 hsum' (by decide) (by omega)
    have hmg := scaled_bounds 3 (3 * n.g) hscale.1 hdiff' (by decide) (by omega)
    have hthird := mul_tdiv_le (hscale.1.trans' zero_le_one) (show 0 ≤ (3 : ℤ) by decide) le_rfl
    have hthird0 : 0 ≤ scale.tdiv 3 := Int.tdiv_nonneg (hscale.1.trans' zero_le_one) (by decide)
    obtain ⟨hscale1, hscalemax⟩ := hscale
    simp only [int64Max_eq, int32Max, inSigned_iff] at *
    omega

theorem sumsFit_weights1 (hscale : 1 ≤ scale ∧ scale ≤ int32Max) :
    SumsFit (exactWeights1 n scale) scale := by
  have hthird := mul_tdiv_le (hscale.1.trans' zero_le_one) (show 0 ≤ (3 : ℤ) by decide) le_rfl
  have hthird0 : 0 ≤ scale.tdiv 3 := Int.tdiv_nonneg (hscale.1.trans' zero_le_one) (by decide)
  obtain ⟨hscale1, hscalemax⟩ := hscale
  unfold int32Max at hscalemax
  constructor
  all_goals
    simp only [exactWeights1, inSigned_iff]
    omega

theorem value_weights2b1 : (weights2b1 n scale).value = exactWeights2b1 n scale := by
  simp [weights2b1, exactWeights2b1]

theorem fits_weights2b1 (hn : n.Positive) (hscale : 1 ≤ scale ∧ scale ≤ int32Max)
    (he3 : 3 * n.e ≤ int64Max) :
    (weights2b1 n scale).Fits 64 ↔
      4 * n.g ≤ int64Max ∧ 2 * n.m ≤ int64Max ∧ 3 * n.d ≤ int64Max ∧
        n.d - 2 * n.e + 4 * n.g ≤ int64Max ∧
        InSigned 64 (scale * (n.e - n.g + n.m)) ∧
        InSigned 64 (scale * (n.d - 2 * n.e + 4 * n.g - 2 * n.m)) ∧
        InSigned 64 (scale * (n.g - n.m)) := by
  simp only [weights2b1, fits_bind, fits_add, value_add, fits_sub, value_sub, fits_mul, value_mul,
    fits_div, value_div, fits_pure, and_true]
  obtain ⟨⟨hg, hgmax⟩, ⟨hm, hmmax⟩, ⟨he, hemax⟩, hd, hdmax⟩ := hn
  refine ⟨fun h => ?_, fun h => ?_⟩
  · simp only [inSigned_iff] at h ⊢
    rw [int64Max_eq]
    omega
  · obtain ⟨hg4, hm2, hd3, hpartial, hee, hed, hme⟩ := h
    have hee := scaled_bounds 1 n.e hscale.1 hee le_rfl (by omega)
    have hed' := scaled_bounds 3 (3 * n.d) hscale.1 hed (by decide) (by omega)
    have hme := scaled_bounds 1 n.e hscale.1 hme le_rfl (by omega)
    have hhalf := two_mul_tdiv_two
      (scale - (scale * (n.d - 2 * n.e + 4 * n.g - 2 * n.m)).tdiv (3 * n.d))
    obtain ⟨hscale1, hscalemax⟩ := hscale
    simp only [int64Max_eq, int32Max, inSigned_iff] at *
    omega

theorem halves_bounds {x : ℤ} (hscale : 1 ≤ scale ∧ scale ≤ int32Max) (hx : InSigned 64 (scale * x))
    (hd : 0 < n.d) :
    InSigned 64 ((scale * x).tdiv (3 * n.d) + (scale - (scale * x).tdiv (3 * n.d)).tdiv 2) ∧
      InSigned 64 (2 * (scale - (scale * x).tdiv (3 * n.d)).tdiv 2) ∧
      scale - 1 ≤ (scale * x).tdiv (3 * n.d) + 2 * (scale - (scale * x).tdiv (3 * n.d)).tdiv 2 ∧
      (scale * x).tdiv (3 * n.d) + 2 * (scale - (scale * x).tdiv (3 * n.d)).tdiv 2 ≤ scale + 1 := by
  have hpart := scaled_bounds 3 (3 * n.d) hscale.1 hx (by decide) (by omega)
  have hhalf := two_mul_tdiv_two (scale - (scale * x).tdiv (3 * n.d))
  obtain ⟨hscale1, hscalemax⟩ := hscale
  simp only [int32Max, inSigned_iff] at *
  omega

theorem sumsFit_weights2b1 (hn : n.Positive) (hscale : 1 ≤ scale ∧ scale ≤ int32Max)
    (hed : InSigned 64 (scale * (n.d - 2 * n.e + 4 * n.g - 2 * n.m))) :
    SumsFit (exactWeights2b1 n scale) scale := by
  have hhalves := halves_bounds hscale hed hn.d.1
  have hexit := tdiv_add_tdiv (x := scale * (n.g - n.m)) (y := scale * (n.e - n.g + n.m))
    (s := scale) hn.e.1 (by ring)
  obtain ⟨hscale1, hscalemax⟩ := hscale
  unfold int32Max at hscalemax
  constructor
  · exact hhalves.1
  all_goals
    simp only [exactWeights2b1]
    omega

theorem fits_weights2b2 (hn : n.Positive) (hscale : 1 ≤ scale ∧ scale ≤ int32Max)
    (he3 : 3 * n.e ≤ int64Max) (hm2 : 2 * n.m ≤ int64Max) (hd3 : 3 * n.d ≤ int64Max) :
    (weights2b2 n scale).Fits 64 ↔
      InSigned 64 (scale * (n.d - 2 * n.e + n.g + n.m)) ∧
        InSigned 64 (scale * (n.d - 2 * n.m + n.g + n.e)) := by
  simp only [weights2b2, fits_bind, fits_add, value_add, fits_sub, value_sub, fits_mul, value_mul,
    fits_div, value_div, fits_pure, and_true]
  obtain ⟨⟨hg, hgmax⟩, ⟨hm, hmmax⟩, ⟨he, hemax⟩, hd, hdmax⟩ := hn
  refine ⟨fun h => ?_, fun h => ?_⟩
  · simp only [inSigned_iff] at h ⊢
    omega
  · obtain ⟨hed, hmd⟩ := h
    have hed' := scaled_bounds 3 (3 * n.d) hscale.1 hed (by decide) (by omega)
    have hmd' := scaled_bounds 3 (3 * n.d) hscale.1 hmd (by decide) (by omega)
    obtain ⟨hscale1, hscalemax⟩ := hscale
    simp only [int64Max_eq, int32Max, inSigned_iff] at *
    split_ifs
    all_goals omega

theorem value_weights2b2 : (weights2b2 n scale).value = exactWeights2b2 n scale := by
  have hmax : ∀ x : ℤ, (if x < 0 then 0 else x) = max 0 x := by
    intro x
    rw [max_def_lt]
    split_ifs
    all_goals omega
  simp [weights2b2, exactWeights2b2, hmax]

theorem sumsFit_weights2b2 (hn : n.Positive) (hscale : 1 ≤ scale ∧ scale ≤ int32Max)
    (hed : InSigned 64 (scale * (n.d - 2 * n.e + n.g + n.m)))
    (hmd : InSigned 64 (scale * (n.d - 2 * n.m + n.g + n.e))) :
    SumsFit (exactWeights2b2 n scale) scale := by
  have hd := hn.d.1
  have hed := scaled_bounds 3 (3 * n.d) hscale.1 hed (by decide) (by omega)
  have hmd := scaled_bounds 3 (3 * n.d) hscale.1 hmd (by decide) (by omega)
  obtain ⟨hscale1, hscalemax⟩ := hscale
  unfold int32Max at hscalemax
  constructor
  all_goals
    simp only [exactWeights2b2, inSigned_iff]
    omega

theorem fits_excess {x m : ℤ} (hscale : 1 ≤ scale) (hx : 0 < x ∧ 3 * x ≤ int64Max) (hm : 0 < m) :
    (excess scale x m).Fits 64 ↔ (m ≤ x → scale * (x - m) ≤ int64Max) := by
  rw [int64Max_eq] at hx
  simp only [excess, fits_ite, fits_bind, fits_sub, value_sub, fits_mul, value_mul, fits_div,
    fits_pure]
  split_ifs with hless
  · exact iff_of_true trivial fun hle => absurd hless (not_lt.mpr hle)
  · have hle : m ≤ x := not_lt.mp hless
    have hnonneg : 0 ≤ scale * (x - m) := mul_nonneg (by omega) (by omega)
    rw [inSigned_of_nonneg hnonneg]
    refine ⟨fun h _ => h.2.1, fun h => ?_⟩
    have hfits := (inSigned_of_nonneg hnonneg).mpr (h hle)
    have hquot := hfits.tdiv (k := 2 * x) (by omega)
    refine ⟨inSigned_iff.mpr (by omega), h hle, inSigned_iff.mpr (by omega), by omega, hquot⟩

theorem value_excess {x m : ℤ} (hscale : 1 ≤ scale) (hx : 0 < x) (hm : 0 < m) :
    0 ≤ (excess scale x m).value ∧ (excess scale x m).value ≤ scale := by
  simp only [excess, value_ite, value_bind, value_sub, value_mul, value_div, value_pure]
  split_ifs with hless
  · omega
  · have hnonneg : 0 ≤ scale * (x - m) := mul_nonneg (by omega) (by omega)
    refine ⟨Int.tdiv_nonneg hnonneg (by omega), ?_⟩
    rw [Int.tdiv_eq_ediv_of_nonneg hnonneg]
    refine Int.ediv_le_of_le_mul (by omega) (mul_le_mul_of_nonneg_left ?_ (by omega))
    omega

theorem fits_weights3a (hn : n.Positive) (hscale : 1 ≤ scale ∧ scale ≤ int32Max)
    (he3 : 3 * n.e ≤ int64Max) (hg3 : 3 * n.g ≤ int64Max) :
    (weights3a n scale).Fits 64 ↔ Fits3a n scale := by
  have hsub : ∀ x : ℤ, 0 ≤ x ∧ x ≤ scale → InSigned 64 (scale - x) := by
    intro x hx
    obtain ⟨hscale1, hscalemax⟩ := hscale
    unfold int32Max at hscalemax
    exact inSigned_iff.mpr (by omega)
  have he := value_excess hscale.1 hn.e.1 hn.m.1
  have hg := value_excess hscale.1 hn.g.1 hn.m.1
  simp only [weights3a, fits_ite, fits_bind, fits_sub, fits_pure, and_true, hsub _ he, hsub _ hg,
    fits_excess hscale.1 ⟨hn.e.1, he3⟩ hn.m.1, fits_excess hscale.1 ⟨hn.g.1, hg3⟩ hn.m.1, Fits3a]

theorem right_weights3a (hn : n.Positive) (hscale : 1 ≤ scale) :
    (weights3a n scale).value.Right scale := by
  have he := value_excess hscale hn.e.1 hn.m.1
  have hg := value_excess hscale hn.g.1 hn.m.1
  simp only [weights3a, value_ite, value_bind, value_sub, value_pure]
  split_ifs
  · refine ⟨by simp, by simp, by simp, rangeCheck_iff.mpr ?_⟩
    dsimp only
    omega
  · refine ⟨by simp, by simp, by simp, rangeCheck_iff.mpr ?_⟩
    dsimp only
    omega

theorem right_weights2a (hscale : 1 ≤ scale) : (weights2a n scale).Right scale := by
  rw [weights2a]
  split_ifs
  · refine ⟨by simp, by simp, by simp, rangeCheck_iff.mpr ?_⟩
    dsimp only
    omega
  · refine ⟨by simp, by simp, by simp, rangeCheck_iff.mpr ?_⟩
    dsimp only
    omega

theorem fits_weights3b (hn : n.Positive) (hscale : 1 ≤ scale ∧ scale ≤ int32Max)
    (he3 : 3 * n.e ≤ int64Max) (hg3 : 3 * n.g ≤ int64Max) (hd3 : 3 * n.d ≤ int64Max) :
    (weights3b n scale).Fits 64 ↔ Numerators3b n scale := by
  simp only [weights3b, fits_ite, fits_bind, fits_add, value_add, fits_sub, value_sub, fits_mul,
    value_mul, fits_div, value_div, fits_pure, and_true, Numerators3b]
  obtain ⟨⟨hg, -⟩, ⟨hm, -⟩, ⟨he, -⟩, hd, -⟩ := hn
  have hepos : 0 ≤ scale * (n.e + n.m) := mul_nonneg (by omega) (by omega)
  have hgpos : 0 ≤ scale * (n.g + n.m) := mul_nonneg (by omega) (by omega)
  split_ifs
  · refine ⟨fun h => ?_, fun h => ?_⟩
    · simp only [inSigned_iff] at h ⊢
      rw [int64Max_eq]
      omega
    · obtain ⟨hgd, hee⟩ := h
      have hgd := scaled_bounds 3 (3 * n.d) hscale.1 hgd (by decide) (by omega)
      have hee := scaled_bounds 2 (2 * n.e) hscale.1 ((inSigned_of_nonneg hepos).mpr hee) (by decide)
        (by omega)
      have hhalf := two_mul_tdiv_two (scale - (scale * (n.d - 2 * n.g + n.e + n.m)).tdiv (3 * n.d))
      obtain ⟨hscale1, hscalemax⟩ := hscale
      simp only [int64Max_eq, int32Max, inSigned_iff] at *
      omega
  · refine ⟨fun h => ?_, fun h => ?_⟩
    · simp only [inSigned_iff] at h ⊢
      rw [int64Max_eq]
      omega
    · obtain ⟨hed, hgg⟩ := h
      have hed := scaled_bounds 3 (3 * n.d) hscale.1 hed (by decide) (by omega)
      have hgg := scaled_bounds 2 (2 * n.g) hscale.1 ((inSigned_of_nonneg hgpos).mpr hgg) (by decide)
        (by omega)
      have hhalf := two_mul_tdiv_two (scale - (scale * (n.d - 2 * n.e + n.g + n.m)).tdiv (3 * n.d))
      obtain ⟨hscale1, hscalemax⟩ := hscale
      simp only [int64Max_eq, int32Max, inSigned_iff] at *
      omega

theorem value_weights3b : (weights3b n scale).value = exactWeights3b n scale := by
  simp [weights3b, exactWeights3b]

theorem sumsFit_weights3b (hn : n.Positive) (hscale : 1 ≤ scale ∧ scale ≤ int32Max)
    (hparts : Numerators3b n scale) : SumsFit (exactWeights3b n scale) scale := by
  unfold Numerators3b at hparts
  unfold exactWeights3b
  split_ifs at hparts ⊢
  · have hhalves := halves_bounds hscale hparts.1 hn.d.1
    obtain ⟨hscale1, hscalemax⟩ := hscale
    unfold int32Max at hscalemax
    constructor
    · rw [← two_mul]
      exact hhalves.2.1
    all_goals
      dsimp only
      omega
  · have hhalves := halves_bounds hscale hparts.1 hn.d.1
    obtain ⟨hscale1, hscalemax⟩ := hscale
    unfold int32Max at hscalemax
    constructor
    · exact hhalves.1
    all_goals
      dsimp only
      omega

/-! ### The computation -/

theorem fits_checked : (checked w scale n).Fits 64 ↔
    (networkstatusCheckWeights w scale n 10 true).Fits 64 := by
  simp [checked]

theorem fits_weights2b (hn : n.Positive) (hscale : 1 ≤ scale ∧ scale ≤ int32Max)
    (he3 : 3 * n.e ≤ int64Max) : (weights2b n scale).Fits 64 ↔ Fits2b n scale := by
  simp only [weights2b, fits_bind, fits_ite, fits_pure, and_true]
  rw [value_weights2b1, value_weights2b2, fits_weights2b1 hn hscale he3, Fits2b, Fits2b1]
  refine ⟨fun h => ?_, fun h => ?_⟩
  · obtain ⟨hparts, hcheck, hsecond⟩ := h
    obtain ⟨hg4, hm2, hd3, hpartial, hee, hed, hme⟩ := hparts
    rw [fits_check hn hscale (sumsFit_weights2b1 hn hscale hed)] at hcheck
    refine ⟨⟨hg4, hm2, hd3, hpartial, hee, hed, hme, hcheck⟩, fun herr => ?_⟩
    rw [if_neg herr, fits_weights2b2 hn hscale he3 hm2 hd3] at hsecond
    obtain ⟨⟨hed2, hmd2⟩, hcheck2⟩ := hsecond
    exact ⟨hed2, hmd2, (fits_check hn hscale (sumsFit_weights2b2 hn hscale hed2 hmd2)).mp hcheck2⟩
  · obtain ⟨hfirst, hsecond⟩ := h
    obtain ⟨hg4, hm2, hd3, hpartial, hee, hed, hme, hcheck⟩ := hfirst
    refine ⟨⟨hg4, hm2, hd3, hpartial, hee, hed, hme⟩,
      (fits_check hn hscale (sumsFit_weights2b1 hn hscale hed)).mpr hcheck, ?_⟩
    by_cases herr : (networkstatusCheckWeights (exactWeights2b1 n scale) scale n 10 true).value =
        .noError
    · rw [if_pos herr]
      trivial
    · obtain ⟨hed2, hmd2, hcheck2⟩ := hsecond herr
      rw [if_neg herr]
      exact ⟨(fits_weights2b2 hn hscale he3 hm2 hd3).mpr ⟨hed2, hmd2⟩,
        (fits_check hn hscale (sumsFit_weights2b2 hn hscale hed2 hmd2)).mpr hcheck2⟩

theorem fits_computeWeights (hn : n.Positive) (hscale : 1 ≤ scale ∧ scale ≤ int32Max) :
    (computeWeights n scale).Fits 64 ↔ ProductsFit n scale := by
  have hpos : ¬ (n.g ≤ 0 ∨ n.m ≤ 0 ∨ n.e ≤ 0 ∨ n.d ≤ 0) := by
    have hg := hn.g.1
    have hm := hn.m.1
    have he := hn.e.1
    have hd := hn.d.1
    omega
  have he0 : 0 ≤ 3 * n.e := mul_nonneg (by decide) hn.e.1.le
  have hg0 : 0 ≤ 3 * n.g := mul_nonneg (by decide) hn.g.1.le
  rw [computeWeights, if_neg hpos, ProductsFit]
  simp only [fits_bind, fits_mul, value_mul, fits_add, value_add, fits_ite, fits_pure, and_true,
    inSigned_of_nonneg he0, inSigned_of_nonneg hg0]
  refine and_congr_right fun he3 => and_congr_right fun hg3 => ?_
  by_cases hcase1 : n.t ≤ 3 * n.e ∧ n.t ≤ 3 * n.g
  · rw [if_pos hcase1, if_pos hcase1, fits_weights1 hn hscale he3 hg3, fits_checked, value_weights1,
      fits_check hn hscale (sumsFit_weights1 hscale), Fits1, and_assoc]
  rw [if_neg hcase1, if_neg hcase1]
  by_cases hcase2 : 3 * n.e < n.t ∧ 3 * n.g < n.t
  · have hsum0 : 0 ≤ min n.e n.g + n.d := add_nonneg (le_min hn.e.1.le hn.g.1.le) hn.d.1.le
    rw [if_pos hcase2, if_pos hcase2, inSigned_of_nonneg hsum0]
    refine and_congr_right fun _ => ?_
    by_cases ha : min n.e n.g + n.d < max n.e n.g
    · rw [if_pos ha]
      exact iff_of_true trivial fun hb => absurd ha (not_lt.mpr hb)
    · rw [if_neg ha, fits_weights2b hn hscale he3]
      exact ⟨fun h _ => h, fun h => h (not_lt.mp ha)⟩
  rw [if_neg hcase2, if_neg hcase2]
  have hmin : 0 < min n.e n.g := lt_min hn.e.1 hn.g.1
  have hd := hn.d.1
  have hsum : InSigned 64 (min n.e n.g + n.d) ∧ InSigned 64 (3 * (min n.e n.g + n.d)) ↔
      3 * (min n.e n.g + n.d) ≤ int64Max := by
    rw [inSigned_iff, inSigned_iff, int64Max_eq]
    omega
  rw [← and_assoc, hsum]
  refine and_congr_right fun hle => ?_
  have hd3 : 3 * n.d ≤ int64Max := by omega
  by_cases ha : 3 * (min n.e n.g + n.d) < n.t
  · rw [if_pos ha, if_pos ha, fits_weights3a hn hscale he3 hg3]
  · rw [if_neg ha, if_neg ha, fits_weights3b hn hscale he3 hg3 hd3, Fits3b, fits_checked,
      value_weights3b]
    exact and_congr_right fun hparts => fits_check hn hscale (sumsFit_weights3b hn hscale hparts)

theorem right_checked (h : (checked w scale n).value = some w') : w'.Right scale := by
  simp only [checked, value_bind, value_pure] at h
  split_ifs at h with herr
  · rw [← Option.some.inj h]
    exact right_of_check (Or.inl herr)

theorem right_weights2b (h : (weights2b n scale).value = some w') : w'.Right scale := by
  simp only [weights2b, value_bind, value_ite, value_pure] at h
  split_ifs at h with herr herr2
  · rw [← Option.some.inj h]
    exact right_of_check (Or.inl herr)
  · rw [← Option.some.inj h]
    exact right_of_check herr2

theorem right_computeWeights (hn : n.Positive) (hscale : 1 ≤ scale)
    (h : (computeWeights n scale).value = some w) : w.Right scale := by
  simp only [computeWeights, value_ite, value_bind, value_mul, value_add, value_pure] at h
  split_ifs at h
  · exact right_checked h
  · rw [← Option.some.inj h]
    exact right_weights2a hscale
  · exact right_weights2b h
  · rw [← Option.some.inj h]
    exact right_weights3a hn hscale
  · exact right_checked h

theorem lineRight_bandwidthWeights (hscale : 1 ≤ scale ∧ scale ≤ int32Max) (hw : w.Right scale) :
    LineRight (bandwidthWeights w scale) scale := by
  have hnarrow : ∀ x : ℤ, 0 ≤ x ∧ x ≤ scale → int32 x = x := by
    intro x hx
    obtain ⟨hscale1, hscalemax⟩ := hscale
    unfold int32Max at hscalemax
    exact Int.bmod_eq_of_le (by omega) (by omega)
  obtain ⟨hgg, hgd, hmg, hme, hmd, hed, hee⟩ := rangeCheck_iff.mp hw.range
  have hscale' : 0 ≤ scale ∧ scale ≤ scale := ⟨by omega, le_rfl⟩
  simp only [bandwidthWeights, hnarrow _ hgg, hnarrow _ hgd, hnarrow _ hmg, hnarrow _ hme,
    hnarrow _ hmd, hnarrow _ hed, hnarrow _ hee, hnarrow _ hscale']
  refine ⟨?_, ?_, ?_, ?_⟩
  · simp only [List.mem_cons, List.not_mem_nil, or_false, forall_eq_or_imp, forall_eq]
    exact ⟨hmd, hme, hmg, hscale', hscale', hscale', hed, hee, hed, hee, hscale', hgd, hgg, hgg,
      hscale', hmd, hme, hmg, hscale'⟩
  · change |w.wgg + w.wmg - scale| ≤ 10
    rw [add_comm w.wgg]
    exact hw.guard
  · change |w.wee + w.wme - scale| ≤ 10
    rw [add_comm w.wee]
    exact hw.exit
  · change |w.wgd + w.wmd + w.wed - scale| ≤ 10
    rw [add_comm w.wgd, add_right_comm, add_comm w.wmd]
    exact hw.both

/-! ### The totals of a consensus -/

/-- The totals are values of an `int64_t`. -/
structure Totals.InRange (n : Totals) : Prop where
  g : n.g ≤ int64Max
  m : n.m ≤ int64Max
  e : n.e ≤ int64Max
  d : n.d ≤ int64Max

theorem int64_le (x : ℤ) : int64 x ≤ int64Max := by
  have hlt := Int.bmod_lt (x := x) (m := 2 ^ 64) (by decide)
  rw [int64, int64Max_eq]
  omega

variable {lroundShare : ℤ → ℕ → ℤ}

theorem updateTotalBandwidthWeights_inRange (rs : Routerstatus) (isExit isGuard : Bool)
    (hn : n.InRange) : (updateTotalBandwidthWeights lroundShare rs isExit isGuard n).InRange := by
  obtain ⟨hg, hm, he, hd⟩ := hn
  simp only [updateTotalBandwidthWeights]
  split_ifs
  all_goals
    constructor
    all_goals first
      | assumption
      | exact int64_le _

theorem totals_inRange (lroundShare : ℤ → ℕ → ℤ) (relays : List Routerstatus) :
    (totals lroundShare relays).InRange := by
  have hstep : ∀ n : Totals, n.InRange → (relays.foldl (fun n rs => updateTotalBandwidthWeights
      lroundShare rs (rs.isExit && !rs.isBadExit) rs.isGuard n) n).InRange := by
    induction relays with
    | nil => exact fun n hn => hn
    | cons rs relays ih =>
      exact fun n hn => ih _ (updateTotalBandwidthWeights_inRange rs _ _ hn)
  refine hstep _ ?_
  constructor
  all_goals decide

/-- For every line that is written: nothing has overflowed and its weights are right exactly if the
products of the case that the totals are in fit. -/
theorem bandwidthWeights_iff (lroundShare : ℤ → ℕ → ℤ) (relays : List Routerstatus) {scale : ℤ}
    (hpos : 1 ≤ scale) (hmax : scale ≤ int32Max) {line : List (String × ℤ)}
    (hline : (networkstatusComputeBwWeightsV10 (totals lroundShare relays) scale).value = some line) :
    ((networkstatusComputeBwWeightsV10 (totals lroundShare relays) scale).ok = true ∧
        LineRight line scale) ↔
      ProductsFit (totals lroundShare relays) scale := by
  have hrange := totals_inRange lroundShare relays
  generalize totals lroundShare relays = n at hrange hline ⊢
  have hok : (networkstatusComputeBwWeightsV10 n scale).ok = ((computeWeights n scale).run 64).ok :=
    Bool.and_true _
  have hvalue : (networkstatusComputeBwWeightsV10 n scale).value =
      ((computeWeights n scale).run 64).value.map fun w => bandwidthWeights w scale := rfl
  have hn : n.Positive := by
    by_cases hempty : n.g ≤ 0 ∨ n.m ≤ 0 ∨ n.e ≤ 0 ∨ n.d ≤ 0
    · rw [hvalue, computeWeights, if_pos hempty] at hline
      cases hline
    · exact ⟨⟨by omega, hrange.g⟩, ⟨by omega, hrange.m⟩, ⟨by omega, hrange.e⟩, by omega, hrange.d⟩
  have hfits := (run_ok_iff (w := 64) (by decide) (computeWeights n scale)).trans
    (fits_computeWeights hn ⟨hpos, hmax⟩)
  rw [hok, hfits]
  refine and_iff_left_of_imp fun hproducts => ?_
  have hexact := run_value (w := 64) (by decide)
    ((fits_computeWeights hn ⟨hpos, hmax⟩).mpr hproducts)
  rw [hvalue, hexact] at hline
  obtain ⟨w, hw, rfl⟩ := Option.map_eq_some_iff.mp hline
  exact lineRight_bandwidthWeights ⟨hpos, hmax⟩ (right_computeWeights hn hpos hw)

def exitRelay (bandwidthKb : ℕ) (h : bandwidthKb < 2 ^ 32) : Routerstatus where
  bandwidthKb := bandwidthKb
  hasBandwidth := true
  guardfractionPercentage := none
  isExit := true
  isGuard := false
  isBadExit := false
  bandwidthKb_lt := h
  isGuard_of_guardfraction h := absurd rfl h
  percentage_le _ h := absurd h (Option.not_mem_none _)

def fastExits : List Routerstatus := List.replicate 3 (exitRelay 2147483647 (by decide))

def nearestShare (b : ℤ) (p : ℕ) : ℤ := (2 * b * p + 100) / 200

def defaultScaleLine : List (String × ℤ) :=
  bandwidthWeights
    { wgg := 10000, wgd := 10000, wmg := 0, wme := 4999, wmd := 0, wee := 5001, wed := 0 } 10000

theorem bandwidthWeights_defaultScale :
    (networkstatusComputeBwWeightsV10 (totals nearestShare fastExits) 10000).value =
        some defaultScaleLine ∧
      (((networkstatusComputeBwWeightsV10 (totals nearestShare fastExits) 10000).ok = true ∧
          LineRight defaultScaleLine 10000) ↔
        ProductsFit (totals nearestShare fastExits) 10000) :=
  have hline : (networkstatusComputeBwWeightsV10 (totals nearestShare fastExits) 10000).value =
      some defaultScaleLine := by decide +kernel
  ⟨hline, bandwidthWeights_iff nearestShare fastExits (by decide) (by decide) hline⟩

def largeScaleLine : List (String × ℤ) :=
  bandwidthWeights
    { wgg := int32Max, wgd := int32Max, wmg := 0, wme := -357913942, wmd := 0, wee := -1789569707
      wed := 0 } int32Max

/-- Three fast exits at the largest scale: a product wraps, no check follows, and a negative weight
is written. -/
theorem bandwidthWeights_largeScale :
    (networkstatusComputeBwWeightsV10 (totals nearestShare fastExits) int32Max).value =
        some largeScaleLine ∧
      (networkstatusComputeBwWeightsV10 (totals nearestShare fastExits) int32Max).ok = false ∧
      ("Wme", -357913942) ∈ largeScaleLine ∧ ¬ LineRight largeScaleLine int32Max := by
  have hmem : ("Wme", -357913942) ∈ largeScaleLine := by decide +kernel
  exact ⟨by decide +kernel, by decide +kernel, hmem,
    fun h => absurd (h.range _ hmem).1 (by decide)⟩

end BwWeights
