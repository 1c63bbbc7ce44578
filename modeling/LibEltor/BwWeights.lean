/-
The bandwidth weights of a consensus (`feature/dirauth/dirvote.c`).

The weights are formulas in the total bandwidths of the guards, the exits, the relays that are both,
and the rest.  Which formulas depends on what is scarce; most results are checked before the line is
written, those of cases 2a and 3a are not.
-/
import LibEltor.Formula

open Formula

namespace BwWeights

def int32Max : ℤ := 2 ^ 31 - 1

/-- A value as an `int`. -/
def int32 (x : ℤ) : ℤ := x.bmod (2 ^ 32)

/-- A value as an `int64_t`. -/
def int64 (x : ℤ) : ℤ := x.bmod (2 ^ 64)

structure Routerstatus where
  bandwidthKb : ℕ
  hasBandwidth : Bool
  guardfractionPercentage : Option ℕ
  isExit : Bool
  isGuard : Bool
  isBadExit : Bool
  bandwidthKb_lt : bandwidthKb < 2 ^ 32
  isGuard_of_guardfraction : guardfractionPercentage ≠ none → isGuard = true
  percentage_le : ∀ p ∈ guardfractionPercentage, p ≤ 100

structure GuardfractionBandwidth where
  guardBw : ℤ
  nonGuardBw : ℤ

/-- `lroundShare b p` is `p` percent of `b`, computed in floating point and rounded. -/
def guardGetGuardfractionBandwidth (lroundShare : ℤ → ℕ → ℤ) (origBandwidth : ℤ) (percentage : ℕ) :
    GuardfractionBandwidth :=
  let guardBw := int32 (lroundShare origBandwidth percentage)
  ⟨guardBw, int32 (origBandwidth - guardBw)⟩

structure Totals where
  g : ℤ
  m : ℤ
  e : ℤ
  d : ℤ
  t : ℤ
deriving DecidableEq, Repr

def updateTotalBandwidthWeights (lroundShare : ℤ → ℕ → ℤ) (rs : Routerstatus) (isExit isGuard : Bool)
    (n : Totals) : Totals :=
  if rs.hasBandwidth = false then n
  else
    let bw : GuardfractionBandwidth :=
      match rs.guardfractionPercentage with
      | some p => guardGetGuardfractionBandwidth lroundShare (int32 rs.bandwidthKb) p
      | none => ⟨int32 rs.bandwidthKb, 0⟩
    let n := { n with t := int64 (n.t + bw.guardBw) }
    let hasGuardfraction := rs.guardfractionPercentage.isSome
    if isExit && isGuard then
      { n with
        d := int64 (n.d + bw.guardBw)
        e := if hasGuardfraction then int64 (n.e + bw.nonGuardBw) else n.e }
    else if isExit then { n with e := int64 (n.e + bw.guardBw) }
    else if isGuard then
      { n with
        g := int64 (n.g + bw.guardBw)
        m := if hasGuardfraction then int64 (n.m + bw.nonGuardBw) else n.m }
    else { n with m := int64 (n.m + bw.guardBw) }

/-- The totals start at one, and an exit that is a bad exit does not count as one. -/
def totals (lroundShare : ℤ → ℕ → ℤ) (relays : List Routerstatus) : Totals :=
  relays.foldl
    (fun n rs =>
      updateTotalBandwidthWeights lroundShare rs (rs.isExit && !rs.isBadExit) rs.isGuard n)
    ⟨1, 1, 1, 1, 4⟩

/-! ### The check -/

structure Weights where
  wgg : ℤ
  wgd : ℤ
  wmg : ℤ
  wme : ℤ
  wmd : ℤ
  wee : ℤ
  wed : ℤ
deriving DecidableEq, Repr

inductive WeightsError
  | noError
  | rangeError
  | sumgError
  | sumeError
  | sumdError
  | balanceMidError
  | balanceEgError
deriving DecidableEq, Repr

def inRange (mx x : ℤ) : Bool := decide (0 ≤ x) && decide (x ≤ mx)

def rangeCheck (w : Weights) (mx : ℤ) : Bool :=
  inRange mx w.wgg && inRange mx w.wgd && inRange mx w.wmg && inRange mx w.wme &&
    inRange mx w.wmd && inRange mx w.wed && inRange mx w.wee

def checkEq (a b margin : ℤ) : Formula Bool := do
  let diff ← sub a b
  if 0 ≤ diff then return diff ≤ margin
  else return (← sub b a) ≤ margin

/-- `Wgg*G + Wgd*D` -/
def guardTotal (w : Weights) (n : Totals) : Formula ℤ := do
  add (← mul w.wgg n.g) (← mul w.wgd n.d)

/-- `Wee*E + Wed*D` -/
def exitTotal (w : Weights) (n : Totals) : Formula ℤ := do
  add (← mul w.wee n.e) (← mul w.wed n.d)

/-- `M*scale + Wmd*D + Wme*E + Wmg*G` -/
def middleTotal (w : Weights) (scale : ℤ) (n : Totals) : Formula ℤ := do
  let sum ← add (← mul n.m scale) (← mul w.wmd n.d)
  let sum ← add sum (← mul w.wme n.e)
  add sum (← mul w.wmg n.g)

def checkBalance (w : Weights) (scale : ℤ) (n : Totals) (margin : ℤ) : Formula WeightsError := do
  let guard ← guardTotal w n
  let exit ← exitTotal w n
  let allowed ← div (← mul margin n.t) 3
  if (← checkEq guard exit allowed) = false then return .balanceEgError
  else
    let middle ← middleTotal w scale n
    if (← checkEq guard middle allowed) = false then return .balanceMidError
    else return .noError

def networkstatusCheckWeights (w : Weights) (scale : ℤ) (n : Totals) (margin : ℤ) (doBalance : Bool) :
    Formula WeightsError := do
  let sum ← add (← add w.wed w.wmd) w.wgd
  if (← checkEq sum scale margin) = false then return .sumdError
  else if (← checkEq (← add w.wmg w.wgg) scale margin) = false then return .sumgError
  else if (← checkEq (← add w.wme w.wee) scale margin) = false then return .sumeError
  else if rangeCheck w scale = false then return .rangeError
  else if doBalance then checkBalance w scale n margin
  else return .noError

/-! ### The weights -/

def weights1 (n : Totals) (scale : ℤ) : Formula Weights := do
  let third ← div scale 3
  let wee ← div (← mul scale (← add (← add n.e n.g) n.m)) (← mul 3 n.e)
  let wme ← sub scale wee
  let wmg ← div (← mul scale (← sub (← sub (← mul 2 n.g) n.e) n.m)) (← mul 3 n.g)
  let wgg ← sub scale wmg
  return { wgg := wgg, wgd := third, wmg := wmg, wme := wme, wmd := third, wee := wee, wed := third }

/-- Case 2a: both are scarce, and one more so by all relays that are both. -/
def weights2a (n : Totals) (scale : ℤ) : Weights :=
  if n.e < n.g then
    { wgg := scale, wgd := 0, wmg := 0, wme := 0, wmd := 0, wee := scale, wed := scale }
  else { wgg := scale, wgd := scale, wmg := 0, wme := 0, wmd := 0, wee := scale, wed := 0 }

def weights2b1 (n : Totals) (scale : ℤ) : Formula Weights := do
  let wee ← div (← mul scale (← add (← sub n.e n.g) n.m)) n.e
  let balance ← sub (← add (← sub n.d (← mul 2 n.e)) (← mul 4 n.g)) (← mul 2 n.m)
  let wed ← div (← mul scale balance) (← mul 3 n.d)
  let wme ← div (← mul scale (← sub n.g n.m)) n.e
  let half ← div (← sub scale wed) 2
  return { wgg := scale, wgd := half, wmg := 0, wme := wme, wmd := half, wee := wee, wed := wed }

def weights2b2 (n : Totals) (scale : ℤ) : Formula Weights := do
  let balance ← add (← add (← sub n.d (← mul 2 n.e)) n.g) n.m
  let wed ← div (← mul scale balance) (← mul 3 n.d)
  let balance ← add (← add (← sub n.d (← mul 2 n.m)) n.g) n.e
  let wmd ← div (← mul scale balance) (← mul 3 n.d)
  let wmd := if wmd < 0 then 0 else wmd
  let wgd ← sub (← sub scale wed) wmd
  return { wgg := scale, wgd := wgd, wmg := 0, wme := 0, wmd := wmd, wee := scale, wed := wed }

/-- What of a pool with `x` is to move to the middle, which has `m`: half of what it has more. -/
def excess (scale x m : ℤ) : Formula ℤ := do
  if x < m then return 0
  else div (← mul scale (← sub x m)) (← mul 2 x)

def weights3a (n : Totals) (scale : ℤ) : Formula Weights := do
  if n.g < n.e then
    let wme ← excess scale n.e n.m
    let wee ← sub scale wme
    return { wgg := scale, wgd := scale, wmg := 0, wme := wme, wmd := 0, wee := wee, wed := 0 }
  else
    let wmg ← excess scale n.g n.m
    let wgg ← sub scale wmg
    return { wgg := wgg, wgd := 0, wmg := wmg, wme := 0, wmd := 0, wee := scale, wed := scale }

/-- Case 3b: one is scarce, but not together with the relays that are both. -/
def weights3b (n : Totals) (scale : ℤ) : Formula Weights := do
  if n.g < n.e then
    let balance ← add (← add (← sub n.d (← mul 2 n.g)) n.e) n.m
    let wgd ← div (← mul scale balance) (← mul 3 n.d)
    let wee ← div (← mul scale (← add n.e n.m)) (← mul 2 n.e)
    let wme ← sub scale wee
    let half ← div (← sub scale wgd) 2
    return { wgg := scale, wgd := wgd, wmg := 0, wme := wme, wmd := half, wee := wee, wed := half }
  else
    let balance ← add (← add (← sub n.d (← mul 2 n.e)) n.g) n.m
    let wed ← div (← mul scale balance) (← mul 3 n.d)
    let wgg ← div (← mul scale (← add n.g n.m)) (← mul 2 n.g)
    let wmg ← sub scale wgg
    let half ← div (← sub scale wed) 2
    return { wgg := wgg, wgd := half, wmg := wmg, wme := 0, wmd := half, wee := scale, wed := wed }

def checked (w : Weights) (scale : ℤ) (n : Totals) : Formula (Option Weights) := do
  let berr ← networkstatusCheckWeights w scale n 10 true
  return if berr = .noError then some w else none

def weights2b (n : Totals) (scale : ℤ) : Formula (Option Weights) := do
  let w ← weights2b1 n scale
  let berr ← networkstatusCheckWeights w scale n 10 true
  if berr = .noError then return some w
  else
    let w ← weights2b2 n scale
    let berr ← networkstatusCheckWeights w scale n 10 true
    return if berr = .noError ∨ berr = .balanceMidError then some w else none

def computeWeights (n : Totals) (scale : ℤ) : Formula (Option Weights) := do
  if n.g ≤ 0 ∨ n.m ≤ 0 ∨ n.e ≤ 0 ∨ n.d ≤ 0 then return none
  else
    let e3 ← mul 3 n.e
    let g3 ← mul 3 n.g
    if n.t ≤ e3 ∧ n.t ≤ g3 then checked (← weights1 n scale) scale n
    else if e3 < n.t ∧ g3 < n.t then
      if (← add (min n.e n.g) n.d) < max n.e n.g then return some (weights2a n scale)
      else weights2b n scale
    else if (← mul 3 (← add (min n.e n.g) n.d)) < n.t then return some (← weights3a n scale)
    else checked (← weights3b n scale) scale n

/-- The weights as they are written, with their keywords; each is narrowed to an `int`. -/
def bandwidthWeights (w : Weights) (scale : ℤ) : List (String × ℤ) :=
  [("Wbd", int32 w.wmd), ("Wbe", int32 w.wme), ("Wbg", int32 w.wmg), ("Wbm", int32 scale),
    ("Wdb", int32 scale),
    ("Web", int32 scale), ("Wed", int32 w.wed), ("Wee", int32 w.wee), ("Weg", int32 w.wed),
    ("Wem", int32 w.wee),
    ("Wgb", int32 scale), ("Wgd", int32 w.wgd), ("Wgg", int32 w.wgg), ("Wgm", int32 w.wgg),
    ("Wmb", int32 scale), ("Wmd", int32 w.wmd), ("Wme", int32 w.wme), ("Wmg", int32 w.wmg),
    ("Wmm", int32 scale)]

/-- The weights of the line `"bandwidth-weights Wbd=%d …\n"`, if it is written. -/
def networkstatusComputeBwWeightsV10 (n : Totals) (scale : ℤ) :
    Checked (Option (List (String × ℤ))) := do
  let w ← (computeWeights n scale).run 64
  return w.map fun w => bandwidthWeights w scale

end BwWeights
