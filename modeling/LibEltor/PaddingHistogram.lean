/-
Padding histograms (`circuitpadding.c`).

The bins of a histogram have tokens, and each bin stands for the delays from its edge to the next
one, moved by the estimate of the round trip time where the state uses it.  A cell that is sent in
the place of padding takes a token out of the bin of the time that has passed, or of another bin that
the strategy of the state names.
-/
import Mathlib

namespace CircuitPadding

/-! ### Histograms -/

/-- `circpad_removal_t`, without `CIRCPAD_TOKEN_REMOVAL_NONE`. -/
inductive Removal
  | lower
  | higher
  | closest
  | closestUsec
  | exact

/-- The histogram of a `circpad_state_t`; `histogram_len` is the length of the list. -/
structure CircpadState where
  histogram : List UInt32
  histogramEdges : ℕ → UInt32
  histogramTotalTokens : UInt32
  useRttEstimate : Bool
  tokenRemoval : Option Removal

def delayInfinite : UInt32 := 0xFFFFFFFF

def infinityBin (histogram : List UInt32) : ℕ := histogram.length - 1

def paddingMachineStateIsValid (state : CircpadState) : Bool :=
  if state.histogram.length = 0 then true
  else if state.histogram.length < 2 then false
  else
    ((List.range state.histogram.length).all fun b =>
      !(decide (state.histogramEdges b ≤ state.histogramEdges (b - 1)) && decide (0 < b))) &&
    decide (state.histogram.sum = state.histogramTotalTokens)

def rttAddUsec (state : CircpadState) (rtt : UInt32) : UInt32 :=
  if state.useRttEstimate then rtt else 0

def histogramBinToUsec (state : CircpadState) (rtt : UInt32) (bin : ℕ) : UInt32 :=
  if infinityBin state.histogram < bin then delayInfinite
  else state.histogramEdges bin + rttAddUsec state rtt

def getBinUpperBound (state : CircpadState) (rtt : UInt32) (bin : ℕ) : UInt32 :=
  histogramBinToUsec state rtt (bin + 1) - 1

def getHistogramBinMidpoint (state : CircpadState) (rtt : UInt32) (bin : ℕ) : UInt32 :=
  histogramBinToUsec state rtt bin +
    (getBinUpperBound state rtt bin - histogramBinToUsec state rtt bin) / 2

/-- The estimate is in the upper bound already, and is added to it again. -/
def histogramUsecToBin (state : CircpadState) (rtt usec : UInt32) : ℕ :=
  ((List.range (infinityBin state.histogram)).find? fun bin =>
    decide (usec ≤ getBinUpperBound state rtt bin + rttAddUsec state rtt)).getD
      (infinityBin state.histogram - 1)

/-! ### Removal of tokens -/

def tokens (histogram : List UInt32) (bin : ℕ) : UInt32 := histogram.getD bin 0

def takeToken (histogram : List UInt32) (bin : ℕ) : List UInt32 := histogram.modify bin (· - 1)

/-- None where it returns `histogram_len`. -/
def firstHigherIndex (state : CircpadState) (rtt : UInt32) (histogram : List UInt32)
    (target : UInt32) : Option ℕ :=
  let start := histogramUsecToBin state rtt target
  (List.range' start (infinityBin histogram - start)).find? fun bin =>
    decide (tokens histogram bin ≠ 0) && decide (target ≤ getBinUpperBound state rtt bin)

def lastUpTo (p : ℕ → Bool) : ℕ → Option ℕ
  | 0 => if p 0 then some 0 else none
  | bin + 1 => if p (bin + 1) then some (bin + 1) else lastUpTo p bin

/-- None where it returns -1. -/
def firstLowerIndex (state : CircpadState) (rtt : UInt32) (histogram : List UInt32)
    (target : UInt32) : Option ℕ :=
  lastUpTo
    (fun bin => decide (tokens histogram bin ≠ 0) &&
      decide (histogramBinToUsec state rtt bin ≤ target))
    (histogramUsecToBin state rtt target)

/-- None where the bin is empty, which is a `BUG`. -/
def removeAt (histogram : List UInt32) (bin : ℕ) : Option (List UInt32) :=
  if tokens histogram bin = 0 then none else some (takeToken histogram bin)

def removeHigherToken (state : CircpadState) (rtt : UInt32) (histogram : List UInt32)
    (target : UInt32) : Option (List UInt32) :=
  match firstHigherIndex state rtt histogram target with
  | none => some histogram
  | some bin => removeAt histogram bin

def removeLowerToken (state : CircpadState) (rtt : UInt32) (histogram : List UInt32)
    (target : UInt32) : Option (List UInt32) :=
  match firstLowerIndex state rtt histogram target with
  | none => some histogram
  | some bin => removeAt histogram bin

def removeExact (state : CircpadState) (rtt : UInt32) (histogram : List UInt32) (target : UInt32) :
    List UInt32 :=
  let bin := histogramUsecToBin state rtt target
  if 0 < tokens histogram bin then takeToken histogram bin else histogram

def closerByUsec (state : CircpadState) (rtt target : UInt32) (lower higher : ℕ) : ℕ :=
  let lowerUsec := getHistogramBinMidpoint state rtt lower
  let higherUsec := getHistogramBinMidpoint state rtt higher
  if target < lowerUsec then lower
  else if higherUsec < target then higher
  else if higherUsec - target < target - lowerUsec then higher
  else lower

/-- None where a `BUG` is met. -/
def removeClosestToken (state : CircpadState) (rtt : UInt32) (histogram : List UInt32)
    (target : UInt32) (useUsec : Bool) : Option (List UInt32) :=
  let lower := firstLowerIndex state rtt histogram target
  let higher := firstHigherIndex state rtt histogram target
  let current := histogramUsecToBin state rtt target
  if lower.any (fun bin => decide (current < bin)) || higher.any (fun bin => decide (bin < current))
  then none
  else
    match lower, higher with
    | none, none => some histogram
    | some lower, none => removeAt histogram lower
    | none, some higher => removeAt histogram higher
    | some lower, some higher =>
      if useUsec then removeAt histogram (closerByUsec state rtt target lower higher)
      else if higher - current < current - lower then removeAt histogram higher
      else removeAt histogram lower

/-- The switch of `circpad_machine_remove_token`; none where a `BUG` is met. -/
def removeToken (state : CircpadState) (rtt : UInt32) (histogram : List UInt32) (target : UInt32) :
    Removal → Option (List UInt32)
  | .closestUsec => removeClosestToken state rtt histogram target true
  | .closest => removeClosestToken state rtt histogram target false
  | .lower => removeLowerToken state rtt histogram target
  | .higher => removeHigherToken state rtt histogram target
  | .exact => some (removeExact state rtt histogram target)

/-! ### What the bins are for -/

section Spec

variable (state : CircpadState) (rtt : UInt32) (histogram : List UInt32) (usec : UInt32)

structure Valid : Prop where
  isValid : paddingMachineStateIsValid state = true
  nonempty : state.histogram ≠ []

def Fits : Prop :=
  ∀ bin < state.histogram.length,
    (state.histogramEdges bin).toNat + (rttAddUsec state rtt).toNat < 2 ^ 32

def binStart (bin : ℕ) : ℕ := (histogramBinToUsec state rtt bin).toNat

/-- The finite bin that a time is in: the first one below the range, the last one above it. -/
structure BinOf (bin : ℕ) : Prop where
  finite : bin < infinityBin state.histogram
  lower : bin = 0 ∨ binStart state rtt bin ≤ usec.toNat
  upper : bin + 1 = infinityBin state.histogram ∨ usec.toNat < binStart state rtt (bin + 1)

/-- For each bin but the last that the time reaches: the time is below its end with the estimate if
and only if it is with the estimate added twice, in 32 bits. -/
def RttAgrees : Prop :=
  ∀ bin, bin + 1 < infinityBin state.histogram →
    bin = 0 ∨ binStart state rtt bin ≤ usec.toNat →
      (usec.toNat < binStart state rtt (bin + 1) ↔
        usec ≤ getBinUpperBound state rtt bin + rttAddUsec state rtt)

def Stocked : Set ℕ := {bin | bin < infinityBin state.histogram ∧ tokens histogram bin ≠ 0}

def Above : Set ℕ := {bin ∈ Stocked state histogram | usec.toNat < binStart state rtt (bin + 1)}

def Below : Set ℕ := {bin ∈ Stocked state histogram | binStart state rtt bin ≤ usec.toNat}

/-- How far a bin is from a time: not at all if the time is in it, else by its midpoint. -/
def usecDistance (bin : ℕ) : ℕ :=
  if binStart state rtt bin ≤ usec.toNat ∧ usec.toNat < binStart state rtt (bin + 1) then 0
  else Nat.dist (getHistogramBinMidpoint state rtt bin).toNat usec.toNat

def IsClosest (distance : ℕ → ℕ) (s : Set ℕ) (bin : ℕ) : Prop :=
  bin ∈ s ∧ ∀ other ∈ s, distance bin < distance other ∨
    distance bin = distance other ∧ bin ≤ other

def Named : Removal → ℕ → Prop
  | .exact, bin => BinOf state rtt usec bin ∧ tokens histogram bin ≠ 0
  | .higher, bin => IsLeast (Above state rtt histogram usec) bin
  | .lower, bin => IsGreatest (Below state rtt histogram usec) bin
  | .closest, bin => ∃ current, BinOf state rtt usec current ∧
      IsClosest (Nat.dist current) (Stocked state histogram) bin
  | .closestUsec, bin => IsClosest (usecDistance state rtt usec) (Stocked state histogram) bin

/-- One token is taken from the bin that is named, or none if no bin is. -/
def RemovesNamed (removal : Removal) : Prop :=
  (∃ bin ∈ Stocked state histogram, Named state rtt histogram usec removal bin ∧
    removeToken state rtt histogram usec removal = some (takeToken histogram bin)) ∨
  (∀ bin, ¬ Named state rtt histogram usec removal bin) ∧
    removeToken state rtt histogram usec removal = some histogram

end Spec

/-! ### Edges -/

section Edges

variable {state : CircpadState} {rtt usec : UInt32} {histogram : List UInt32} {bin other : ℕ}

theorem Valid.two_le (h : Valid state) : 2 ≤ state.histogram.length := by
  have hvalid := h.isValid
  rw [paddingMachineStateIsValid, if_neg (mt List.eq_nil_of_length_eq_zero h.nonempty)] at hvalid
  by_contra hlt
  rw [if_pos (by omega)] at hvalid
  exact absurd hvalid (by simp)

theorem Valid.infinityBin_pos (h : Valid state) : 0 < infinityBin state.histogram :=
  Nat.sub_pos_of_lt h.two_le

theorem Valid.edges_lt (h : Valid state) (hbin : bin < infinityBin state.histogram) :
    (state.histogramEdges bin).toNat < (state.histogramEdges (bin + 1)).toNat := by
  have hvalid := h.isValid
  have htwo := h.two_le
  rw [infinityBin] at hbin
  rw [paddingMachineStateIsValid, if_neg (by omega), if_neg (by omega), Bool.and_eq_true,
    List.all_eq_true] at hvalid
  have hnot := hvalid.1 (bin + 1) (List.mem_range.mpr (by omega))
  simp only [Nat.add_sub_cancel, Nat.zero_lt_succ, decide_true, Bool.and_true, Bool.not_eq_true',
    decide_eq_false_iff_not, UInt32.le_iff_toNat_le] at hnot
  exact not_le.mp hnot

theorem binStart_eq (hfit : Fits state rtt) (hbin : bin < state.histogram.length) :
    binStart state rtt bin =
      (state.histogramEdges bin).toNat + (rttAddUsec state rtt).toNat := by
  have hfinite : ¬ infinityBin state.histogram < bin := by
    rw [infinityBin]
    omega
  rw [binStart, histogramBinToUsec, if_neg hfinite, UInt32.toNat_add, Nat.mod_eq_of_lt (hfit bin hbin)]

theorem binStart_lt_succ (h : Valid state) (hfit : Fits state rtt)
    (hbin : bin < infinityBin state.histogram) :
    binStart state rtt bin < binStart state rtt (bin + 1) := by
  have hlt := h.edges_lt hbin
  rw [infinityBin] at hbin
  rw [binStart_eq hfit (by omega), binStart_eq hfit (by omega)]
  omega

theorem binStart_le (h : Valid state) (hfit : Fits state rtt) (hle : bin ≤ other)
    (hother : other ≤ infinityBin state.histogram) :
    binStart state rtt bin ≤ binStart state rtt other := by
  induction other, hle using Nat.le_induction with
  | base => exact le_rfl
  | succ other _ ih => exact (ih (by omega)).trans (binStart_lt_succ h hfit (by omega)).le

theorem getBinUpperBound_toNat (h : Valid state) (hfit : Fits state rtt)
    (hbin : bin < infinityBin state.histogram) :
    (getBinUpperBound state rtt bin).toNat + 1 = binStart state rtt (bin + 1) := by
  have hlt := binStart_lt_succ h hfit hbin
  have hone : (1 : UInt32) ≤ histogramBinToUsec state rtt (bin + 1) := by
    rw [UInt32.le_iff_toNat_le]
    exact Nat.one_le_of_lt hlt
  rw [getBinUpperBound, UInt32.toNat_sub_of_le _ _ hone]
  exact Nat.sub_add_cancel (Nat.one_le_of_lt hlt)

theorem le_upperBound_iff (h : Valid state) (hfit : Fits state rtt)
    (hbin : bin < infinityBin state.histogram) :
    usec ≤ getBinUpperBound state rtt bin ↔ usec.toNat < binStart state rtt (bin + 1) := by
  rw [UInt32.le_iff_toNat_le, ← getBinUpperBound_toNat h hfit hbin, Nat.lt_succ_iff]

theorem midpoint_mem (h : Valid state) (hfit : Fits state rtt)
    (hbin : bin < infinityBin state.histogram) :
    binStart state rtt bin ≤ (getHistogramBinMidpoint state rtt bin).toNat ∧
      (getHistogramBinMidpoint state rtt bin).toNat < binStart state rtt (bin + 1) := by
  have hlt := binStart_lt_succ h hfit hbin
  have hupper := getBinUpperBound_toNat h hfit hbin
  have hbound := (getBinUpperBound state rtt bin).toNat_lt
  have hle : histogramBinToUsec state rtt bin ≤ getBinUpperBound state rtt bin := by
    rw [UInt32.le_iff_toNat_le]
    exact Nat.le_of_lt_succ (hlt.trans_eq hupper.symm)
  have hsub : (getBinUpperBound state rtt bin - histogramBinToUsec state rtt bin).toNat =
      (getBinUpperBound state rtt bin).toNat - binStart state rtt bin :=
    UInt32.toNat_sub_of_le _ _ hle
  have hmid : (getHistogramBinMidpoint state rtt bin).toNat = binStart state rtt bin +
      ((getBinUpperBound state rtt bin).toNat - binStart state rtt bin) / 2 := by
    rw [getHistogramBinMidpoint, UInt32.toNat_add, UInt32.toNat_div, hsub]
    show (binStart state rtt bin + _ / 2) % 2 ^ 32 = _
    exact Nat.mod_eq_of_lt (by omega)
  omega

/-! ### The bin of a time -/

variable (rtt usec) in
theorem usecToBin_spec (h : Valid state) :
    histogramUsecToBin state rtt usec < infinityBin state.histogram ∧
      (∀ bin < histogramUsecToBin state rtt usec,
        ¬ usec ≤ getBinUpperBound state rtt bin + rttAddUsec state rtt) ∧
      (histogramUsecToBin state rtt usec + 1 = infinityBin state.histogram ∨
        usec ≤ getBinUpperBound state rtt (histogramUsecToBin state rtt usec) +
          rttAddUsec state rtt) := by
  have hpos := h.infinityBin_pos
  rw [histogramUsecToBin]
  cases hfind : (List.range (infinityBin state.histogram)).find? fun bin =>
      decide (usec ≤ getBinUpperBound state rtt bin + rttAddUsec state rtt) with
  | none =>
    have hall := List.find?_range_eq_none.mp hfind
    rw [Option.getD_none]
    exact ⟨by omega, fun bin hlt => by simpa using hall bin (by omega), .inl (by omega)⟩
  | some bin =>
    obtain ⟨hle, hmem, hall⟩ := List.find?_range_eq_some.mp hfind
    rw [Option.getD_some]
    exact ⟨List.mem_range.mp hmem, fun other hlt => by simpa using hall other hlt,
      .inr (of_decide_eq_true hle)⟩

theorem usecToBin_eq (h : Valid state) (hfinite : bin < infinityBin state.histogram)
    (hbefore : ∀ other < bin, ¬ usec ≤ getBinUpperBound state rtt other + rttAddUsec state rtt)
    (hat : bin + 1 = infinityBin state.histogram ∨
      usec ≤ getBinUpperBound state rtt bin + rttAddUsec state rtt) :
    histogramUsecToBin state rtt usec = bin := by
  obtain ⟨hlt, hall, hend⟩ := usecToBin_spec rtt usec h
  by_contra hne
  rcases Nat.lt_or_gt_of_ne hne with hbelow | habove
  · rcases hend with hlast | hle
    · omega
    · exact hbefore _ hbelow hle
  · rcases hat with hlast | hle
    · omega
    · exact hall bin habove hle

theorem BinOf.reached (hb : BinOf state rtt usec bin) (h : Valid state) (hfit : Fits state rtt)
    (hlt : other < bin) : binStart state rtt (other + 1) ≤ usec.toNat := by
  have hle := binStart_le h hfit (Nat.succ_le_of_lt hlt) hb.finite.le
  rcases hb.lower with hzero | hreach
  · omega
  · exact hle.trans hreach

theorem BinOf.before (hb : BinOf state rtt usec bin) (h : Valid state) (hfit : Fits state rtt)
    (hlt : bin < other) (hother : other < infinityBin state.histogram) :
    usec.toNat < binStart state rtt other := by
  rcases hb.upper with hlast | hbefore
  · omega
  · exact hbefore.trans_le (binStart_le h hfit (Nat.succ_le_of_lt hlt) hother.le)

variable (rtt usec) in
theorem exists_binOf (h : Valid state) : ∃ bin, BinOf state rtt usec bin := by
  have hpos := h.infinityBin_pos
  have hex : ∃ bin, bin + 1 = infinityBin state.histogram ∨
      usec.toNat < binStart state rtt (bin + 1) := ⟨_, .inl (Nat.sub_add_cancel hpos)⟩
  have hmin : ∀ other < Nat.find hex, ¬ _ := fun other => Nat.find_min hex
  refine ⟨Nat.find hex, ?_, ?_, Nat.find_spec hex⟩
  · by_contra hge
    exact hmin (infinityBin state.histogram - 1) (by omega) (.inl (Nat.sub_add_cancel hpos))
  · rcases Nat.eq_zero_or_pos (Nat.find hex) with hzero | hnext
    · exact .inl hzero
    · have hprev := hmin (Nat.find hex - 1) (by omega)
      rw [Nat.sub_add_cancel hnext, not_or, not_lt] at hprev
      exact .inr hprev.2

theorem usecToBin_binOf_iff (h : Valid state) (hfit : Fits state rtt) :
    BinOf state rtt usec (histogramUsecToBin state rtt usec) ↔ RttAgrees state rtt usec := by
  constructor
  · intro hb bin hbin hreached
    obtain ⟨-, hbefore, hend⟩ := usecToBin_spec rtt usec h
    generalize histogramUsecToBin state rtt usec = found at hb hbefore hend
    rcases Nat.lt_trichotomy bin found with hlt | rfl | hgt
    · exact iff_of_false (not_lt.mpr (hb.reached h hfit hlt)) (hbefore bin hlt)
    · exact iff_of_true (hb.upper.resolve_left (by omega)) (hend.resolve_left (by omega))
    · -- a bin behind the found one begins after the time
      have hafter := hb.before h hfit hgt (by omega)
      omega
  · intro hagrees
    obtain ⟨bin, hb⟩ := exists_binOf rtt usec h
    have hfinite := hb.finite
    have hfound : histogramUsecToBin state rtt usec = bin := by
      refine usecToBin_eq h hfinite (fun other hlt hle => ?_) ?_
      · have hreached : other = 0 ∨ binStart state rtt other ≤ usec.toNat := by
          rcases Nat.eq_zero_or_pos other with hzero | hpos
          · exact .inl hzero
          · have hprev := hb.reached h hfit (show other - 1 < bin by omega)
            rw [Nat.sub_add_cancel hpos] at hprev
            exact .inr hprev
        exact absurd (hb.reached h hfit hlt)
          (not_le.mpr ((hagrees other (by omega) hreached).mpr hle))
      · by_cases hlast : bin + 1 = infinityBin state.histogram
        · exact .inl hlast
        · exact .inr ((hagrees bin (by omega) hb.lower).mp (hb.upper.resolve_left hlast))
    rw [hfound]
    exact hb

theorem BinOf.unique (hb : BinOf state rtt usec bin) (ho : BinOf state rtt usec other)
    (h : Valid state) (hfit : Fits state rtt) : bin = other := by
  by_contra hne
  have key : ∀ a b, BinOf state rtt usec a → BinOf state rtt usec b → a < b → False := by
    intro a b ha hb hlt
    have hreached := hb.reached h hfit hlt
    have hfinite := hb.finite
    rcases ha.upper with hlast | hbefore
    · omega
    · omega
  rcases Nat.lt_or_gt_of_ne hne with hlt | hgt
  · exact key bin other hb ho hlt
  · exact key other bin ho hb hgt

/-! ### The searches -/

theorem lastUpTo_spec (p : ℕ → Bool) (n : ℕ) :
    (∀ bin, lastUpTo p n = some bin → bin ≤ n ∧ p bin = true ∧
      ∀ other, bin < other → other ≤ n → p other = false) ∧
    (lastUpTo p n = none → ∀ other ≤ n, p other = false) := by
  induction n with
  | zero =>
    rw [lastUpTo]
    refine ⟨fun bin hbin => ?_, fun hnone other hle => ?_⟩
    · split_ifs at hbin with hp
      obtain rfl := Option.some.inj hbin
      exact ⟨le_rfl, hp, fun other hlt hle => absurd hlt (not_lt.mpr hle)⟩
    · rw [Nat.le_zero.mp hle]
      split_ifs at hnone with hp
      exact Bool.eq_false_iff.mpr hp
  | succ n ih =>
    rw [lastUpTo]
    by_cases hp : p (n + 1) = true
    · rw [if_pos hp]
      refine ⟨fun bin hbin => ?_, fun hnone => absurd hnone (by simp)⟩
      obtain rfl := Option.some.inj hbin
      exact ⟨le_rfl, hp, fun other hlt hle => absurd hlt (not_lt.mpr hle)⟩
    · rw [if_neg hp]
      have hlast : ∀ other, other ≤ n + 1 → ¬ other ≤ n → p other = false := by
        intro other hle hnot
        rw [show other = n + 1 by omega]
        exact Bool.eq_false_iff.mpr hp
      refine ⟨fun bin hbin => ?_, fun hnone other hle => ?_⟩
      · obtain ⟨hle, hpbin, hafter⟩ := ih.1 bin hbin
        refine ⟨hle.trans (Nat.le_succ n), hpbin, fun other hlt hle' => ?_⟩
        by_cases hin : other ≤ n
        · exact hafter other hlt hin
        · exact hlast other hle' hin
      · by_cases hin : other ≤ n
        · exact ih.2 hnone other hin
        · exact hlast other hle hin

/-- The runtime has a histogram of the length that the state has, and the bin is the one of the
time. -/
structure Found (state : CircpadState) (rtt : UInt32) (histogram : List UInt32) (usec : UInt32) :
    Prop where
  valid : Valid state
  fits : Fits state rtt
  length : histogram.length = state.histogram.length
  binOf : BinOf state rtt usec (histogramUsecToBin state rtt usec)

theorem Found.infinityBin_eq (h : Found state rtt histogram usec) :
    infinityBin histogram = infinityBin state.histogram := by
  rw [infinityBin, infinityBin, h.length]

theorem Found.le_of_mem_above (h : Found state rtt histogram usec)
    (hbin : bin ∈ Above state rtt histogram usec) : histogramUsecToBin state rtt usec ≤ bin := by
  by_contra hlt
  exact absurd (h.binOf.reached h.valid h.fits (not_le.mp hlt)) (not_le.mpr hbin.2)

theorem Found.le_of_mem_below (h : Found state rtt histogram usec)
    (hbin : bin ∈ Below state rtt histogram usec) : bin ≤ histogramUsecToBin state rtt usec := by
  by_contra hlt
  exact absurd hbin.2 (not_le.mpr (h.binOf.before h.valid h.fits (not_le.mp hlt) hbin.1.1))

theorem Found.mem_below_or_above (h : Found state rtt histogram usec)
    (hbin : bin ∈ Stocked state histogram) :
    bin ∈ Below state rtt histogram usec ∨ bin ∈ Above state rtt histogram usec := by
  have hlt := binStart_lt_succ h.valid h.fits hbin.1
  by_cases hle : binStart state rtt bin ≤ usec.toNat
  · exact .inl ⟨hbin, hle⟩
  · exact .inr ⟨hbin, by omega⟩

theorem Found.firstHigherIndex_spec (h : Found state rtt histogram usec) :
    (∀ bin, firstHigherIndex state rtt histogram usec = some bin →
      IsLeast (Above state rtt histogram usec) bin) ∧
    (firstHigherIndex state rtt histogram usec = none → Above state rtt histogram usec = ∅) := by
  have hfinite := h.binOf.finite
  have htest : ∀ bin < infinityBin state.histogram,
      (decide (tokens histogram bin ≠ 0) && decide (usec ≤ getBinUpperBound state rtt bin)) = true ↔
        bin ∈ Above state rtt histogram usec := by
    intro bin hbin
    rw [Bool.and_eq_true, decide_eq_true_iff, decide_eq_true_iff,
      le_upperBound_iff h.valid h.fits hbin]
    exact ⟨fun hp => ⟨⟨hbin, hp.1⟩, hp.2⟩, fun hp => ⟨hp.1.2, hp.2⟩⟩
  rw [firstHigherIndex, h.infinityBin_eq]
  constructor
  · intro bin hbin
    obtain ⟨hp, hmem, hall⟩ := List.find?_range'_eq_some.mp hbin
    have hrange := List.mem_range'_1.mp hmem
    refine ⟨(htest bin (by omega)).mp hp, fun other hother => ?_⟩
    by_contra hlt
    have hno := hall other (h.le_of_mem_above hother) (not_le.mp hlt)
    rw [(htest other hother.1.1).mpr hother] at hno
    exact absurd hno (by simp)
  · intro hnone
    refine Set.eq_empty_of_forall_notMem fun other hother => ?_
    have hno := List.find?_range'_eq_none.mp hnone other (h.le_of_mem_above hother)
      (by have := hother.1.1; omega)
    rw [(htest other hother.1.1).mpr hother] at hno
    exact absurd hno (by simp)

theorem Found.firstLowerIndex_spec (h : Found state rtt histogram usec) :
    (∀ bin, firstLowerIndex state rtt histogram usec = some bin →
      IsGreatest (Below state rtt histogram usec) bin) ∧
    (firstLowerIndex state rtt histogram usec = none → Below state rtt histogram usec = ∅) := by
  have hfinite := h.binOf.finite
  have htest : ∀ bin, (decide (tokens histogram bin ≠ 0) &&
      decide (histogramBinToUsec state rtt bin ≤ usec)) = true ↔
        tokens histogram bin ≠ 0 ∧ binStart state rtt bin ≤ usec.toNat := by
    intro bin
    rw [Bool.and_eq_true, decide_eq_true_iff, decide_eq_true_iff, UInt32.le_iff_toNat_le]
    rfl
  obtain ⟨hsome, hnone⟩ := lastUpTo_spec
    (fun bin => decide (tokens histogram bin ≠ 0) &&
      decide (histogramBinToUsec state rtt bin ≤ usec)) (histogramUsecToBin state rtt usec)
  constructor
  · intro bin hbin
    obtain ⟨hle, hp, hafter⟩ := hsome bin hbin
    refine ⟨⟨⟨hle.trans_lt hfinite, ((htest bin).mp hp).1⟩, ((htest bin).mp hp).2⟩,
      fun other hother => ?_⟩
    by_contra hlt
    have hno := hafter other (not_le.mp hlt) (h.le_of_mem_below hother)
    rw [(htest other).mpr ⟨hother.1.2, hother.2⟩] at hno
    exact absurd hno (by simp)
  · intro hempty
    refine Set.eq_empty_of_forall_notMem fun other hother => ?_
    have hno := hnone hempty other (h.le_of_mem_below hother)
    rw [(htest other).mpr ⟨hother.1.2, hother.2⟩] at hno
    exact absurd hno (by simp)

/-! ### The closest bin -/

structure Grows (state : CircpadState) (rtt : UInt32) (histogram : List UInt32) (usec : UInt32)
    (distance : ℕ → ℕ) : Prop where
  below : ∀ bin ∈ Below state rtt histogram usec, ∀ other < bin, other ∈ Stocked state histogram →
    distance bin < distance other
  above : ∀ bin ∈ Above state rtt histogram usec, ∀ other, bin < other →
    other ∈ Stocked state histogram → distance bin < distance other

theorem Found.grows_index (h : Found state rtt histogram usec) :
    Grows state rtt histogram usec (Nat.dist (histogramUsecToBin state rtt usec)) := by
  constructor
  · intro bin hbin other hlt _
    have hle := h.le_of_mem_below hbin
    rw [Nat.dist_eq_sub_of_le_right hle, Nat.dist_eq_sub_of_le_right (by omega)]
    omega
  · intro bin hbin other hlt _
    have hle := h.le_of_mem_above hbin
    rw [Nat.dist_eq_sub_of_le hle, Nat.dist_eq_sub_of_le (by omega)]
    omega

theorem Found.usecDistance_after (h : Found state rtt histogram usec)
    (hbin : bin < infinityBin state.histogram) (hend : binStart state rtt (bin + 1) ≤ usec.toNat) :
    (getHistogramBinMidpoint state rtt bin).toNat < usec.toNat ∧ usecDistance state rtt usec bin =
      usec.toNat - (getHistogramBinMidpoint state rtt bin).toNat := by
  have hmid := midpoint_mem h.valid h.fits hbin
  rw [usecDistance, if_neg (by omega), Nat.dist_eq_sub_of_le (by omega)]
  exact ⟨by omega, rfl⟩

theorem Found.usecDistance_before (h : Found state rtt histogram usec)
    (hbin : bin < infinityBin state.histogram) (hstart : usec.toNat < binStart state rtt bin) :
    usec.toNat < (getHistogramBinMidpoint state rtt bin).toNat ∧ usecDistance state rtt usec bin =
      (getHistogramBinMidpoint state rtt bin).toNat - usec.toNat := by
  have hmid := midpoint_mem h.valid h.fits hbin
  rw [usecDistance, if_neg (by omega), Nat.dist_eq_sub_of_le_right (by omega)]
  exact ⟨by omega, rfl⟩

theorem Found.grows_usec (h : Found state rtt histogram usec) :
    Grows state rtt histogram usec (usecDistance state rtt usec) := by
  constructor
  · intro bin hbin other hlt hother
    have hmid := midpoint_mem h.valid h.fits hbin.1.1
    have hmid' := midpoint_mem h.valid h.fits hother.1
    have hstart : binStart state rtt (other + 1) ≤ binStart state rtt bin :=
      binStart_le h.valid h.fits hlt hbin.1.1.le
    obtain ⟨hafter, heq⟩ := h.usecDistance_after hother.1 (hstart.trans hbin.2)
    rw [heq]
    by_cases hend : binStart state rtt (bin + 1) ≤ usec.toNat
    · obtain ⟨-, heq'⟩ := h.usecDistance_after hbin.1.1 hend
      omega
    · rw [usecDistance, if_pos ⟨hbin.2, not_le.mp hend⟩]
      omega
  · intro bin hbin other hlt hother
    have hmid := midpoint_mem h.valid h.fits hbin.1.1
    have hmid' := midpoint_mem h.valid h.fits hother.1
    have hstart : binStart state rtt (bin + 1) ≤ binStart state rtt other :=
      binStart_le h.valid h.fits hlt hother.1.le
    obtain ⟨hbefore, heq⟩ := h.usecDistance_before hother.1 (hbin.2.trans_le hstart)
    rw [heq]
    by_cases hreached : binStart state rtt bin ≤ usec.toNat
    · rw [usecDistance, if_pos ⟨hreached, hbin.2⟩]
      omega
    · obtain ⟨-, heq'⟩ := h.usecDistance_before hbin.1.1 (not_le.mp hreached)
      omega

theorem Found.isClosest (h : Found state rtt histogram usec) {distance : ℕ → ℕ}
    (hgrows : Grows state rtt histogram usec distance) {lower higher : ℕ}
    (hl : IsGreatest (Below state rtt histogram usec) lower)
    (hu : IsLeast (Above state rtt histogram usec) higher) :
    IsClosest distance (Stocked state histogram)
      (if distance higher < distance lower then higher else lower) := by
  have hle := h.le_of_mem_below hl.1
  have hge := h.le_of_mem_above hu.1
  have hsides : ∀ other ∈ Stocked state histogram, other < lower ∧ distance lower < distance other ∨
      other = lower ∨ other = higher ∨ higher < other ∧ distance higher < distance other := by
    intro other hother
    rcases h.mem_below_or_above hother with hbelow | habove
    · rcases (hl.2 hbelow).lt_or_eq with hlt | heq
      · exact .inl ⟨hlt, hgrows.below lower hl.1 other hlt hother⟩
      · exact .inr (.inl heq)
    · rcases (hu.2 habove).lt_or_eq with hlt | heq
      · exact .inr (.inr (.inr ⟨hlt, hgrows.above higher hu.1 other hlt hother⟩))
      · exact .inr (.inr (.inl heq.symm))
  split_ifs with hcloser
  · refine ⟨hu.1.1, fun other hother => ?_⟩
    rcases hsides other hother with hlt | rfl | rfl | hgt
    · omega
    · exact .inl hcloser
    · exact .inr ⟨rfl, le_rfl⟩
    · omega
  · refine ⟨hl.1.1, fun other hother => ?_⟩
    rcases hsides other hother with hlt | rfl | rfl | hgt
    · exact .inl hlt.2
    · exact .inr ⟨rfl, le_rfl⟩
    · omega
    · omega

theorem Found.isClosest_below (h : Found state rtt histogram usec) {distance : ℕ → ℕ}
    (hgrows : Grows state rtt histogram usec distance) {lower : ℕ}
    (hl : IsGreatest (Below state rtt histogram usec) lower)
    (habove : Above state rtt histogram usec = ∅) :
    IsClosest distance (Stocked state histogram) lower := by
  refine ⟨hl.1.1, fun other hother => ?_⟩
  rcases h.mem_below_or_above hother with hbelow | hin
  · rcases (hl.2 hbelow).lt_or_eq with hlt | rfl
    · exact .inl (hgrows.below lower hl.1 other hlt hother)
    · exact .inr ⟨rfl, le_rfl⟩
  · exact absurd (habove ▸ hin) (Set.notMem_empty other)

theorem Found.isClosest_above (h : Found state rtt histogram usec) {distance : ℕ → ℕ}
    (hgrows : Grows state rtt histogram usec distance) {higher : ℕ}
    (hu : IsLeast (Above state rtt histogram usec) higher)
    (hbelow : Below state rtt histogram usec = ∅) :
    IsClosest distance (Stocked state histogram) higher := by
  refine ⟨hu.1.1, fun other hother => ?_⟩
  rcases h.mem_below_or_above hother with hin | habove
  · exact absurd (hbelow ▸ hin) (Set.notMem_empty other)
  · rcases (hu.2 habove).lt_or_eq with hlt | rfl
    · exact .inl (hgrows.above higher hu.1 other hlt hother)
    · exact .inr ⟨rfl, le_rfl⟩

/-! ### The strategies -/

theorem removeAt_eq (hbin : bin ∈ Stocked state histogram) :
    removeAt histogram bin = some (takeToken histogram bin) := if_neg hbin.2

def Compares (state : CircpadState) (rtt : UInt32) (histogram : List UInt32) (usec : UInt32)
    (useUsec : Bool) (distance : ℕ → ℕ) : Prop :=
  ∀ lower higher, IsGreatest (Below state rtt histogram usec) lower →
    IsLeast (Above state rtt histogram usec) higher →
      (if useUsec then closerByUsec state rtt usec lower higher
        else if higher - histogramUsecToBin state rtt usec <
            histogramUsecToBin state rtt usec - lower then higher else lower) =
        if distance higher < distance lower then higher else lower

theorem Found.compares_index (h : Found state rtt histogram usec) :
    Compares state rtt histogram usec false (Nat.dist (histogramUsecToBin state rtt usec)) := by
  intro lower higher hl hu
  rw [if_neg (by simp), Nat.dist_eq_sub_of_le (h.le_of_mem_above hu.1),
    Nat.dist_eq_sub_of_le_right (h.le_of_mem_below hl.1)]

theorem Found.compares_usec (h : Found state rtt histogram usec) :
    Compares state rtt histogram usec true (usecDistance state rtt usec) := by
  intro lower higher hl hu
  have hle := h.le_of_mem_below hl.1
  have hge := h.le_of_mem_above hu.1
  rw [if_pos rfl, closerByUsec]
  simp only [UInt32.lt_iff_toNat_lt]
  rcases (hle.trans hge).lt_or_eq with hlt | rfl
  · -- the time is between the two bins
    have hnotAbove : binStart state rtt (lower + 1) ≤ usec.toNat := by
      by_contra hbefore
      exact absurd (hu.2 ⟨hl.1.1, not_le.mp hbefore⟩) (not_le.mpr hlt)
    have hnotBelow : usec.toNat < binStart state rtt higher := by
      by_contra hreached
      exact absurd (hl.2 ⟨hu.1.1, not_lt.mp hreached⟩) (not_le.mpr hlt)
    obtain ⟨hafter, heq⟩ := h.usecDistance_after hl.1.1.1 hnotAbove
    obtain ⟨hbefore, heq'⟩ := h.usecDistance_before hu.1.1.1 hnotBelow
    have hsub := UInt32.toNat_sub_of_le usec (getHistogramBinMidpoint state rtt lower)
      (UInt32.le_iff_toNat_le.mpr hafter.le)
    have hsub' := UInt32.toNat_sub_of_le (getHistogramBinMidpoint state rtt higher) usec
      (UInt32.le_iff_toNat_le.mpr hbefore.le)
    rw [if_neg (by omega), if_neg (by omega), hsub, hsub', heq, heq']
  · split_ifs <;> rfl

theorem Found.removeClosestToken_spec (h : Found state rtt histogram usec) {useUsec : Bool}
    {distance : ℕ → ℕ} (hgrows : Grows state rtt histogram usec distance)
    (hcompares : Compares state rtt histogram usec useUsec distance) :
    (∃ bin ∈ Stocked state histogram, IsClosest distance (Stocked state histogram) bin ∧
      removeClosestToken state rtt histogram usec useUsec = some (takeToken histogram bin)) ∨
    Stocked state histogram = ∅ ∧
      removeClosestToken state rtt histogram usec useUsec = some histogram := by
  obtain ⟨hlower, hnoLower⟩ := h.firstLowerIndex_spec
  obtain ⟨hhigher, hnoHigher⟩ := h.firstHigherIndex_spec
  rw [removeClosestToken]
  cases hl : firstLowerIndex state rtt histogram usec with
  | none =>
    have hbelow := hnoLower hl
    cases hu : firstHigherIndex state rtt histogram usec with
    | none =>
      refine .inr ⟨Set.eq_empty_of_forall_notMem fun bin hbin => ?_, rfl⟩
      rcases h.mem_below_or_above hbin with hin | hin
      · exact absurd (hbelow ▸ hin) (Set.notMem_empty bin)
      · exact absurd (hnoHigher hu ▸ hin) (Set.notMem_empty bin)
    | some higher =>
      have hleast := hhigher higher hu
      have hge := h.le_of_mem_above hleast.1
      refine .inl ⟨higher, hleast.1.1, h.isClosest_above hgrows hleast hbelow, ?_⟩
      simp only [Option.any_none, Option.any_some, Bool.false_or, decide_eq_true_eq]
      rw [if_neg (not_lt.mpr hge)]
      exact removeAt_eq hleast.1.1
  | some lower =>
    have hgreatest := hlower lower hl
    have hle := h.le_of_mem_below hgreatest.1
    cases hu : firstHigherIndex state rtt histogram usec with
    | none =>
      refine .inl ⟨lower, hgreatest.1.1, h.isClosest_below hgrows hgreatest (hnoHigher hu), ?_⟩
      simp only [Option.any_none, Option.any_some, Bool.or_false, decide_eq_true_eq]
      rw [if_neg (not_lt.mpr hle)]
      exact removeAt_eq hgreatest.1.1
    | some higher =>
      have hleast := hhigher higher hu
      have hge := h.le_of_mem_above hleast.1
      have hclosest := h.isClosest hgrows hgreatest hleast
      refine .inl ⟨_, hclosest.1, hclosest, ?_⟩
      simp only [Option.any_some, Bool.or_eq_true, decide_eq_true_eq]
      rw [if_neg (by omega), ← removeAt_eq hclosest.1, ← hcompares lower higher hgreatest hleast]
      split_ifs <;> rfl

theorem Found.removesNamed (h : Found state rtt histogram usec) (removal : Removal) :
    RemovesNamed state rtt histogram usec removal := by
  have hempty : ∀ distance bin, Stocked state histogram = ∅ →
      ¬ IsClosest distance (Stocked state histogram) bin := fun distance bin hno hclosest =>
    absurd (hno ▸ hclosest.1) (Set.notMem_empty bin)
  cases removal with
  | exact =>
    by_cases hzero : tokens histogram (histogramUsecToBin state rtt usec) = 0
    · refine .inr ⟨?_, ?_⟩
      · rintro bin ⟨hbin, htokens⟩
        rw [hbin.unique h.binOf h.valid h.fits] at htokens
        exact htokens hzero
      · rw [removeToken, removeExact, hzero, if_neg (by decide)]
    · refine .inl ⟨_, ⟨h.binOf.finite, hzero⟩, ⟨h.binOf, hzero⟩, ?_⟩
      rw [removeToken, removeExact, if_pos (UInt32.pos_iff_ne_zero.mpr hzero)]
  | lower =>
    obtain ⟨hsome, hnone⟩ := h.firstLowerIndex_spec
    rw [RemovesNamed, removeToken, removeLowerToken]
    cases hfind : firstLowerIndex state rtt histogram usec with
    | none =>
      exact .inr ⟨fun bin hbin => absurd (hnone hfind ▸ hbin.1) (Set.notMem_empty bin), rfl⟩
    | some bin => exact .inl ⟨bin, (hsome bin hfind).1.1, hsome bin hfind,
        removeAt_eq (hsome bin hfind).1.1⟩
  | higher =>
    obtain ⟨hsome, hnone⟩ := h.firstHigherIndex_spec
    rw [RemovesNamed, removeToken, removeHigherToken]
    cases hfind : firstHigherIndex state rtt histogram usec with
    | none =>
      exact .inr ⟨fun bin hbin => absurd (hnone hfind ▸ hbin.1) (Set.notMem_empty bin), rfl⟩
    | some bin => exact .inl ⟨bin, (hsome bin hfind).1.1, hsome bin hfind,
        removeAt_eq (hsome bin hfind).1.1⟩
  | closest =>
    rcases h.removeClosestToken_spec h.grows_index h.compares_index with
      ⟨bin, hbin, hclosest, heq⟩ | ⟨hno, heq⟩
    · exact .inl ⟨bin, hbin, ⟨_, h.binOf, hclosest⟩, heq⟩
    · exact .inr ⟨fun bin hbin => hempty _ bin hno hbin.choose_spec.2, heq⟩
  | closestUsec =>
    rcases h.removeClosestToken_spec h.grows_usec h.compares_usec with
      ⟨bin, hbin, hclosest, heq⟩ | ⟨hno, heq⟩
    · exact .inl ⟨bin, hbin, hclosest, heq⟩
    · exact .inr ⟨fun bin => hempty _ bin hno, heq⟩

/-- The bin of the time is found and each strategy takes a token from the bin that it names, if and
only if adding the estimate a second time makes no difference. -/
theorem token_removal_iff (h : Valid state) (hfit : Fits state rtt)
    (hlen : histogram.length = state.histogram.length) :
    (BinOf state rtt usec (histogramUsecToBin state rtt usec) ∧
      ∀ removal, RemovesNamed state rtt histogram usec removal) ↔ RttAgrees state rtt usec := by
  rw [← usecToBin_binOf_iff h hfit]
  exact ⟨fun hall => hall.1, fun hb => ⟨hb, Found.removesNamed ⟨h, hfit, hlen, hb⟩⟩⟩

end Edges

def exampleState : CircpadState where
  histogram := [1, 1, 1, 1]
  histogramEdges := fun bin => 100 * UInt32.ofNat bin
  histogramTotalTokens := 4
  useRttEstimate := true
  tokenRemoval := some .exact

theorem exampleState_valid : Valid exampleState := ⟨by decide, by decide⟩

theorem exampleState_fits : Fits exampleState 50 := by
  have hall : ∀ bin ∈ List.range exampleState.histogram.length,
      (exampleState.histogramEdges bin).toNat + (rttAddUsec exampleState 50).toNat < 2 ^ 32 := by
    decide
  exact fun bin hbin => hall bin (List.mem_range.mpr hbin)

theorem token_removal_iff_example :
    (BinOf exampleState 50 220 (histogramUsecToBin exampleState 50 220) ∧
      ∀ removal, RemovesNamed exampleState 50 [1, 1, 1, 1] 220 removal) ↔
        RttAgrees exampleState 50 220 :=
  token_removal_iff exampleState_valid exampleState_fits rfl

theorem first_bin_found : ¬ BinOf exampleState 50 170 (histogramUsecToBin exampleState 50 170) := by
  have hfound : histogramUsecToBin exampleState 50 170 = 0 := by decide
  rw [hfound]
  intro hb
  exact absurd hb.upper (by decide)

end CircuitPadding
