/-
Sampling a padding delay from a histogram (`circpad_machine_sample_delay`).

A number is drawn below the total of the tokens, and the bins are walked until their tokens together
are not less than it.  The number 0 and the number that equals the tokens of the first bin are both
in that bin, so the first bin has one number too many and the last one has one too few.
-/
import LibEltor.PaddingHistogram

namespace CircuitPadding

structure Uint64Range where
  draw : ℕ → ℕ → ℕ
  draw_mem : ∀ {min max}, min < max → min ≤ draw min max ∧ draw min max < max

/-- The bins skipped at the start; none where the loop leaves the array. -/
def skipEmpty : List UInt32 → ℕ → Option ℕ
  | [], _ => none
  | t :: ts, currBin => if t = 0 then skipEmpty ts (currBin + 1) else some currBin

/-- The walk over the bins behind the current one; none where it runs past the end. -/
def walkBins (binChoice : ℕ) : List UInt32 → ℕ → ℕ → Option ℕ
  | [], currBin, currWeight => if currWeight < binChoice then none else some currBin
  | t :: ts, currBin, currWeight =>
    if currWeight < binChoice then walkBins binChoice ts (currBin + 1) (currWeight + t.toNat)
    else some currBin

def selectBin (histogram : List UInt32) (binChoice : ℕ) : Option ℕ :=
  (skipEmpty histogram 0).bind fun first =>
    walkBins binChoice (histogram.drop (first + 1)) first (tokens histogram first).toNat

/-- `histogram_total_tokens`, counted if the histogram is mutable. -/
def totalTokens (state : CircpadState) (runtime : Option (List UInt32)) : ℕ :=
  match runtime with
  | some histogram => (histogram.map UInt32.toNat).sum
  | none => state.histogramTotalTokens.toNat

/-- What is returned, with the bin it is for, if one was selected, and what the runtime becomes. -/
structure Sample where
  delay : UInt32
  bin : Option ℕ
  chosenBin : Option ℕ
  runtime : Option (List UInt32)

/-- `circpad_machine_sample_delay` of a state with a histogram, the mutable one if there is one; none
where the walk or the bin it stops at is a `BUG`. -/
def sampleDelay (state : CircpadState) (runtime : Option (List UInt32)) (rtt : UInt32)
    (uint64Range : Uint64Range) (binChoice : ℕ) : Option Sample :=
  let histogram := runtime.getD state.histogram
  if totalTokens state runtime = 0 then some ⟨delayInfinite, none, none, runtime⟩
  else
    (selectBin histogram binChoice).bind fun currBin =>
      if tokens histogram currBin = 0 then none
      else
        let chosenBin := if state.tokenRemoval.isSome then some currBin else none
        if infinityBin state.histogram ≤ currBin then
          some ⟨delayInfinite, some currBin, chosenBin,
            if state.tokenRemoval.isSome then runtime.map (takeToken · currBin) else runtime⟩
        else
          let binStart := histogramBinToUsec state rtt currBin
          let binEnd := histogramBinToUsec state rtt (currBin + 1)
          let delay := if binEnd ≤ binStart then binStart
            else UInt32.ofNat (uint64Range.draw binStart.toNat binEnd.toNat)
          some ⟨delay, some currBin, chosenBin, runtime⟩

section Sampling

variable (state : CircpadState) (runtime : Option (List UInt32)) (rtt : UInt32)
  (uint64Range : Uint64Range)

/-- A delay of a finite bin is between its edges, each with the estimate. -/
def Within (bin delay : ℕ) : Prop :=
  bin < infinityBin state.histogram →
    (state.histogramEdges bin).toNat + (rttAddUsec state rtt).toNat ≤ delay ∧
      delay < (state.histogramEdges (bin + 1)).toNat + (rttAddUsec state rtt).toNat

/-- Each bin is selected for as many numbers as it has tokens; every number selects a bin that is
not empty, and a delay in its bounds. -/
structure SamplesByTokens : Prop where
  card : ∀ bin, ((Finset.range (totalTokens state runtime)).filter fun binChoice =>
    (sampleDelay state runtime rtt uint64Range binChoice).bind Sample.bin = some bin).card =
      (tokens (runtime.getD state.histogram) bin).toNat
  sample : ∀ binChoice < totalTokens state runtime, ∃ sample bin,
    sampleDelay state runtime rtt uint64Range binChoice = some sample ∧ sample.bin = some bin ∧
      tokens (runtime.getD state.histogram) bin ≠ 0 ∧ Within state rtt bin sample.delay.toNat

/-- All tokens are in one bin, which begins in 32 bits if it is finite. -/
def OneBin : Prop :=
  ∃ bin, tokens (runtime.getD state.histogram) bin ≠ 0 ∧
    (∀ other, other ≠ bin → tokens (runtime.getD state.histogram) other = 0) ∧
      (bin < infinityBin state.histogram →
        (state.histogramEdges bin).toNat + (rttAddUsec state rtt).toNat < 2 ^ 32)

end Sampling

/-! ### The walk -/

variable {state : CircpadState} {runtime : Option (List UInt32)} {rtt : UInt32}
  {uint64Range : Uint64Range} {histogram : List UInt32} {first binChoice : ℕ}

theorem skipEmpty_eq (k : ℕ) (hfirst : tokens histogram first ≠ 0)
    (hbefore : ∀ bin < first, tokens histogram bin = 0) :
    skipEmpty histogram k = some (k + first) := by
  induction histogram generalizing k first with
  | nil => exact absurd rfl hfirst
  | cons t ts ih =>
    rw [skipEmpty]
    cases first with
    | zero => exact if_neg hfirst
    | succ first =>
      have hzero : t = 0 := hbefore 0 (Nat.succ_pos first)
      rw [if_pos hzero, ih (k + 1) hfirst fun bin hbin => hbefore (bin + 1) (Nat.succ_lt_succ hbin)]
      exact congrArg some (by omega)

theorem selectBin_first (hfirst : tokens histogram first ≠ 0)
    (hbefore : ∀ bin < first, tokens histogram bin = 0)
    (hle : binChoice ≤ (tokens histogram first).toNat) :
    selectBin histogram binChoice = some first := by
  rw [selectBin, skipEmpty_eq 0 hfirst hbefore, Option.bind_some, Nat.zero_add]
  cases histogram.drop (first + 1) with
  | nil => exact if_neg (not_lt.mpr hle)
  | cons t ts => exact if_neg (not_lt.mpr hle)

theorem sum_toNat (histogram : List UInt32) :
    histogram.sum.toNat = (histogram.map UInt32.toNat).sum % 2 ^ 32 := by
  induction histogram with
  | nil => rfl
  | cons t ts ih =>
    rw [List.sum_cons, UInt32.toNat_add, ih, List.map_cons, List.sum_cons, Nat.add_mod_mod]

theorem sum_eq_tokens {bin : ℕ} (hothers : ∀ other, other ≠ bin → tokens histogram other = 0) :
    (histogram.map UInt32.toNat).sum = (tokens histogram bin).toNat := by
  induction histogram generalizing bin with
  | nil => rfl
  | cons t ts ih =>
    rw [List.map_cons, List.sum_cons]
    cases bin with
    | zero =>
      have hrest : ∀ other, tokens ts other = 0 := fun other => hothers (other + 1) (by omega)
      have hsum : (ts.map UInt32.toNat).sum = (tokens ts 0).toNat := ih fun other _ => hrest other
      rw [hsum, hrest 0]
      rfl
    | succ bin =>
      have hzero : t = 0 := hothers 0 (by omega)
      have hsum : (ts.map UInt32.toNat).sum = (tokens ts bin).toNat := ih fun other hne =>
        hothers (other + 1) (by omega)
      rw [hzero, hsum]
      exact Nat.zero_add _

theorem totalTokens_eq (h : Valid state) {bin : ℕ}
    (hothers : ∀ other, other ≠ bin → tokens (runtime.getD state.histogram) other = 0) :
    totalTokens state runtime = (tokens (runtime.getD state.histogram) bin).toNat := by
  cases runtime with
  | some histogram => exact sum_eq_tokens hothers
  | none =>
    have hvalid := h.isValid
    have htwo := h.two_le
    rw [paddingMachineStateIsValid, if_neg (by omega), if_neg (by omega), Bool.and_eq_true,
      decide_eq_true_iff] at hvalid
    have hsum : (state.histogram.map UInt32.toNat).sum = (tokens state.histogram bin).toNat :=
      sum_eq_tokens hothers
    rw [totalTokens, ← hvalid.2, sum_toNat, hsum]
    exact Nat.mod_eq_of_lt (tokens state.histogram bin).toNat_lt

theorem sampleDelay_eq {bin : ℕ} (htotal : binChoice < totalTokens state runtime)
    (hselect : selectBin (runtime.getD state.histogram) binChoice = some bin)
    (htokens : tokens (runtime.getD state.histogram) bin ≠ 0) :
    ∃ sample, sampleDelay state runtime rtt uint64Range binChoice = some sample ∧
      sample.bin = some bin ∧ (bin < infinityBin state.histogram → sample.delay =
        if histogramBinToUsec state rtt (bin + 1) ≤ histogramBinToUsec state rtt bin
        then histogramBinToUsec state rtt bin
        else UInt32.ofNat (uint64Range.draw (histogramBinToUsec state rtt bin).toNat
          (histogramBinToUsec state rtt (bin + 1)).toNat)) := by
  rw [sampleDelay, if_neg (by omega), hselect, Option.bind_some, if_neg htokens]
  by_cases hfinite : infinityBin state.histogram ≤ bin
  · rw [if_pos hfinite]
    exact ⟨_, rfl, rfl, fun hlt => absurd hlt (not_lt.mpr hfinite)⟩
  · rw [if_neg hfinite]
    exact ⟨_, rfl, rfl, fun _ => rfl⟩

theorem within_iff (h : Valid state) {bin : ℕ} {delay : UInt32}
    (hdelay : bin < infinityBin state.histogram → delay =
      if histogramBinToUsec state rtt (bin + 1) ≤ histogramBinToUsec state rtt bin
      then histogramBinToUsec state rtt bin
      else UInt32.ofNat (uint64Range.draw (histogramBinToUsec state rtt bin).toNat
        (histogramBinToUsec state rtt (bin + 1)).toNat)) :
    Within state rtt bin delay.toNat ↔ (bin < infinityBin state.histogram →
      (state.histogramEdges bin).toNat + (rttAddUsec state rtt).toNat < 2 ^ 32) := by
  refine forall_congr' fun hfinite => ?_
  have hlt := h.edges_lt hfinite
  have hnext := (state.histogramEdges (bin + 1)).toNat_lt
  have hrtt := (rttAddUsec state rtt).toNat_lt
  have hbound := delay.toNat_lt
  have hstart : (histogramBinToUsec state rtt bin).toNat =
      ((state.histogramEdges bin).toNat + (rttAddUsec state rtt).toNat) % 2 ^ 32 := by
    rw [histogramBinToUsec, if_neg (by omega), UInt32.toNat_add]
  have hend : (histogramBinToUsec state rtt (bin + 1)).toNat =
      ((state.histogramEdges (bin + 1)).toNat + (rttAddUsec state rtt).toNat) % 2 ^ 32 := by
    rw [histogramBinToUsec, if_neg (by omega), UInt32.toNat_add]
  refine ⟨fun hwithin => by omega, fun hfits => ?_⟩
  rw [Nat.mod_eq_of_lt hfits] at hstart
  rw [hdelay hfinite]
  split_ifs with hwrap
  · omega
  · rw [UInt32.le_iff_toNat_le, not_le] at hwrap
    have hdraw := uint64Range.draw_mem hwrap
    have hlast := (histogramBinToUsec state rtt (bin + 1)).toNat_lt
    rw [UInt32.toNat_ofNat_of_lt' (show _ < UInt32.size from hdraw.2.trans hlast)]
    omega

/-- Bins are selected by their tokens, with delays in their bounds, if and only if one bin has all
the tokens and begins in 32 bits. -/
theorem sample_delay_iff (h : Valid state)
    (htokens : ∃ bin, tokens (runtime.getD state.histogram) bin ≠ 0) :
    SamplesByTokens state runtime rtt uint64Range ↔ OneBin state runtime rtt := by
  constructor
  · intro hsamples
    let first := Nat.find htokens
    have hfirst : tokens (runtime.getD state.histogram) first ≠ 0 := Nat.find_spec htokens
    have hbefore : ∀ bin < first, tokens (runtime.getD state.histogram) bin = 0 := fun bin hlt =>
      not_not.mp (Nat.find_min htokens hlt)
    have hpos : (tokens (runtime.getD state.histogram) first).toNat ≠ 0 := fun hzero =>
      hfirst (UInt32.toNat_inj.mp hzero)
    have hup : ∀ binChoice < totalTokens state runtime,
        binChoice ≤ (tokens (runtime.getD state.histogram) first).toNat → ∃ sample,
          sampleDelay state runtime rtt uint64Range binChoice = some sample ∧
            sample.bin = some first ∧ _ := fun binChoice hlt hle =>
      sampleDelay_eq hlt (selectBin_first hfirst hbefore hle) hfirst
    have hcard := hsamples.card first
    -- a larger total would give the first bin one number too many
    have htotal : totalTokens state runtime ≤
        (tokens (runtime.getD state.histogram) first).toNat := by
      by_contra hgt
      have hsub : Finset.range ((tokens (runtime.getD state.histogram) first).toNat + 1) ⊆
          (Finset.range (totalTokens state runtime)).filter fun binChoice =>
            (sampleDelay state runtime rtt uint64Range binChoice).bind Sample.bin = some first := by
        intro binChoice hmem
        rw [Finset.mem_range] at hmem
        obtain ⟨sample, heq, hbin, -⟩ := hup binChoice (by omega) (by omega)
        rw [Finset.mem_filter, Finset.mem_range, heq]
        exact ⟨by omega, hbin⟩
      have hle := Finset.card_le_card hsub
      rw [Finset.card_range, hcard] at hle
      omega
    refine ⟨first, hfirst, fun other hne => ?_, ?_⟩
    · have hother := hsamples.card other
      rw [Finset.filter_false_of_mem, Finset.card_empty] at hother
      · exact UInt32.toNat_inj.mp hother.symm
      · intro binChoice hmem
        have hlt := Finset.mem_range.mp hmem
        obtain ⟨sample, heq, hbin, -⟩ := hup binChoice hlt (by omega)
        rw [heq, Option.bind_some, hbin]
        exact fun hsame => hne (Option.some.inj hsame).symm
    · have hzero : 0 < totalTokens state runtime := by
        by_contra hnone
        rw [Nat.eq_zero_of_not_pos hnone, Finset.range_zero, Finset.filter_empty] at hcard
        exact hpos hcard.symm
      obtain ⟨sample, heq, hbin, hdelay⟩ := hup 0 hzero (Nat.zero_le _)
      obtain ⟨sample', bin, heq', hbin', -, hwithin⟩ := hsamples.sample 0 hzero
      obtain rfl := Option.some.inj (heq.symm.trans heq')
      obtain rfl := Option.some.inj (hbin.symm.trans hbin')
      exact (within_iff h hdelay).mp hwithin
  · rintro ⟨bin, hbin, hothers, hfits⟩
    have htotal := totalTokens_eq h hothers
    have hall : ∀ binChoice < totalTokens state runtime, ∃ sample,
        sampleDelay state runtime rtt uint64Range binChoice = some sample ∧
          sample.bin = some bin ∧ Within state rtt bin sample.delay.toNat := by
      intro binChoice hlt
      obtain ⟨sample, heq, hsame, hdelay⟩ := sampleDelay_eq hlt
        (selectBin_first hbin (fun other hne => hothers other hne.ne) (hlt.le.trans_eq htotal)) hbin
      exact ⟨sample, heq, hsame, (within_iff h hdelay).mpr hfits⟩
    refine ⟨fun other => ?_, fun binChoice hlt => ?_⟩
    · by_cases hsame : other = bin
      · rw [hsame, Finset.filter_true_of_mem, Finset.card_range, htotal]
        intro binChoice hmem
        obtain ⟨sample, heq, hselected, -⟩ := hall binChoice (Finset.mem_range.mp hmem)
        rw [heq, Option.bind_some, hselected]
      · rw [hothers other hsame, Finset.filter_false_of_mem, Finset.card_empty]
        · rfl
        · intro binChoice hmem
          obtain ⟨sample, heq, hselected, -⟩ := hall binChoice (Finset.mem_range.mp hmem)
          rw [heq, Option.bind_some, hselected]
          exact fun heq' => hsame (Option.some.inj heq').symm
    · obtain ⟨sample, heq, hselected, hwithin⟩ := hall binChoice hlt
      exact ⟨sample, bin, heq, hselected, hbin, hwithin⟩

def exampleRange : Uint64Range := ⟨fun min _ => min, fun h => ⟨le_rfl, h⟩⟩

theorem sample_delay_iff_example :
    SamplesByTokens exampleState none 50 exampleRange ↔ OneBin exampleState none 50 :=
  sample_delay_iff exampleState_valid ⟨0, by decide⟩

/-- Of the numbers 0 to 3 both 0 and 1 select the first of four bins with a token each. -/
theorem first_bin_twice : ¬ SamplesByTokens exampleState none 50 exampleRange := fun h =>
  absurd (h.card 0) (by decide)

end CircuitPadding
