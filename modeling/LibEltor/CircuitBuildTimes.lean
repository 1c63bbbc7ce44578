/-
The circuit build times a client learns, and their histogram (`core/or/circuitstats.c`).

The times are in a ring of 1000 entries, where 0 is an entry that is not used yet; a circuit that was
given up is kept as one time of its own.  The histogram counts the other times in bins of 10 ms.
-/
import LibEltor.Tally
import LibEltor.Transition

open Tally Transition

namespace Circuitstats

def cbtNcircuitsToObserve : ℕ := 1000

def cbtBinWidth : ℕ := 10

def cbtBuildAbandoned : ℕ := 2 ^ 31 - 2

def cbtBuildTimeMax : ℕ := 2 ^ 31 - 1

structure BuildTimes where
  circuitBuildTimes : List ℕ
  buildTimesIdx : ℕ
  totalBuildTimes : ℕ
  deriving DecidableEq

/-- What `circuit_build_times_init` and `circuit_build_times_reset` leave. -/
def emptyBuildTimes : BuildTimes := ⟨List.replicate cbtNcircuitsToObserve 0, 0, 0⟩

/-- None where the time is refused. -/
def circuitBuildTimesAddTime (cbt : BuildTimes) (btime : ℕ) : Option BuildTimes :=
  if btime = 0 ∨ btime > cbtBuildTimeMax then none
  else
    some
      { circuitBuildTimes := cbt.circuitBuildTimes.set cbt.buildTimesIdx btime
        buildTimesIdx := (cbt.buildTimesIdx + 1) % cbtNcircuitsToObserve
        totalBuildTimes :=
          if cbt.totalBuildTimes < cbtNcircuitsToObserve then cbt.totalBuildTimes + 1
          else cbt.totalBuildTimes }

def circuitBuildTimesMax (cbt : BuildTimes) : ℕ :=
  cbt.circuitBuildTimes.foldl
    (fun maxBuildTime btime =>
      if btime > maxBuildTime ∧ btime ≠ cbtBuildAbandoned then btime else maxBuildTime) 0

def nbins (cbt : BuildTimes) : ℕ := 1 + circuitBuildTimesMax cbt / cbtBinWidth

def circuitBuildTimesCreateHistogram (cbt : BuildTimes) : List ℕ :=
  cbt.circuitBuildTimes.foldl
    (fun histogram btime =>
      if btime = 0 ∨ btime = cbtBuildAbandoned then histogram
      else histogram.modify (btime / cbtBinWidth) (· + 1))
    (List.replicate (nbins cbt) 0)

def abandonedCount (cbt : BuildTimes) : ℕ := cbt.circuitBuildTimes.count cbtBuildAbandoned

/-! ### The times of a ring -/

def binned (cbt : BuildTimes) : List ℕ :=
  cbt.circuitBuildTimes.filter fun btime => ¬ (btime = 0 ∨ btime = cbtBuildAbandoned)

abbrev binOf (btime : ℕ) : ℕ := btime / cbtBinWidth

theorem createHistogram_eq (cbt : BuildTimes) :
    circuitBuildTimesCreateHistogram cbt = tally binOf (nbins cbt) (binned cbt) := by
  rw [circuitBuildTimesCreateHistogram, tally, binned, List.foldl_filter]
  congr 1
  funext histogram btime
  by_cases h : btime = 0 ∨ btime = cbtBuildAbandoned
  · rw [if_pos h, if_neg fun hkept => (of_decide_eq_true hkept : ¬ _) h]
  · rw [if_neg h, if_pos (decide_eq_true h)]
    rfl

theorem mem_binned {cbt : BuildTimes} {btime : ℕ} :
    btime ∈ binned cbt ↔
      btime ∈ cbt.circuitBuildTimes ∧ btime ≠ 0 ∧ btime ≠ cbtBuildAbandoned := by
  rw [binned, List.mem_filter]
  simp

theorem circuitBuildTimesMax_spec (cbt : BuildTimes) :
    (∀ btime ∈ binned cbt, btime ≤ circuitBuildTimesMax cbt) ∧
      (circuitBuildTimesMax cbt = 0 ∨ circuitBuildTimesMax cbt ∈ binned cbt) := by
  have h : ∀ (times : List ℕ) (m : ℕ),
      let last := times.foldl (fun maxBuildTime btime =>
        if btime > maxBuildTime ∧ btime ≠ cbtBuildAbandoned then btime else maxBuildTime) m
      m ≤ last ∧ (∀ btime ∈ times, btime ≠ cbtBuildAbandoned → btime ≤ last) ∧
        (last = m ∨ last ∈ times ∧ last ≠ cbtBuildAbandoned) := by
    intro times
    induction times with
    | nil => exact fun m => ⟨Nat.le_refl m, by simp, .inl rfl⟩
    | cons t times ih =>
      intro m
      rw [List.foldl_cons]
      obtain ⟨hle, hall, hmem⟩ :=
        ih (if t > m ∧ t ≠ cbtBuildAbandoned then t else m)
      refine ⟨?_, ?_, ?_⟩
      · split_ifs at hle ⊢ <;> omega
      · intro btime hb hne
        rcases List.mem_cons.mp hb with rfl | hb
        · split_ifs at hle ⊢ <;> omega
        · exact hall btime hb hne
      · rcases hmem with heq | ⟨hin, hne⟩
        · rw [heq]
          split_ifs with ht
          · exact .inr ⟨List.mem_cons_self, ht.2⟩
          · exact .inl rfl
        · exact .inr ⟨List.mem_cons_of_mem t hin, hne⟩
  obtain ⟨-, hall, hmem⟩ := h cbt.circuitBuildTimes 0
  refine ⟨fun btime hb => ?_, ?_⟩
  · obtain ⟨hin, -, hne⟩ := mem_binned.mp hb
    exact hall btime hin hne
  · by_cases h0 : circuitBuildTimesMax cbt = 0
    · exact .inl h0
    · obtain ⟨hin, hne⟩ := hmem.resolve_left h0
      exact .inr (mem_binned.mpr ⟨hin, h0, hne⟩)

theorem binOf_lt_nbins {cbt : BuildTimes} {btime : ℕ} (h : btime ∈ binned cbt) :
    binOf btime < nbins cbt := by
  have hle : binOf btime ≤ circuitBuildTimesMax cbt / cbtBinWidth :=
    Nat.div_le_div_right ((circuitBuildTimesMax_spec cbt).1 btime h)
  rw [nbins]
  omega

theorem createHistogram_congr {cbt cbt' : BuildTimes}
    (h : ∀ i, (binned cbt).countP (binOf · = i) = (binned cbt').countP (binOf · = i)) :
    circuitBuildTimesCreateHistogram cbt = circuitBuildTimesCreateHistogram cbt' := by
  have hle : ∀ c c' : BuildTimes,
      (∀ i, (binned c).countP (binOf · = i) = (binned c').countP (binOf · = i)) →
        nbins c ≤ nbins c' := by
    intro c c' hc
    rcases (circuitBuildTimesMax_spec c).2 with h0 | hmem
    · rw [nbins, nbins, h0]
      exact Nat.add_le_add_left (Nat.zero_le _) 1
    · -- the bin of the maximum is not empty in the other ring either
      have hpos : 0 < (binned c).countP (binOf · = binOf (circuitBuildTimesMax c)) :=
        List.countP_pos_iff.mpr ⟨_, hmem, by simp⟩
      rw [hc] at hpos
      obtain ⟨btime, hin, hbin⟩ := List.countP_pos_iff.mp hpos
      have hlt := binOf_lt_nbins hin
      rw [of_decide_eq_true hbin, binOf] at hlt
      rw [nbins]
      omega
  have hn : nbins cbt = nbins cbt' := Nat.le_antisymm (hle _ _ h) (hle _ _ fun i => (h i).symm)
  rw [createHistogram_eq, createHistogram_eq, hn]
  exact tally_congr binOf h _

/-! ### Rings that times were added to -/

inductive Added
  | addTime (btime : ℕ)

def ringSystem : System BuildTimes Added where
  init := fun cbt => cbt = emptyBuildTimes
  step := fun cbt a cbt' =>
    match a with
    | .addTime btime => cbt' = (circuitBuildTimesAddTime cbt btime).getD cbt

structure RingHolds (cbt : BuildTimes) : Prop where
  size : cbt.circuitBuildTimes.length = cbtNcircuitsToObserve
  total : cbt.totalBuildTimes ≤ cbtNcircuitsToObserve
  index : cbt.buildTimesIdx < cbtNcircuitsToObserve
  next : cbt.totalBuildTimes < cbtNcircuitsToObserve → cbt.buildTimesIdx = cbt.totalBuildTimes
  used : ∀ i (hi : i < cbt.circuitBuildTimes.length), i < cbt.totalBuildTimes →
    0 < cbt.circuitBuildTimes[i] ∧ cbt.circuitBuildTimes[i] ≤ cbtBuildTimeMax
  unused : ∀ i (hi : i < cbt.circuitBuildTimes.length), cbt.totalBuildTimes ≤ i →
    cbt.circuitBuildTimes[i] = 0

theorem ringHolds_empty : RingHolds emptyBuildTimes where
  size := List.length_replicate
  total := Nat.zero_le _
  index := Nat.succ_pos _
  next _ := rfl
  used i _ h := absurd h (Nat.not_lt_zero i)
  unused _ hi _ := List.getElem_replicate hi

variable {cbt cbt' : BuildTimes}

theorem ringHolds_addTime {btime : ℕ} (h : RingHolds cbt)
    (hadd : circuitBuildTimesAddTime cbt btime = some cbt') : RingHolds cbt' := by
  have hsize := h.size
  have htotal := h.total
  have hindex := h.index
  have hnext := h.next
  rw [circuitBuildTimesAddTime] at hadd
  split_ifs at hadd with hrefused hroom
  · obtain rfl := Option.some.inj hadd
    have hidx := hnext hroom
    refine ⟨?_, hroom, Nat.mod_lt _ (Nat.succ_pos _), ?_, ?_, ?_⟩
    · rw [List.length_set, hsize]
    · intro hlt
      simp only at hlt ⊢
      rw [hidx, Nat.mod_eq_of_lt hlt]
    · intro i hi hlt
      simp only at hlt ⊢
      rw [List.getElem_set]
      split_ifs with heq
      · omega
      · exact h.used i _ (by omega)
    · intro i hi hle
      simp only at hle ⊢
      rw [List.getElem_set, if_neg (by omega)]
      exact h.unused i _ (by omega)
  · -- the ring is full, and an entry is replaced
    obtain rfl := Option.some.inj hadd
    refine ⟨?_, htotal, Nat.mod_lt _ (Nat.succ_pos _), fun hlt => absurd hlt hroom, ?_, ?_⟩
    · rw [List.length_set, hsize]
    · intro i hi hlt
      rw [List.getElem_set]
      split_ifs with heq
      · omega
      · exact h.used i _ hlt
    · intro i hi hle
      rw [List.length_set, hsize] at hi
      simp only at hle
      omega

theorem RingHolds.addTime (h : RingHolds cbt) (btime : ℕ) :
    RingHolds ((circuitBuildTimesAddTime cbt btime).getD cbt) := by
  cases hadd : circuitBuildTimesAddTime cbt btime with
  | none => exact h
  | some next => exact ringHolds_addTime h hadd

theorem ringHolds_reached (hr : Reached ringSystem (fun _ _ => True) cbt) : RingHolds cbt := by
  refine hr.invariant ⟨?_, ?_⟩
  · rintro cbt rfl
    exact ringHolds_empty
  · rintro cbt ⟨btime⟩ cbt' h - rfl
    exact h.addTime btime

theorem RingHolds.le_max (h : RingHolds cbt) {btime : ℕ} (hb : btime ∈ cbt.circuitBuildTimes) :
    btime ≤ cbtBuildTimeMax := by
  obtain ⟨i, hi, rfl⟩ := List.mem_iff_getElem.mp hb
  rcases Nat.lt_or_ge i cbt.totalBuildTimes with hlt | hge
  · exact (h.used i hi hlt).2
  · rw [h.unused i hi hge]
    exact Nat.zero_le _

theorem RingHolds.split (h : RingHolds cbt) :
    ∃ times rest, cbt.circuitBuildTimes = times ++ rest ∧ times.length = cbt.totalBuildTimes ∧
      (∀ btime ∈ times, decide (btime ≠ 0) = true) ∧ ∀ btime ∈ rest, ¬ decide (btime ≠ 0) = true := by
  have hle : cbt.totalBuildTimes ≤ cbt.circuitBuildTimes.length := h.size ▸ h.total
  refine ⟨cbt.circuitBuildTimes.take cbt.totalBuildTimes,
    cbt.circuitBuildTimes.drop cbt.totalBuildTimes, (List.take_append_drop _ _).symm, ?_, ?_, ?_⟩
  · rw [List.length_take, Nat.min_eq_left hle]
  · intro btime hb
    obtain ⟨i, hi, rfl⟩ := List.mem_iff_getElem.mp hb
    rw [List.length_take] at hi
    rw [List.getElem_take]
    exact decide_eq_true (h.used i (by omega) (by omega)).1.ne'
  · intro btime hb
    obtain ⟨i, hi, rfl⟩ := List.mem_iff_getElem.mp hb
    rw [List.getElem_drop, h.unused _ _ (Nat.le_add_right _ i)]
    decide

theorem RingHolds.countP_used (h : RingHolds cbt) :
    cbt.circuitBuildTimes.countP (· ≠ 0) = cbt.totalBuildTimes := by
  obtain ⟨times, rest, hsplit, hlen, htimes, hrest⟩ := h.split
  rw [hsplit, List.countP_append, List.countP_eq_length.mpr htimes,
    List.countP_eq_zero.mpr hrest, hlen, Nat.add_zero]

theorem RingHolds.takeWhile_used (h : RingHolds cbt) :
    (cbt.circuitBuildTimes.takeWhile (· ≠ 0)).length = cbt.totalBuildTimes := by
  obtain ⟨times, rest, hsplit, hlen, htimes, hrest⟩ := h.split
  have hnone : rest.takeWhile (· ≠ 0) = [] := by
    cases rest with
    | nil => rfl
    | cons btime rest => exact List.takeWhile_cons_of_neg (hrest btime List.mem_cons_self)
  rw [hsplit, List.takeWhile_append_of_pos htimes, hnone, List.append_nil, hlen]

theorem RingHolds.total_eq (h : RingHolds cbt) :
    (circuitBuildTimesCreateHistogram cbt).sum + abandonedCount cbt = cbt.totalBuildTimes := by
  have hsplit : ∀ times : List ℕ,
      (times.countP fun btime => ¬ (btime = 0 ∨ btime = cbtBuildAbandoned)) +
        times.count cbtBuildAbandoned = times.countP (· ≠ 0) := by
    intro times
    induction times with
    | nil => rfl
    | cons t times ih =>
      have hone : (if decide (¬ (t = 0 ∨ t = cbtBuildAbandoned)) = true then 1 else 0) +
          (if (t == cbtBuildAbandoned) = true then 1 else 0) =
          if decide (t ≠ 0) = true then 1 else 0 := by
        by_cases h0 : t = 0
        · subst h0
          rfl
        · by_cases hab : t = cbtBuildAbandoned
          · subst hab
            rfl
          · simp [h0, hab]
      rw [List.countP_cons, List.count_cons, List.countP_cons, ← ih, ← hone]
      omega
  rw [createHistogram_eq, sum_tally binOf fun btime hb => binOf_lt_nbins hb, abandonedCount,
    ← h.countP_used, binned, ← List.countP_eq_length_filter]
  exact hsplit cbt.circuitBuildTimes

/-! ### An empty ring that times are added to -/

def ringOf (times : List ℕ) : BuildTimes :=
  ⟨times ++ List.replicate (cbtNcircuitsToObserve - times.length) 0,
    times.length % cbtNcircuitsToObserve, times.length⟩

theorem ringOf_nil : ringOf [] = emptyBuildTimes := rfl

def Accepted (btime : ℕ) : Prop := ¬ (btime = 0 ∨ btime > cbtBuildTimeMax)

instance : DecidablePred Accepted := fun btime =>
  inferInstanceAs (Decidable (¬ (btime = 0 ∨ btime > cbtBuildTimeMax)))

def addTimes (cbt : BuildTimes) (times : List ℕ) : BuildTimes :=
  times.foldl (fun cbt btime => (circuitBuildTimesAddTime cbt btime).getD cbt) cbt

theorem RingHolds.addTimes (h : RingHolds cbt) (times : List ℕ) :
    RingHolds (addTimes cbt times) := by
  induction times generalizing cbt with
  | nil => exact h
  | cons btime times ih => exact ih (h.addTime btime)

theorem addTime_ringOf {times : List ℕ} (h : times.length < cbtNcircuitsToObserve) {btime : ℕ}
    (hb : Accepted btime) :
    circuitBuildTimesAddTime (ringOf times) btime = some (ringOf (times ++ [btime])) := by
  have hroom : cbtNcircuitsToObserve - times.length =
      (cbtNcircuitsToObserve - (times ++ [btime]).length) + 1 := by
    rw [List.length_append, List.length_singleton]
    omega
  rw [circuitBuildTimesAddTime, if_neg hb]
  simp only [ringOf, Nat.mod_eq_of_lt h, if_pos h, List.length_append, List.length_singleton]
  rw [List.set_append_right _ _ (Nat.le_refl _), Nat.sub_self, hroom, List.replicate_succ,
    List.set_cons_zero, List.append_assoc, List.length_append, List.length_singleton]
  rfl

theorem addTimes_ringOf {times more : List ℕ}
    (h : times.length + more.length ≤ cbtNcircuitsToObserve) :
    addTimes (ringOf times) more = ringOf (times ++ more.filter Accepted) := by
  induction more generalizing times with
  | nil => rw [List.filter_nil, List.append_nil]; rfl
  | cons btime more ih =>
    rw [List.length_cons] at h
    rw [addTimes, List.foldl_cons]
    by_cases hb : Accepted btime
    · rw [addTime_ringOf (by omega) hb, Option.getD_some, ← addTimes, ih, List.filter_cons_of_pos,
        List.append_assoc, List.singleton_append]
      · exact decide_eq_true hb
      · rw [List.length_append, List.length_singleton]
        omega
    · have hrefused : circuitBuildTimesAddTime (ringOf times) btime = none :=
        if_pos (not_not.mp hb)
      rw [hrefused, Option.getD_none, ← addTimes, ih (by omega), List.filter_cons_of_neg]
      exact mt of_decide_eq_true hb

theorem binned_ringOf (times : List ℕ) :
    binned (ringOf times) =
      times.filter fun btime => ¬ (btime = 0 ∨ btime = cbtBuildAbandoned) := by
  rw [binned, ringOf, List.filter_append, List.filter_replicate_of_neg, List.append_nil]
  decide

theorem abandonedCount_ringOf (times : List ℕ) :
    abandonedCount (ringOf times) = times.count cbtBuildAbandoned := by
  rw [abandonedCount, ringOf, List.count_append, List.count_replicate, if_neg, Nat.add_zero]
  decide

end Circuitstats
