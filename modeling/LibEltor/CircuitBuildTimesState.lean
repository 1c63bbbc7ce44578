/-
Circuit build times in the state file (`core/or/circuitstats.c`).

The state keeps the number of times, the number of circuits that were given up, and a line for each
bin of the histogram that is not empty.  Loading writes the times into an array of the size the state
gives, shuffles it and adds the times to an empty ring.
-/
import LibEltor.CircuitBuildTimes
import LibEltor.Protover
import LibEltor.Word

open Bytes Consdiff Smartlist Tally Transition Word

namespace Circuitstats

def cbtBinToMs (bin : ℕ) : ℕ := bin * cbtBinWidth + cbtBinWidth / 2

def intMax : ℕ := 2 ^ 31 - 1

def uint32Max : ℕ := 2 ^ 32 - 1

/-- The part of `or_state_t` that is about build times. -/
structure OrState where
  buildtimeHistogram : List Bytes
  totalBuildTimes : ℤ
  circuitBuildAbandonedCount : ℤ

/-- `"%d %d"` -/
def binLine (ms count : ℕ) : Bytes := decimal ms ++ 32 :: decimal count

def circuitBuildTimesUpdateState (cbt : BuildTimes) : OrState where
  buildtimeHistogram :=
    (circuitBuildTimesCreateHistogram cbt).zipIdx.filterMap fun (count, i) =>
      -- the blanks are skipped
      if count = 0 then none else some (binLine (cbtBinToMs i) count)
  totalBuildTimes := cbt.totalBuildTimes
  circuitBuildAbandonedCount := abandonedCount cbt

/-! ### The array -/

structure LoadedTimes where
  loadedTimes : List ℕ
  loadedCnt : ℕ

/-- None where the write is out of the array. -/
def storeTime (btime : ℕ) (l : LoadedTimes) : Option LoadedTimes :=
  if l.loadedCnt < l.loadedTimes.length then
    some ⟨l.loadedTimes.set l.loadedCnt btime, u32 (l.loadedCnt + 1)⟩
  else none

def storeTimes (btime : ℕ) : ℕ → LoadedTimes → Option LoadedTimes
  | 0, l => some l
  | count + 1, l => (storeTime btime l).bind (storeTimes btime count)

def parseWord (word : Bytes) (max : ℕ) : Option ℕ :=
  match Protover.torParseUlong word 0 max with
  | some (value, []) => some value
  | _ => none

/-- The milliseconds and the count of a line; none where it cannot be parsed. -/
def parseBin (line : Bytes) : Option (ℕ × ℕ) :=
  match splitString 32 line with
  | msStr :: countStr :: _ => do
    let ms ← parseWord msStr cbtBuildTimeMax
    let count ← parseWord countStr uint32Max
    some (ms, count)
  | _ => none

/-- The comparison that is made before a line is added, with the times there are then. -/
def RoomFor (total abandoned : ℤ) (cnt : ℕ) : Prop := ¬ u32 (cnt + u32 abandoned) > u32 total

instance (total abandoned : ℤ) (cnt : ℕ) : Decidable (RoomFor total abandoned cnt) :=
  inferInstanceAs (Decidable (¬ u32 (cnt + u32 abandoned) > u32 total))

/-- The array and `err`. -/
def loadLines (total abandoned : ℤ) : List Bytes → LoadedTimes → Option (LoadedTimes × Bool)
  | [], l => some (l, false)
  | line :: lines, l =>
    match parseBin line with
    | none => some (l, true)
    | some (ms, count) =>
      if RoomFor total abandoned (l.loadedCnt + count) then
        (storeTimes ms count l).bind (loadLines total abandoned lines)
      else some (l, false)

def swapTimes (rawTimes : List ℕ) (k n : ℕ) : List ℕ :=
  let tmp := rawTimes.getD k 0
  (rawTimes.set k (rawTimes.getD n 0)).set n tmp

/-- `rand n` is what `crypto_rand_int(n + 1)` returns. -/
def shuffle (rand : (n : ℕ) → Fin (n + 1)) : ℕ → List ℕ → List ℕ
  | n + 2, rawTimes => shuffle rand (n + 1) (swapTimes rawTimes (rand (n + 1)) (n + 1))
  | _, rawTimes => rawTimes

def circuitBuildTimesShuffleAndStoreArray (rand : (n : ℕ) → Fin (n + 1)) (cbt : BuildTimes)
    (rawTimes : List ℕ) (numTimes : ℕ) : BuildTimes :=
  let n := if numTimes > intMax - 1 then intMax - 1 else numTimes
  addTimes cbt ((shuffle rand n rawTimes).take (min numTimes cbtNcircuitsToObserve))

inductive Loaded
  /-- The array cannot be allocated. -/
  | aborted
  /-- A time is written behind the array. -/
  | outside
  | returned (code : ℤ) (cbt : BuildTimes)
  deriving DecidableEq

def circuitBuildTimesParseState (disabled : Bool) (rand : (n : ℕ) → Fin (n + 1))
    (state : OrState) : Loaded :=
  let total := state.totalBuildTimes
  let abandoned := state.circuitBuildAbandonedCount
  if disabled then .returned 0 emptyBuildTimes
  else if total ≤ 0 ∧ abandoned > 0 then .returned (-1) emptyBuildTimes
  -- a negative size is too large for an allocation
  else if total < 0 then .aborted
  else
    let lines := loadLines total abandoned state.buildtimeHistogram
      ⟨List.replicate total.toNat 0, 0⟩
    match lines.bind fun (l, err) =>
        (storeTimes cbtBuildAbandoned abandoned.toNat l).map (·, err) with
    | none => .outside
    | some (l, err) =>
      if l.loadedCnt ≠ u32 total then .returned (-1) emptyBuildTimes
      else
        let cbt := circuitBuildTimesShuffleAndStoreArray rand emptyBuildTimes l.loadedTimes
          l.loadedCnt
        let totValues := (cbt.circuitBuildTimes.takeWhile (· ≠ 0)).length
        if cbt.totalBuildTimes ≠ totValues ∨ cbt.totalBuildTimes > cbtNcircuitsToObserve then
          .returned (-1) emptyBuildTimes
        else .returned (if err then -1 else 0) cbt

/-! ### What is written into the array -/

/-- An array of `cap` entries the first ones of which are written. -/
def loadedOf (cap : ℕ) (times : List ℕ) : LoadedTimes :=
  ⟨times ++ List.replicate (cap - times.length) 0, times.length⟩

theorem storeTime_loadedOf {cap : ℕ} (hcap : cap < 2 ^ 31) {times : List ℕ}
    (h : times.length ≤ cap) (btime : ℕ) :
    storeTime btime (loadedOf cap times) =
      if times.length + 1 ≤ cap then some (loadedOf cap (times ++ [btime])) else none := by
  have hlen : (loadedOf cap times).loadedTimes.length = cap := by
    simp only [loadedOf, List.length_append, List.length_replicate]
    omega
  rw [storeTime, hlen]
  by_cases hroom : times.length + 1 ≤ cap
  · have hrest : cap - times.length = (cap - (times.length + 1)) + 1 := by omega
    have hcnt : u32 ((times.length : ℤ) + 1) = times.length + 1 := by
      exact_mod_cast wrap_natCast (show times.length + 1 < 2 ^ 32 by omega)
    rw [if_pos (show (loadedOf cap times).loadedCnt < cap from hroom), if_pos hroom]
    simp only [loadedOf, hcnt, List.length_append, List.length_singleton]
    rw [List.set_append_right _ _ (Nat.le_refl _), Nat.sub_self, hrest, List.replicate_succ,
      List.set_cons_zero, List.append_assoc, List.singleton_append]
  · rw [if_neg (show ¬ (loadedOf cap times).loadedCnt < cap from hroom), if_neg hroom]

theorem storeTimes_loadedOf {cap : ℕ} (hcap : cap < 2 ^ 31) (btime count : ℕ) {times : List ℕ}
    (h : times.length ≤ cap) :
    storeTimes btime count (loadedOf cap times) =
      if times.length + count ≤ cap then
        some (loadedOf cap (times ++ List.replicate count btime))
      else none := by
  induction count generalizing times with
  | zero => rw [storeTimes, if_pos (show times.length + 0 ≤ cap from h), List.replicate_zero, List.append_nil]
  | succ count ih =>
    rw [storeTimes, storeTime_loadedOf hcap h]
    by_cases hone : times.length + 1 ≤ cap
    · have hnext : (times ++ [btime]).length = times.length + 1 := by
        rw [List.length_append, List.length_singleton]
      rw [if_pos hone, Option.bind_some, ih (by omega), hnext, List.append_assoc,
        List.singleton_append, ← List.replicate_succ]
      simp only [Nat.add_assoc, Nat.add_comm 1 count]
    · rw [if_neg hone, if_neg (by omega), Option.bind_none]

/-- The counts of the lines before the first one that cannot be parsed. -/
def readCounts : List Bytes → List ℕ
  | [] => []
  | line :: lines =>
    match parseBin line with
    | none => []
    | some (_, count) => count :: readCounts lines

/-- While every line passes the comparison, with `cnt` times before them, there is room for the times
of these lines. -/
def FitsFrom (total abandoned : ℤ) (cnt : ℕ) (counts : List ℕ) : Prop :=
  ∀ n ≤ counts.length,
    (∀ j < n, RoomFor total abandoned (cnt + (counts.take (j + 1)).sum)) →
      ((cnt + (counts.take n).sum : ℕ) : ℤ) ≤ total

theorem fitsFrom_nil {total abandoned : ℤ} {cnt : ℕ} (h : (cnt : ℤ) ≤ total) :
    FitsFrom total abandoned cnt [] := by
  intro n _ _
  rw [List.take_nil, List.sum_nil, Nat.add_zero]
  exact h

theorem fitsFrom_cons {total abandoned : ℤ} {cnt count : ℕ} {counts : List ℕ}
    (h : (cnt : ℤ) ≤ total) :
    FitsFrom total abandoned cnt (count :: counts) ↔
      (RoomFor total abandoned (cnt + count) →
        ((cnt + count : ℕ) : ℤ) ≤ total ∧ FitsFrom total abandoned (cnt + count) counts) := by
  constructor
  · intro hfits hroom
    constructor
    · have hone := hfits 1 (by simp) fun j hj => by
        obtain rfl : j = 0 := by omega
        simpa using hroom
      simpa using hone
    · intro n hn hprev
      have hmore := hfits (n + 1) (by simpa using hn) fun j hj => by
        cases j with
        | zero => simpa using hroom
        | succ j =>
          have hj' := hprev j (by omega)
          rwa [List.take_succ_cons, List.sum_cons, ← Nat.add_assoc]
      rwa [List.take_succ_cons, List.sum_cons, ← Nat.add_assoc] at hmore
  · intro hstep n hn hprev
    cases n with
    | zero => simpa using h
    | succ n =>
      have hroom : RoomFor total abandoned (cnt + count) := by simpa using hprev 0 (by omega)
      have hrest := (hstep hroom).2 n (by simpa using hn) fun j hj => by
        have hj' := hprev (j + 1) (by omega)
        rwa [List.take_succ_cons, List.sum_cons, ← Nat.add_assoc] at hj'
      rwa [List.take_succ_cons, List.sum_cons, ← Nat.add_assoc]

theorem u32_of_mem {x : ℤ} (h0 : 0 ≤ x) (h1 : x < 2 ^ 32) : (u32 x : ℤ) = x := wrap_of_mem h0 h1

theorem roomFor_iff {total abandoned : ℤ} (htotal : total < 2 ^ 31) (h0 : 0 ≤ abandoned)
    (hle : abandoned ≤ total) {cnt : ℕ} (hcnt : (cnt : ℤ) ≤ total) :
    RoomFor total abandoned cnt ↔ cnt + abandoned ≤ total := by
  have hab : (u32 abandoned : ℤ) = abandoned := u32_of_mem h0 (by omega)
  have hsum : (u32 (cnt + u32 abandoned) : ℤ) = cnt + abandoned := by
    rw [hab]
    exact u32_of_mem (by omega) (by omega)
  have htot : (u32 total : ℤ) = total := u32_of_mem (by omega) (by omega)
  rw [RoomFor]
  omega

/-- The lines stay inside the array exactly if the times of the lines that pass the comparison have
room; what was given up then has room too, if it has before the lines. -/
theorem loadLines_spec {total : ℤ} (htotal : total < 2 ^ 31) (abandoned : ℤ) (lines : List Bytes)
    (times : List ℕ) (h : (times.length : ℤ) ≤ total) :
    (FitsFrom total abandoned times.length (readCounts lines) →
      ∃ stored err, loadLines total abandoned lines (loadedOf total.toNat times) =
          some (loadedOf total.toNat stored, err) ∧ (stored.length : ℤ) ≤ total ∧
        (abandoned ≤ total → times.length + abandoned ≤ total →
          stored.length + abandoned ≤ total)) ∧
    (¬ FitsFrom total abandoned times.length (readCounts lines) →
      loadLines total abandoned lines (loadedOf total.toNat times) = none) := by
  induction lines generalizing times with
  | nil =>
    exact ⟨fun _ => ⟨times, false, rfl, h, fun _ hroom => hroom⟩,
      fun hno => absurd (fitsFrom_nil h) hno⟩
  | cons line lines ih =>
    rw [loadLines, readCounts]
    cases hbin : parseBin line with
    | none =>
      exact ⟨fun _ => ⟨times, true, rfl, h, fun _ hroom => hroom⟩,
        fun hno => absurd (fitsFrom_nil h) hno⟩
    | some p =>
      obtain ⟨ms, count⟩ := p
      simp only
      rw [fitsFrom_cons h, show (loadedOf total.toNat times).loadedCnt = times.length from rfl]
      by_cases hpass : RoomFor total abandoned (times.length + count)
      · rw [if_pos hpass, storeTimes_loadedOf (by omega) ms count (by omega)]
        have hlen : (times ++ List.replicate count ms).length = times.length + count := by
          rw [List.length_append, List.length_replicate]
        by_cases hfit : times.length + count ≤ total.toNat
        · have hfit' : ((times.length + count : ℕ) : ℤ) ≤ total := by omega
          obtain ⟨hyes, hno⟩ := ih (times ++ List.replicate count ms)
            (by rw [hlen]; exact hfit')
          rw [hlen] at hyes hno
          rw [if_pos hfit, Option.bind_some]
          refine ⟨fun hfits => ?_, fun hfits => hno fun hmore => hfits fun _ => ⟨hfit', hmore⟩⟩
          obtain ⟨stored, err, hload, hstored, hmore⟩ := hyes (hfits hpass).2
          refine ⟨stored, err, hload, hstored, fun hle hroom => hmore hle ?_⟩
          rcases Int.lt_or_le abandoned 0 with hneg | h0
          · omega
          · exact (roomFor_iff htotal h0 hle hfit').mp hpass
        · rw [if_neg hfit, Option.bind_none]
          refine ⟨fun hfits => ?_, fun _ => rfl⟩
          have := (hfits hpass).1
          omega
      · rw [if_neg hpass]
        exact ⟨fun _ => ⟨times, false, rfl, h, fun _ hroom => hroom⟩,
          fun hno => absurd (fun hyes => absurd hyes hpass) hno⟩

theorem swapTimes_perm {rawTimes : List ℕ} {k n : ℕ} (hk : k < rawTimes.length)
    (hn : n < rawTimes.length) : (swapTimes rawTimes k n).Perm rawTimes := by
  simp only [swapTimes, List.getD_eq_getElem _ _ hk, List.getD_eq_getElem _ _ hn]
  exact List.set_set_perm hk hn

theorem shuffle_perm (rand : (n : ℕ) → Fin (n + 1)) {n : ℕ} {rawTimes : List ℕ}
    (h : n ≤ rawTimes.length) : (shuffle rand n rawTimes).Perm rawTimes := by
  induction n generalizing rawTimes with
  | zero => exact List.Perm.refl _
  | succ n ih =>
    cases n with
    | zero => exact List.Perm.refl _
    | succ n =>
      have hk : (rand (n + 1)).val < rawTimes.length := lt_of_lt_of_le (rand (n + 1)).isLt h
      have hswap := swapTimes_perm hk (show n + 1 < rawTimes.length from h)
      have hlen : n + 1 ≤ (swapTimes rawTimes (rand (n + 1)) (n + 1)).length := by
        rw [hswap.length_eq]
        omega
      exact (ih hlen).trans hswap

/-! ### Loading any state -/

/-- What was given up has room, and no line passes the comparison without having room. -/
def StateFits (disabled : Bool) (state : OrState) : Prop :=
  disabled = true ∨ state.totalBuildTimes < 0 ∨
    (state.totalBuildTimes = 0 ∧ state.circuitBuildAbandonedCount > 0) ∨
    (state.circuitBuildAbandonedCount ≤ state.totalBuildTimes ∧
      FitsFrom state.totalBuildTimes state.circuitBuildAbandonedCount 0
        (readCounts state.buildtimeHistogram))

variable {disabled : Bool} {rand : (n : ℕ) → Fin (n + 1)} {state : OrState}

def loadAll (state : OrState) : Option (LoadedTimes × Bool) :=
  (loadLines state.totalBuildTimes state.circuitBuildAbandonedCount state.buildtimeHistogram
    (loadedOf state.totalBuildTimes.toNat [])).bind fun (l, err) =>
      (storeTimes cbtBuildAbandoned state.circuitBuildAbandonedCount.toNat l).map (·, err)

theorem loadAll_none_iff (htotal : state.totalBuildTimes < 2 ^ 31)
    (h0 : 0 ≤ state.totalBuildTimes) :
    loadAll state = none ↔
      ¬ (state.circuitBuildAbandonedCount ≤ state.totalBuildTimes ∧
        FitsFrom state.totalBuildTimes state.circuitBuildAbandonedCount 0
          (readCounts state.buildtimeHistogram)) := by
  obtain ⟨hyes, hno⟩ := loadLines_spec htotal state.circuitBuildAbandonedCount
    state.buildtimeHistogram [] h0
  rw [List.length_nil] at hyes hno
  by_cases hfits : FitsFrom state.totalBuildTimes state.circuitBuildAbandonedCount 0
      (readCounts state.buildtimeHistogram)
  · obtain ⟨stored, err, hload, hstored, hroom⟩ := hyes hfits
    rw [loadAll, hload, Option.bind_some]
    simp only [hfits, and_true]
    rw [storeTimes_loadedOf (by omega) _ _ (by omega), Option.map_eq_none_iff, ite_eq_right_iff]
    have hfit : stored.length + state.circuitBuildAbandonedCount.toNat ≤
        state.totalBuildTimes.toNat ↔
        state.circuitBuildAbandonedCount ≤ state.totalBuildTimes := by
      constructor
      · omega
      · intro hle
        have := hroom hle (by simpa using hle)
        omega
    rw [hfit]
    simp
  · rw [loadAll, hno hfits, Option.bind_none]
    exact iff_of_true rfl fun h => hfits h.2

theorem parseState_eq (h0 : 0 ≤ state.totalBuildTimes)
    (hsome : ¬ (state.totalBuildTimes = 0 ∧ state.circuitBuildAbandonedCount > 0)) :
    circuitBuildTimesParseState false rand state =
      match loadAll state with
      | none => .outside
      | some (l, err) =>
        if l.loadedCnt ≠ u32 state.totalBuildTimes then .returned (-1) emptyBuildTimes
        else
          .returned (if err then -1 else 0)
            (circuitBuildTimesShuffleAndStoreArray rand emptyBuildTimes l.loadedTimes
              l.loadedCnt) := by
  rw [circuitBuildTimesParseState]
  simp only [Bool.false_eq_true, if_false]
  rw [if_neg (by omega), if_neg (by omega)]
  have hall : (loadLines state.totalBuildTimes state.circuitBuildAbandonedCount
      state.buildtimeHistogram ⟨List.replicate state.totalBuildTimes.toNat 0, 0⟩).bind
        (fun (l, err) =>
          (storeTimes cbtBuildAbandoned state.circuitBuildAbandonedCount.toNat l).map (·, err)) =
      loadAll state := rfl
  rw [hall]
  cases loadAll state with
  | none => rfl
  | some p =>
    obtain ⟨l, err⟩ := p
    -- the count of the entries is never wrong
    have hring : RingHolds (circuitBuildTimesShuffleAndStoreArray rand emptyBuildTimes
        l.loadedTimes l.loadedCnt) := ringHolds_empty.addTimes _
    have htotal := hring.total
    simp only [hring.takeWhile_used, ne_eq, not_true_eq_false, false_or]
    rw [if_neg (Nat.not_lt.mpr htotal)]

theorem parseState_cases (disabled : Bool) (rand : (n : ℕ) → Fin (n + 1)) (state : OrState) :
    (disabled = true ∧
        circuitBuildTimesParseState disabled rand state = .returned 0 emptyBuildTimes) ∨
      (state.totalBuildTimes ≤ 0 ∧ state.circuitBuildAbandonedCount > 0 ∧
        circuitBuildTimesParseState disabled rand state = .returned (-1) emptyBuildTimes) ∨
      (state.totalBuildTimes < 0 ∧
        circuitBuildTimesParseState disabled rand state = .aborted) ∨
      (disabled = false ∧ 0 ≤ state.totalBuildTimes ∧
        ¬ (state.totalBuildTimes = 0 ∧ state.circuitBuildAbandonedCount > 0)) := by
  cases disabled with
  | true => exact .inl ⟨rfl, rfl⟩
  | false =>
    refine .inr ?_
    by_cases hrefused : state.totalBuildTimes ≤ 0 ∧ state.circuitBuildAbandonedCount > 0
    · refine .inl ⟨hrefused.1, hrefused.2, ?_⟩
      simp only [circuitBuildTimesParseState, Bool.false_eq_true, if_false, if_pos hrefused]
    · by_cases hneg : state.totalBuildTimes < 0
      · refine .inr (.inl ⟨hneg, ?_⟩)
        simp only [circuitBuildTimesParseState, Bool.false_eq_true, if_false, if_neg hrefused,
          if_pos hneg]
      · exact .inr (.inr ⟨rfl, by omega, by omega⟩)

theorem parseState_outside_iff (htotal : state.totalBuildTimes < 2 ^ 31) :
    circuitBuildTimesParseState disabled rand state = .outside ↔ ¬ StateFits disabled state := by
  rcases parseState_cases disabled rand state with
    ⟨hoff, hparse⟩ | ⟨hle, hpos, hparse⟩ | ⟨hneg, hparse⟩ | ⟨rfl, h0, hsome⟩
  · exact iff_of_false (by simp [hparse]) (not_not.mpr (.inl hoff))
  · refine iff_of_false (by simp [hparse]) (not_not.mpr (.inr ?_))
    rcases Int.lt_or_eq_of_le hle with hneg | hzero
    · exact .inl hneg
    · exact .inr (.inl ⟨hzero, hpos⟩)
  · exact iff_of_false (by simp [hparse]) (not_not.mpr (.inr (.inl hneg)))
  · rw [parseState_eq h0 hsome, StateFits]
    simp only [Bool.false_eq_true, Int.not_lt.mpr h0, hsome, false_or]
    rw [← loadAll_none_iff htotal h0]
    cases loadAll state with
    | none => exact iff_of_true rfl rfl
    | some p =>
      simp only [reduceCtorEq, iff_false]
      split_ifs <;> simp

theorem parseState_ringHolds {code : ℤ} {cbt : BuildTimes}
    (h : circuitBuildTimesParseState disabled rand state = .returned code cbt) :
    RingHolds cbt := by
  rcases parseState_cases disabled rand state with
    ⟨-, hparse⟩ | ⟨-, -, hparse⟩ | ⟨-, hparse⟩ | ⟨rfl, h0, hsome⟩
  · obtain ⟨-, rfl⟩ := Loaded.returned.inj (hparse.symm.trans h)
    exact ringHolds_empty
  · obtain ⟨-, rfl⟩ := Loaded.returned.inj (hparse.symm.trans h)
    exact ringHolds_empty
  · rw [hparse] at h
    cases h
  · rw [parseState_eq h0 hsome] at h
    cases hall : loadAll state with
    | none =>
      rw [hall] at h
      cases h
    | some p =>
      rw [hall] at h
      simp only at h
      split_ifs at h <;>
        · obtain ⟨-, rfl⟩ := Loaded.returned.inj h
          first
          | exact ringHolds_empty
          | exact ringHolds_empty.addTimes _

/-! ### Loading what was saved -/

/-- The same histogram and the same number of circuits that were given up. -/
def Restored (disabled : Bool) (rand : (n : ℕ) → Fin (n + 1)) (cbt : BuildTimes) : Prop :=
  ∃ cbt', circuitBuildTimesParseState disabled rand (circuitBuildTimesUpdateState cbt) =
      .returned 0 cbt' ∧
    circuitBuildTimesCreateHistogram cbt' = circuitBuildTimesCreateHistogram cbt ∧
    abandonedCount cbt' = abandonedCount cbt

theorem parseWord_decimal {n max : ℕ} (hn : n ≤ max) (hmax : max ≤ Protover.ulongMax) :
    parseWord (decimal n) max = some n := by
  have h := Protover.torParseUlong_decimal (Nat.zero_le n) hn hmax (e := []) rfl
  rw [List.append_nil] at h
  rw [parseWord, h]

theorem parseBin_binLine {ms count : ℕ} (hms : ms ≤ cbtBuildTimeMax) (hcount : count ≤ uint32Max) :
    parseBin (binLine ms count) = some (ms, count) := by
  rw [parseBin, binLine, splitString_append (Protover.trimmed_decimal ms) (Protover.space_notMem_decimal ms),
    splitString_self (Protover.trimmed_decimal count) (Protover.space_notMem_decimal count)]
  simp only
  rw [parseWord_decimal hms (by decide), parseWord_decimal hcount (by decide)]
  rfl

theorem loadLines_saved (total abandoned : ℤ) (htotal : total < 2 ^ 31) (h0 : 0 ≤ abandoned)
    (bins : List (ℕ × ℕ)) (hms : ∀ p ∈ bins, cbtBinToMs p.2 ≤ cbtBuildTimeMax)
    (times : List ℕ)
    (hroom : ((times.length + (bins.map Prod.fst).sum : ℕ) : ℤ) + abandoned ≤ total) :
    loadLines total abandoned
        (bins.filterMap fun (count, i) =>
          if count = 0 then none else some (binLine (cbtBinToMs i) count))
        (loadedOf total.toNat times) =
      some (loadedOf total.toNat
        (times ++ bins.flatMap fun p => List.replicate p.1 (cbtBinToMs p.2)), false) := by
  induction bins generalizing times with
  | nil =>
    rw [List.filterMap_nil, loadLines, List.flatMap_nil, List.append_nil]
  | cons p bins ih =>
    obtain ⟨count, i⟩ := p
    have hrest := fun p hp => hms p (List.mem_cons_of_mem (count, i) hp)
    rw [List.map_cons, List.sum_cons] at hroom
    simp only at hroom
    rw [List.flatMap_cons]
    by_cases hc : count = 0
    · subst hc
      rw [List.filterMap_cons_none rfl, ih hrest times (by rwa [Nat.zero_add] at hroom)]
      rfl
    · have hcount : count ≤ uint32Max := by
        unfold uint32Max
        omega
      have hfits : times.length + count ≤ total.toNat := by omega
      have hlen : (times ++ List.replicate count (cbtBinToMs i)).length = times.length + count := by
        rw [List.length_append, List.length_replicate]
      have hpass : RoomFor total abandoned (times.length + count) := by
        refine (roomFor_iff htotal h0 (by omega) (by omega)).mpr ?_
        omega
      rw [List.filterMap_cons]
      simp only [if_neg hc]
      rw [loadLines, parseBin_binLine (hms (count, i) List.mem_cons_self) hcount]
      simp only
      rw [show (loadedOf total.toNat times).loadedCnt = times.length from rfl, if_pos hpass,
        storeTimes_loadedOf (by omega) _ _ (by omega), if_pos hfits, Option.bind_some,
        ih hrest _ (by rw [hlen]; omega), List.append_assoc]

theorem binToMs_le {cbt : BuildTimes} (h : RingHolds cbt) {i : ℕ} (hi : i < nbins cbt) :
    cbtBinToMs i ≤ cbtBuildTimeMax := by
  have hmax : circuitBuildTimesMax cbt ≤ cbtBuildTimeMax := by
    rcases (circuitBuildTimesMax_spec cbt).2 with h0 | hmem
    · rw [h0]
      exact Nat.zero_le _
    · exact h.le_max (mem_binned.mp hmem).1
  unfold nbins at hi
  unfold cbtBinToMs
  unfold cbtBinWidth cbtBuildTimeMax at *
  omega

theorem binToMs_spec (i : ℕ) :
    binOf (cbtBinToMs i) = i ∧ cbtBinToMs i ≠ 0 ∧ cbtBinToMs i ≠ cbtBuildAbandoned := by
  unfold binOf cbtBinToMs cbtBinWidth cbtBuildAbandoned
  omega

def savedTimes (cbt : BuildTimes) : List ℕ :=
  expand cbtBinToMs (circuitBuildTimesCreateHistogram cbt) ++
    List.replicate (abandonedCount cbt) cbtBuildAbandoned

variable {cbt : BuildTimes}

theorem RingHolds.length_savedTimes (h : RingHolds cbt) :
    (savedTimes cbt).length = cbt.totalBuildTimes := by
  rw [savedTimes, List.length_append, length_expand, List.length_replicate, h.total_eq]

theorem RingHolds.accepted_savedTimes (h : RingHolds cbt) {btime : ℕ}
    (hb : btime ∈ savedTimes cbt) : Accepted btime := by
  rcases List.mem_append.mp hb with hb | hb
  · obtain ⟨i, hi, rfl⟩ := mem_expand hb
    rw [createHistogram_eq, length_tally] at hi
    have hle := binToMs_le h hi
    have hpos := (binToMs_spec i).2.1
    rw [Accepted]
    omega
  · rw [List.eq_of_mem_replicate hb]
    decide

theorem binned_savedTimes :
    (savedTimes cbt).filter (fun btime => ¬ (btime = 0 ∨ btime = cbtBuildAbandoned)) =
      expand cbtBinToMs (circuitBuildTimesCreateHistogram cbt) := by
  rw [savedTimes, List.filter_append, List.filter_replicate_of_neg (by decide), List.append_nil,
    List.filter_eq_self]
  intro btime hb
  obtain ⟨i, -, rfl⟩ := mem_expand hb
  refine decide_eq_true ?_
  rintro (h0 | hab)
  · exact (binToMs_spec i).2.1 h0
  · exact (binToMs_spec i).2.2 hab

theorem count_savedTimes : (savedTimes cbt).count cbtBuildAbandoned = abandonedCount cbt := by
  rw [savedTimes, List.count_append, List.count_replicate_self, List.count_eq_zero.mpr,
    Nat.zero_add]
  intro hb
  obtain ⟨i, -, hi⟩ := mem_expand hb
  exact (binToMs_spec i).2.2 hi.symm

theorem RingHolds.loadAll_saved (h : RingHolds cbt) :
    loadAll (circuitBuildTimesUpdateState cbt) =
      some (loadedOf cbt.totalBuildTimes (savedTimes cbt), false) := by
  have htotal := h.total
  have hsum := h.total_eq
  unfold cbtNcircuitsToObserve at htotal
  have hms : ∀ p ∈ (circuitBuildTimesCreateHistogram cbt).zipIdx,
      cbtBinToMs p.2 ≤ cbtBuildTimeMax := by
    intro p hp
    have hi := (List.mem_zipIdx (x := p.1) (i := p.2) hp).2.1
    rw [createHistogram_eq, length_tally] at hi
    exact binToMs_le h (by omega)
  have hfst : ((circuitBuildTimesCreateHistogram cbt).zipIdx.map Prod.fst) =
      circuitBuildTimesCreateHistogram cbt := List.zipIdx_map_fst 0 _
  have hload := loadLines_saved cbt.totalBuildTimes (abandonedCount cbt)
    (by omega) (by omega) _ hms [] (by rw [hfst, List.length_nil]; omega)
  rw [loadAll, circuitBuildTimesUpdateState, Int.toNat_natCast]
  rw [Int.toNat_natCast] at hload
  rw [hload, Option.bind_some]
  simp only
  have hlen : (expand cbtBinToMs (circuitBuildTimesCreateHistogram cbt)).length +
      abandonedCount cbt = cbt.totalBuildTimes := by rw [length_expand, hsum]
  rw [List.nil_append, ← expand, Int.toNat_natCast, storeTimes_loadedOf (by omega) _ _ (by omega),
    if_pos hlen.le]
  rfl

theorem restored_of_ringHolds (h : RingHolds cbt) (rand : (n : ℕ) → Fin (n + 1)) :
    Restored false rand cbt := by
  have htotal := h.total
  have hsum := h.total_eq
  have hlen := h.length_savedTimes
  have hcnt : u32 (cbt.totalBuildTimes : ℤ) = cbt.totalBuildTimes :=
    wrap_natCast (by unfold cbtNcircuitsToObserve at htotal; omega)
  have hperm := shuffle_perm rand (Nat.le_of_eq hlen.symm)
  have hring : circuitBuildTimesShuffleAndStoreArray rand emptyBuildTimes
      (loadedOf cbt.totalBuildTimes (savedTimes cbt)).loadedTimes
      (loadedOf cbt.totalBuildTimes (savedTimes cbt)).loadedCnt =
      ringOf (shuffle rand cbt.totalBuildTimes (savedTimes cbt)) := by
    have hn : ¬ cbt.totalBuildTimes > intMax - 1 := by
      unfold intMax
      unfold cbtNcircuitsToObserve at htotal
      omega
    simp only [circuitBuildTimesShuffleAndStoreArray, loadedOf, hlen, Nat.sub_self,
      List.replicate_zero, List.append_nil, if_neg hn, Nat.min_eq_left htotal]
    have hall : (shuffle rand cbt.totalBuildTimes (savedTimes cbt)).length =
        cbt.totalBuildTimes := by rw [hperm.length_eq, hlen]
    rw [List.take_of_length_le hall.le, ← ringOf_nil, addTimes_ringOf, List.nil_append,
      List.filter_eq_self.mpr]
    · intro btime hb
      exact decide_eq_true (h.accepted_savedTimes (hperm.mem_iff.mp hb))
    · rw [hall, List.length_nil, Nat.zero_add]
      exact htotal
  refine ⟨ringOf (shuffle rand cbt.totalBuildTimes (savedTimes cbt)), ?_, ?_, ?_⟩
  · rw [parseState_eq (Int.natCast_nonneg _) (by simp only [circuitBuildTimesUpdateState]; omega),
      h.loadAll_saved]
    simp only
    rw [hring, if_neg]
    · rfl
    · rw [not_not, circuitBuildTimesUpdateState, hcnt]
      exact hlen
  · refine createHistogram_congr fun i => ?_
    rw [binned_ringOf, (hperm.filter _).countP_eq, binned_savedTimes,
      countP_expand fun i => (binToMs_spec i).1, createHistogram_eq,
      getD_tally binOf fun btime hb => binOf_lt_nbins hb]
  · rw [abandonedCount_ringOf, hperm.count_eq, count_savedTimes]

theorem restored_disabled_iff (h : RingHolds cbt) :
    Restored true rand cbt ↔ cbt.totalBuildTimes = 0 := by
  have hsum := h.total_eq
  have hempty := ringHolds_empty.total_eq
  constructor
  · rintro ⟨cbt', hparse, hhist, hab⟩
    obtain ⟨-, rfl⟩ := Loaded.returned.inj hparse
    rw [hhist, hab, hsum] at hempty
    exact hempty
  · intro h0
    have hbinned : ∀ {cbt : BuildTimes}, (circuitBuildTimesCreateHistogram cbt).sum = 0 →
        binned cbt = [] := by
      intro cbt hcbt
      rw [createHistogram_eq, sum_tally binOf fun btime hb => binOf_lt_nbins hb] at hcbt
      exact List.length_eq_zero_iff.mp hcbt
    have htotal : emptyBuildTimes.totalBuildTimes = 0 := rfl
    refine ⟨emptyBuildTimes, rfl, createHistogram_congr fun i => ?_, by omega⟩
    rw [hbinned (by omega), hbinned (by omega)]

/-- Loading stays inside the array exactly if what is loaded has room, without being counted past the
comparison; what it returns is a ring; and what was saved is loaded, unless that is turned off. -/
theorem parseState_iff (disabled : Bool) (rand : (n : ℕ) → Fin (n + 1)) {state : OrState}
    (htotal : state.totalBuildTimes < 2 ^ 31) {cbt : BuildTimes}
    (hr : Reached ringSystem (fun _ _ => True) cbt) :
    (circuitBuildTimesParseState disabled rand state ≠ .outside ↔ StateFits disabled state) ∧
    (∀ loaded, circuitBuildTimesParseState disabled rand state = .returned 0 loaded →
      loaded.circuitBuildTimes.countP (· ≠ 0) = loaded.totalBuildTimes) ∧
    (Restored disabled rand cbt ↔ disabled = false ∨ cbt.totalBuildTimes = 0) := by
  have hring := ringHolds_reached hr
  refine ⟨?_, fun loaded hloaded => (parseState_ringHolds hloaded).countP_used, ?_⟩
  · rw [ne_eq, parseState_outside_iff htotal, not_not]
  · cases disabled with
    | false => exact iff_of_true (restored_of_ringHolds hring rand) (.inl rfl)
    | true => simpa using restored_disabled_iff hring

/-- One circuit that was given up, and a ring with one time. -/
theorem one_abandoned_loaded :
    circuitBuildTimesParseState false (fun _ => 0) ⟨[], 1, 1⟩ ≠ .outside ∧
      Restored false (fun _ => 0)
        ((circuitBuildTimesAddTime emptyBuildTimes 12).getD emptyBuildTimes) := by
  have hr : Reached ringSystem (fun _ _ => True)
      ((circuitBuildTimesAddTime emptyBuildTimes 12).getD emptyBuildTimes) := by
    refine Reached.step (s := emptyBuildTimes) (a := Added.addTime 12) (.init rfl) trivial ?_
    rfl
  have hstate : (OrState.mk [] 1 1).totalBuildTimes < 2 ^ 31 := by decide
  have h := parseState_iff false (fun _ => 0) hstate hr
  exact ⟨h.1.mpr (.inr (.inr (.inr ⟨by decide, fitsFrom_nil (by decide)⟩))), h.2.2.mpr (.inl rfl)⟩

/-- Two circuits that were given up in an array for one time, and a count that wraps around. -/
theorem written_behind_array :
    circuitBuildTimesParseState false (fun _ => 0) ⟨[], 1, 2⟩ = .outside ∧
      circuitBuildTimesParseState false (fun _ => 0) ⟨[binLine 5 4294967295], 1, 1⟩ = .outside := by
  refine ⟨by decide, (parseState_outside_iff (by decide)).mpr ?_⟩
  rintro (hoff | hneg | ⟨hzero, -⟩ | ⟨-, hfits⟩)
  · cases hoff
  · exact absurd hneg (by decide)
  · exact absurd hzero (by decide)
  · have hcounts : readCounts [binLine 5 4294967295] = [4294967295] := by
      rw [readCounts, parseBin_binLine (by decide) (by decide)]
      rfl
    simp only [hcounts] at hfits
    exact absurd (hfits 1 (by decide) (by decide)) (by decide)

end Circuitstats
