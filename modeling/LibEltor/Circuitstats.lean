/-
The ring of recent circuits of the build time statistics (`core/or/circuitstats.c`).

A slot of the ring is 1 where a circuit timed out behind its first hop and 0 where one succeeded.  A
consensus resizes the ring, or frees it; the index of the next slot is kept with the array that is
freed, and is not looked at when there is an array again.
-/
import LibEltor.DosCircuitCreation
import LibEltor.Transition

open Transition

namespace Circuitstats

/-- The part of `network_liveness_t` that is about the ring. -/
structure NetworkLiveness where
  timeoutsAfterFirsthop : Option (List ℤ)
  numRecentCircs : ℕ
  afterFirsthopIdx : ℕ

def cbtDefaultRecentCircuits : ℤ := 20

def cbtMinRecentCircuits : ℤ := 3

def cbtMaxRecentCircuits : ℤ := 1000

/-- From the parameter `cbtrecentcount` of a consensus that has it. -/
def recentCircuitCount (ns : Option ℤ) : ℤ :=
  Dos.networkstatusGetParam ns cbtDefaultRecentCircuits cbtMinRecentCircuits cbtMaxRecentCircuits

/-- None where the write is out of the array. -/
def writeAt (ring : List ℤ) (i : ℕ) (slot : ℤ) : Option (List ℤ) :=
  if i < ring.length then some (ring.set i slot) else none

/-- None where an array is shorter than `n`. -/
def memcpy (dest src : List ℤ) (n : ℕ) : Option (List ℤ) :=
  if n ≤ dest.length ∧ n ≤ src.length then some (src.take n ++ dest.drop n) else none

def circuitBuildTimesFreeTimeouts (cbt : NetworkLiveness) : NetworkLiveness :=
  { cbt with timeoutsAfterFirsthop := none, numRecentCircs := 0 }

def circuitBuildTimesInit (disabled : Bool) (ns : Option ℤ) : NetworkLiveness :=
  if disabled = false then
    ⟨some (List.replicate (recentCircuitCount ns).toNat 0), (recentCircuitCount ns).toNat, 0⟩
  else ⟨none, 0, 0⟩

/-- The array for `num` circuits; none where the assertion or a copy fails. -/
def resizeRing (num : ℕ) (cbt : NetworkLiveness) : Option NetworkLiveness := do
  let recentCircs := List.replicate num 0
  let recentCircs ←
    match cbt.timeoutsAfterFirsthop with
    | some ring =>
      if cbt.numRecentCircs > 0 then memcpy recentCircs ring (min num cbt.numRecentCircs)
      else some recentCircs
    | none => if cbt.numRecentCircs = 0 then some recentCircs else none
  -- only a ring that gets smaller has its index moved
  let idx := if num < cbt.numRecentCircs then min (num - 1) cbt.afterFirsthopIdx
    else cbt.afterFirsthopIdx
  some ⟨some recentCircs, num, idx⟩

def circuitBuildTimesNewConsensusParams (disabled : Bool) (ns : Option ℤ) (cbt : NetworkLiveness) :
    Option NetworkLiveness :=
  if disabled = false then
    let num := recentCircuitCount ns
    if num > 0 then
      if num ≠ cbt.numRecentCircs then resizeRing num.toNat cbt else some cbt
    else some (circuitBuildTimesFreeTimeouts cbt)
  else some (circuitBuildTimesFreeTimeouts cbt)

/-- What `circuit_build_times_network_circ_success` and `circuit_build_times_network_timeout` do to
the ring. -/
def recordCircuit (slot : ℤ) (cbt : NetworkLiveness) : Option NetworkLiveness :=
  match cbt.timeoutsAfterFirsthop with
  | none => some cbt
  | some ring =>
    if cbt.numRecentCircs > 0 then
      (writeAt ring cbt.afterFirsthopIdx slot).map fun ring =>
        { cbt with
          timeoutsAfterFirsthop := some ring
          afterFirsthopIdx := (cbt.afterFirsthopIdx + 1) % cbt.numRecentCircs }
    else some cbt

def circuitBuildTimesNetworkCircSuccess (cbt : NetworkLiveness) : Option NetworkLiveness :=
  recordCircuit 0 cbt

def circuitBuildTimesNetworkTimeout (didOnehop : Bool) (cbt : NetworkLiveness) :
    Option NetworkLiveness :=
  if didOnehop then recordCircuit 1 cbt else some cbt

/-- The ring is cleared where `maxTimeouts` of its circuits have timed out. -/
def circuitBuildTimesNetworkCheckChanged (maxTimeouts : ℤ) (cbt : NetworkLiveness) :
    NetworkLiveness :=
  let timeoutCount :=
    if cbt.numRecentCircs > 0 then
      ((cbt.timeoutsAfterFirsthop.getD []).take cbt.numRecentCircs).sum
    else 0
  if timeoutCount < maxTimeouts then cbt
  else
    { cbt with
      timeoutsAfterFirsthop :=
        if cbt.numRecentCircs > 0 then
          cbt.timeoutsAfterFirsthop.map fun ring =>
            List.replicate cbt.numRecentCircs 0 ++ ring.drop cbt.numRecentCircs
        else cbt.timeoutsAfterFirsthop
      afterFirsthopIdx := 0 }

def circuitBuildTimesCountTimeout (disabled : Bool) (didOnehop : Bool) (maxTimeouts : ℤ)
    (cbt : NetworkLiveness) : Option NetworkLiveness :=
  if disabled then some cbt
  else
    (circuitBuildTimesNetworkTimeout didOnehop cbt).map
      (circuitBuildTimesNetworkCheckChanged maxTimeouts)

/-! ### Runs -/

/-- Whether adaptive timeouts are disabled is asked in each call anew. -/
inductive CbtAction
  | newConsensus (disabled : Bool) (ns : Option ℤ)
  | circSuccess
  | countTimeout (disabled didOnehop : Bool) (maxTimeouts : ℤ)
  | freeTimeouts

def cbtStep (cbt : NetworkLiveness) : CbtAction → Option NetworkLiveness
  | .newConsensus disabled ns => circuitBuildTimesNewConsensusParams disabled ns cbt
  | .circSuccess => circuitBuildTimesNetworkCircSuccess cbt
  | .countTimeout disabled didOnehop maxTimeouts =>
    circuitBuildTimesCountTimeout disabled didOnehop maxTimeouts cbt
  | .freeTimeouts => some (circuitBuildTimesFreeTimeouts cbt)

def cbtSystem : System NetworkLiveness CbtAction where
  init := fun cbt => ∃ disabled ns, cbt = circuitBuildTimesInit disabled ns
  step := fun cbt a cbt' => cbtStep cbt a = some cbt'

/-- A ring that is made where there is none has room for the index that was kept. -/
def RoomForIndex (cbt : NetworkLiveness) : CbtAction → Prop
  | .newConsensus disabled ns =>
    disabled = false → cbt.timeoutsAfterFirsthop = none →
      (cbt.afterFirsthopIdx : ℤ) < recentCircuitCount ns
  | _ => True

/-- The index is in the ring, no step writes outside, and the ring has no more ones than slots. -/
structure RingSafe (cbt : NetworkLiveness) : Prop where
  index : ∀ ring, cbt.timeoutsAfterFirsthop = some ring → cbt.afterFirsthopIdx < cbt.numRecentCircs
  writes : ∀ a, (cbtStep cbt a).isSome = true
  ones : ∀ ring, cbt.timeoutsAfterFirsthop = some ring → ring.count 1 ≤ cbt.numRecentCircs

def RingSized (cbt : NetworkLiveness) : Prop :=
  match cbt.timeoutsAfterFirsthop with
  | none => cbt.numRecentCircs = 0
  | some ring => ring.length = cbt.numRecentCircs ∧ 0 < cbt.numRecentCircs

def IndexInRing (cbt : NetworkLiveness) : Prop :=
  cbt.timeoutsAfterFirsthop = none ∨ cbt.afterFirsthopIdx < cbt.numRecentCircs

structure RingInv (cbt : NetworkLiveness) : Prop where
  sized : RingSized cbt
  index : IndexInRing cbt

theorem recentCircuitCount_pos (ns : Option ℤ) : 0 < recentCircuitCount ns := by
  have hmem := Dos.networkstatusGetParam_mem ns cbtDefaultRecentCircuits
    (by decide : cbtMinRecentCircuits ≤ cbtMaxRecentCircuits)
  exact lt_of_lt_of_le (by decide) hmem.1

variable {cbt cbt' : NetworkLiveness}

theorem ringInv_init (disabled : Bool) (ns : Option ℤ) :
    RingInv (circuitBuildTimesInit disabled ns) := by
  have hpos := recentCircuitCount_pos ns
  have hnat : 0 < (recentCircuitCount ns).toNat := by omega
  rw [circuitBuildTimesInit]
  split_ifs
  · exact ⟨⟨List.length_replicate, hnat⟩, .inr hnat⟩
  · exact ⟨rfl, .inl rfl⟩

theorem resizeRing_spec (h : RingSized cbt) (num : ℕ) :
    ∃ ring : List ℤ, ring.length = num ∧
      resizeRing num cbt = some ⟨some ring, num,
        if num < cbt.numRecentCircs then min (num - 1) cbt.afterFirsthopIdx
        else cbt.afterFirsthopIdx⟩ := by
  unfold RingSized at h
  rw [resizeRing]
  cases hring : cbt.timeoutsAfterFirsthop with
  | none =>
    rw [hring] at h
    refine ⟨List.replicate num 0, List.length_replicate, ?_⟩
    simp only [h, if_true, Option.bind_eq_bind, Option.bind_some]
  | some ring =>
    rw [hring] at h
    obtain ⟨hlen, hpos⟩ := h
    have hfits : min num cbt.numRecentCircs ≤ (List.replicate num (0 : ℤ)).length ∧
        min num cbt.numRecentCircs ≤ ring.length := by
      rw [List.length_replicate, hlen]
      omega
    refine ⟨ring.take (min num cbt.numRecentCircs) ++
      (List.replicate num 0).drop (min num cbt.numRecentCircs), ?_, ?_⟩
    · rw [List.length_append, List.length_take, List.length_drop, List.length_replicate, hlen]
      omega
    · simp only [if_pos hpos, memcpy, if_pos hfits, Option.bind_eq_bind, Option.bind_some]

theorem recordCircuit_spec (h : RingInv cbt) (slot : ℤ) :
    ∃ cbt', recordCircuit slot cbt = some cbt' ∧ RingInv cbt' := by
  obtain ⟨hsized, hindex⟩ := h
  unfold RingSized at hsized
  rw [recordCircuit]
  cases hring : cbt.timeoutsAfterFirsthop with
  | none =>
    rw [hring] at hsized
    refine ⟨cbt, rfl, ?_, .inl hring⟩
    rw [RingSized, hring]
    exact hsized
  | some ring =>
    rw [hring] at hsized
    obtain ⟨hlen, hpos⟩ := hsized
    have hlt : cbt.afterFirsthopIdx < ring.length := by
      rw [hlen]
      exact hindex.resolve_left (by simp [hring])
    simp only [if_pos hpos, writeAt, if_pos hlt, Option.map_some]
    refine ⟨_, rfl, ⟨?_, hpos⟩, .inr (Nat.mod_lt _ hpos)⟩
    rw [List.length_set]
    exact hlen

theorem ringInv_checkChanged (maxTimeouts : ℤ) (h : RingInv cbt) :
    RingInv (circuitBuildTimesNetworkCheckChanged maxTimeouts cbt) := by
  have hsized := h.sized
  unfold RingSized at hsized
  simp only [circuitBuildTimesNetworkCheckChanged]
  generalize (if cbt.numRecentCircs > 0 then
    ((cbt.timeoutsAfterFirsthop.getD []).take cbt.numRecentCircs).sum else 0) = timeoutCount
  by_cases hfew : timeoutCount < maxTimeouts
  · rw [if_pos hfew]
    exact h
  · rw [if_neg hfew]
    cases hring : cbt.timeoutsAfterFirsthop with
    | none =>
      rw [hring] at hsized
      have hnone : (if cbt.numRecentCircs > 0 then
          (none : Option (List ℤ)).map fun ring =>
            List.replicate cbt.numRecentCircs 0 ++ ring.drop cbt.numRecentCircs
        else none) = none := by split_ifs <;> rfl
      rw [hnone]
      exact ⟨hsized, .inl rfl⟩
    | some ring =>
      rw [hring] at hsized
      obtain ⟨hlen, hpos⟩ := hsized
      rw [if_pos hpos, Option.map_some]
      refine ⟨⟨?_, hpos⟩, .inr hpos⟩
      rw [List.length_append, List.length_replicate, List.length_drop, hlen, Nat.sub_self]
      rfl

theorem ringInv_freeTimeouts : RingInv (circuitBuildTimesFreeTimeouts cbt) := ⟨rfl, .inl rfl⟩

theorem newConsensusParams_spec (h : RingInv cbt) (disabled : Bool) (ns : Option ℤ) :
    ∃ cbt', circuitBuildTimesNewConsensusParams disabled ns cbt = some cbt' ∧ RingSized cbt' ∧
      (IndexInRing cbt' ↔ RoomForIndex cbt (.newConsensus disabled ns)) := by
  obtain ⟨hsized, hindex⟩ := h
  have hpos := recentCircuitCount_pos ns
  rw [circuitBuildTimesNewConsensusParams]
  cases disabled with
  | true =>
    refine ⟨_, rfl, rfl, iff_of_true (.inl rfl) ?_⟩
    intro hon
    cases hon
  | false =>
    simp only [if_true, if_pos hpos]
    by_cases hsame : recentCircuitCount ns = cbt.numRecentCircs
    · rw [if_neg (not_not.mpr hsame)]
      refine ⟨cbt, rfl, hsized, iff_of_true hindex fun _ hnone => ?_⟩
      -- there is no ring of this size already
      rw [RingSized, hnone] at hsized
      simp only at hsized
      omega
    · rw [if_pos hsame]
      obtain ⟨ring, hlen, hresize⟩ := resizeRing_spec hsized (recentCircuitCount ns).toNat
      refine ⟨_, hresize, ⟨hlen, by simp only; omega⟩, ?_⟩
      cases hring : cbt.timeoutsAfterFirsthop with
      | none =>
        rw [RingSized, hring] at hsized
        simp only at hsized
        simp only [IndexInRing, RoomForIndex, hring, hsized, Nat.not_lt_zero, if_false, true_imp_iff,
          reduceCtorEq, false_or]
        omega
      | some old =>
        have hold : cbt.afterFirsthopIdx < cbt.numRecentCircs :=
          hindex.resolve_left (by simp [hring])
        refine iff_of_true (.inr ?_) fun _ hnone => ?_
        · simp only
          split_ifs <;> omega
        · rw [hring] at hnone
          cases hnone

theorem cbtStep_spec (h : RingInv cbt) (a : CbtAction) :
    ∃ cbt', cbtStep cbt a = some cbt' ∧ RingSized cbt' ∧
      (IndexInRing cbt' ↔ RoomForIndex cbt a) := by
  cases a with
  | newConsensus disabled ns => exact newConsensusParams_spec h disabled ns
  | circSuccess =>
    obtain ⟨cbt', hstep, hinv⟩ := recordCircuit_spec h 0
    exact ⟨cbt', hstep, hinv.sized, iff_of_true hinv.index trivial⟩
  | countTimeout disabled didOnehop maxTimeouts =>
    rw [cbtStep, circuitBuildTimesCountTimeout]
    cases disabled with
    | true => exact ⟨cbt, rfl, h.sized, iff_of_true h.index trivial⟩
    | false =>
      obtain ⟨cbt', htimeout, hinv⟩ :
          ∃ cbt', circuitBuildTimesNetworkTimeout didOnehop cbt = some cbt' ∧ RingInv cbt' := by
        rw [circuitBuildTimesNetworkTimeout]
        cases didOnehop with
        | true => exact recordCircuit_spec h 1
        | false => exact ⟨cbt, rfl, h⟩
      have hinv' := ringInv_checkChanged maxTimeouts hinv
      exact ⟨_, by rw [htimeout]; rfl, hinv'.sized, iff_of_true hinv'.index trivial⟩
  | freeTimeouts =>
    exact ⟨_, rfl, ringInv_freeTimeouts.sized, iff_of_true ringInv_freeTimeouts.index trivial⟩

theorem ringInv_reached (hr : Reached cbtSystem RoomForIndex cbt) : RingInv cbt := by
  refine hr.invariant ⟨?_, ?_⟩
  · rintro cbt ⟨disabled, ns, rfl⟩
    exact ringInv_init disabled ns
  · intro cbt a cbt' hinv hroom hstep
    obtain ⟨next, hnext, hsized, hiff⟩ := cbtStep_spec hinv a
    obtain rfl := Option.some.inj (hnext.symm.trans hstep)
    exact ⟨hsized, hiff.mpr hroom⟩

theorem RingInv.safe (h : RingInv cbt) : RingSafe cbt where
  index ring hring := h.index.resolve_left (by simp [hring])
  writes a := by
    obtain ⟨cbt', hstep, -⟩ := cbtStep_spec h a
    rw [hstep]
    rfl
  ones ring hring := by
    have hsized := h.sized
    rw [RingSized, hring] at hsized
    exact hsized.1 ▸ List.count_le_length

/-- While each ring that is made has room for the index that was kept, every write is in the ring; the
first one that has no room leaves the index outside. -/
theorem ring_kept (hr : Reached cbtSystem RoomForIndex cbt) :
    RingSafe cbt ∧ ∀ a cbt', cbtStep cbt a = some cbt' → (RingSafe cbt' ↔ RoomForIndex cbt a) := by
  have hinv := ringInv_reached hr
  refine ⟨hinv.safe, fun a cbt' hstep => ?_⟩
  obtain ⟨next, hnext, hsized, hiff⟩ := cbtStep_spec hinv a
  obtain rfl := Option.some.inj (hnext.symm.trans hstep)
  constructor
  · intro hsafe
    refine hiff.mp ?_
    cases hring : next.timeoutsAfterFirsthop with
    | none => exact .inl hring
    | some ring => exact .inr (hsafe.index ring hring)
  · intro hroom
    exact RingInv.safe ⟨hsized, hiff.mpr hroom⟩

/-- The ring of a client without a consensus, after one timeout. -/
theorem first_timeout_kept : RingSafe ⟨some (1 :: List.replicate 19 0), 20, 1⟩ :=
  have hinit : Reached cbtSystem RoomForIndex (circuitBuildTimesInit false none) :=
    .init ⟨false, none, rfl⟩
  have hroom : RoomForIndex (circuitBuildTimesInit false none) (.countTimeout false true 18) := trivial
  (ring_kept (hinit.step hroom (by rfl))).1

/-- Fifteen circuits, a consensus that disables adaptive timeouts, and one that counts ten recent
circuits only: the next circuit is written behind the ring. -/
theorem smaller_ring_overrun :
    ∃ cbt, Reached cbtSystem (fun _ _ => True) cbt ∧ ¬ RingSafe cbt ∧
      cbtStep cbt .circSuccess = none := by
  refine ⟨⟨some (List.replicate 10 0), 10, 15⟩, ?_, ?_, by decide⟩
  · refine Reached.foldlM (fun _ _ _ h => h)
      (List.replicate 15 .circSuccess ++ [.newConsensus true none, .newConsensus false (some 10)])
      (.init ⟨false, none, rfl⟩) ?_
    rfl
  · intro hsafe
    exact absurd (hsafe.index _ rfl) (by decide)

end Circuitstats
