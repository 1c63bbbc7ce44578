/-
Circuits that wait for a better guard (`entrynodes.c`).

A circuit whose guard worked may have to wait until it is known that the preferred guards do not.
`entry_guards_upgrade_waiting_circuits` looks for a waiting circuit of the best priority, tests it
against what may block it, and upgrades it and some others of its priority.  `Blocks` is the rule in
its comment, for each waiting circuit by itself.
-/
import LibEltor.EntryGuardState

open Transition

namespace EntryGuards

/-! ### Circuits and their guard states -/

/-- `entry_guard_restriction_t` -/
inductive Restriction (D : Type)
  | exitNode (excludeId : D)
  | outdatedMdDirserver
  | exclList (excluded : List D)

inductive GuardCircState
  | usableOnCompletion
  | usableIfNoBetterGuard
  | waitingForBetterGuard
  | complete
  | dead
deriving DecidableEq

/-- `circuit_guard_state_t`; the handle is the address of a guard, that may be gone. -/
structure CircuitGuardState (D : Type) where
  guard : ℕ
  stateSetAt : ℤ
  state : GuardCircState
  restrictions : Option (Restriction D)

/-- What is read of an `origin_circuit_t`. -/
structure GuardedCircuit (D : Type) where
  guardState : Option (CircuitGuardState D)
  markedForClose : Bool

structure UpgradeEnv (D A : Type) extends Env D A where
  inNodeFamily : Guard D A → D → Bool
  isOutdatedDirserver : Option D → Bool
  nonprimaryGuardConnectTimeout : ℤ

variable {D A C : Type} [DecidableEq D] [DecidableEq A] [DecidableEq C]

def guardObeysExitRestriction (env : UpgradeEnv D A) (guard : Guard D A) (excludeId : D) : Bool :=
  if env.inNodeFamily guard excludeId then false else decide (guard.identity ≠ some excludeId)

def entryGuardObeysRestriction (env : UpgradeEnv D A) (guard : Guard D A) :
    Option (Restriction D) → Bool
  | none => true
  | some (.exitNode excludeId) => guardObeysExitRestriction env guard excludeId
  | some .outdatedMdDirserver => !env.isOutdatedDirserver guard.identity
  | some (.exclList excluded) => !(excluded.any fun id => decide (guard.identity = some id))

/-- `entry_guard_has_higher_priority`, of two addresses. -/
def entryGuardHasHigherPriority (s : Selection D A) (a b : ℕ) : Bool :=
  if a = b then false
  else if (s.mem a).confirmedIdx < 0 ∧ 0 ≤ (s.mem b).confirmedIdx then false
  else if 0 ≤ (s.mem a).confirmedIdx then
    if (s.mem b).confirmedIdx < 0 then true
    else decide ((s.mem a).confirmedIdx < (s.mem b).confirmedIdx)
  else if (s.mem a).isPending then
    if !(s.mem b).isPending then true
    else decide ((s.mem a).lastTriedToConnect < (s.mem b).lastTriedToConnect)
  else false

/-- `entry_guard_handle_get`; a guard of another selection is passed over like one that is gone. -/
def entryGuardHandleGet (s : Selection D A) (state : CircuitGuardState D) : Option ℕ :=
  if state.guard ∈ s.sampledEntryGuards then some state.guard else none

def circStateHasHigherPriority (env : UpgradeEnv D A) (s : Selection D A)
    (a : CircuitGuardState D) (rst : Option (Restriction D)) (b : CircuitGuardState D) : Bool :=
  match entryGuardHandleGet s a, entryGuardHandleGet s b with
  | none, _ => false
  | some _, none => true
  | some guardA, some guardB =>
    if !entryGuardObeysRestriction env (s.mem guardA) rst then false
    else entryGuardHasHigherPriority s guardA guardB

/-! ### The upgrade -/

def primaryGuardsDownLoop (env : Env D A) : List ℕ → Selection D A → Selection D A × Bool
  | [], s => (s, true)
  | p :: ps, s =>
    let s := s.update p (considerRetry env)
    if (s.mem p).isReachable ≠ .no then (s, false) else primaryGuardsDownLoop env ps s

def entryGuardsAllPrimaryGuardsAreDown (env : Env D A) (s : Selection D A) :
    Option (Selection D A × Bool) :=
  (updatePrimaryIfNeeded env s).map fun s => primaryGuardsDownLoop env s.primaryEntryGuards s

/-- The guard state of a circuit that is ours and can be reasoned about. -/
def consideredState (s : Selection D A) (circ : GuardedCircuit D) : Option (CircuitGuardState D) :=
  match circ.guardState with
  | none => none
  | some state =>
    if (entryGuardHandleGet s state).isNone then none
    else if circ.markedForClose then none else some state

def allCircuits (s : Selection D A) (mem : C → GuardedCircuit D) (allCircuitsIn : List C) :
    List (C × CircuitGuardState D) :=
  allCircuitsIn.filterMap fun circ => (consideredState s (mem circ)).map fun state => (circ, state)

def bestWaitingLoop (env : UpgradeEnv D A) (s : Selection D A) :
    List (C × CircuitGuardState D) → Option (C × CircuitGuardState D) →
      Option (C × CircuitGuardState D)
  | [], best => best
  | circ :: circs, best =>
    if circ.2.state = .waitingForBetterGuard then
      match best with
      | none => bestWaitingLoop env s circs (some circ)
      | some b =>
        if circStateHasHigherPriority env s circ.2 none b.2 then bestWaitingLoop env s circs (some circ)
        else bestWaitingLoop env s circs (some b)
    else bestWaitingLoop env s circs best

def completeBlocks (env : UpgradeEnv D A) (s : Selection D A) (best : CircuitGuardState D)
    (state : CircuitGuardState D) : Bool :=
  decide (state.state = .complete) && circStateHasHigherPriority env s state best.restrictions best

def pendingBlocks (env : UpgradeEnv D A) (s : Selection D A) (best : CircuitGuardState D)
    (state : CircuitGuardState D) : Bool :=
  decide (state.state = .usableIfNoBetterGuard) &&
    decide (env.now - env.nonprimaryGuardConnectTimeout < state.stateSetAt) &&
    circStateHasHigherPriority env s state best.restrictions best

def CircuitGuardState.completed (now : ℤ) (state : CircuitGuardState D) : CircuitGuardState D :=
  { state with state := .complete, stateSetAt := now }

def setComplete (now : ℤ) (circ : C) (mem : C → GuardedCircuit D) : C → GuardedCircuit D :=
  Function.update mem circ
    { mem circ with guardState := (mem circ).guardState.map (·.completed now) }

def upgradeLoop (env : UpgradeEnv D A) (s : Selection D A) (best : C × CircuitGuardState D) :
    List C → (C → GuardedCircuit D) → List C → (C → GuardedCircuit D) × List C
  | [], mem, newlyComplete => (mem, newlyComplete)
  | circ :: circs, mem, newlyComplete =>
    match (mem circ).guardState with
    | none => upgradeLoop env s best circs mem newlyComplete
    | some state =>
      if circ ≠ best.1 ∧ best.2.restrictions.isSome then upgradeLoop env s best circs mem newlyComplete
      else if state.state ≠ .waitingForBetterGuard then upgradeLoop env s best circs mem newlyComplete
      else if circStateHasHigherPriority env s best.2 none state then
        upgradeLoop env s best circs mem newlyComplete
      else upgradeLoop env s best circs (setComplete env.now circ mem) (newlyComplete ++ [circ])

/-- The part of `entry_guards_upgrade_waiting_circuits` behind the test of the primary guards; none
where it returns 0. -/
def upgradeBest (env : UpgradeEnv D A) (s : Selection D A) (mem : C → GuardedCircuit D)
    (allCircuitsIn : List C) : Option ((C → GuardedCircuit D) × List C) :=
  let circs := allCircuits s mem allCircuitsIn
  match bestWaitingLoop env s circs none with
  | none => none
  | some best =>
    if circs.any fun circ => completeBlocks env s best.2 circ.2 then none
    else if circs.any fun circ => pendingBlocks env s best.2 circ.2 then none
    else some (upgradeLoop env s best (circs.map Prod.fst) mem [])

/-- Selection and circuits after the call, and the circuits it upgraded, if it returned 1; none where
an assertion fails. -/
def entryGuardsUpgradeWaitingCircuits (env : UpgradeEnv D A) (s : Selection D A)
    (mem : C → GuardedCircuit D) (allCircuitsIn : List C) :
    Option (Selection D A × Option ((C → GuardedCircuit D) × List C)) :=
  (entryGuardsAllPrimaryGuardsAreDown env.toEnv s).map fun (s, down) =>
    (s, if down then upgradeBest env s mem allCircuitsIn else none)

/-- Confirmed guards by their index, then pending ones by when they were tried, then the others. -/
def priorityKey (g : Guard D A) : ℕ ×ₗ ℤ :=
  if 0 ≤ g.confirmedIdx then toLex (0, g.confirmedIdx)
  else if g.isPending then toLex (1, g.lastTriedToConnect)
  else toLex (2, 0)

omit [DecidableEq D] [DecidableEq A] in
theorem hasHigherPriority_iff (s : Selection D A) (a b : ℕ) :
    entryGuardHasHigherPriority s a b = true ↔ priorityKey (s.mem a) < priorityKey (s.mem b) := by
  unfold entryGuardHasHigherPriority
  by_cases hab : a = b
  · rw [if_pos hab, hab]
    simp
  · rw [if_neg hab]
    unfold priorityKey
    by_cases ha : 0 ≤ (s.mem a).confirmedIdx <;> by_cases hb : 0 ≤ (s.mem b).confirmedIdx <;>
      cases hpa : (s.mem a).isPending <;> cases hpb : (s.mem b).isPending <;>
        simp [ha, hb, Prod.Lex.toLex_lt_toLex, not_lt.mpr, lt_of_not_ge]

section Rule

variable (env : UpgradeEnv D A) (s : Selection D A) (mem : C → GuardedCircuit D) (circuits : List C)

def CircuitGuardState.Obstructs (state : CircuitGuardState D) : Prop :=
  state.state = .complete ∨ state.state = .waitingForBetterGuard ∨
    state.state = .usableIfNoBetterGuard ∧
      env.now - state.stateSetAt < env.nonprimaryGuardConnectTimeout

structure Blocks (c2 c1 : CircuitGuardState D) : Prop where
  obstructs : c2.Obstructs env
  obeys : entryGuardObeysRestriction env (s.mem c2.guard) c1.restrictions = true
  higher : entryGuardHasHigherPriority s c2.guard c1.guard = true

def Waits (c : C) (state : CircuitGuardState D) : Prop :=
  c ∈ circuits ∧ consideredState s (mem c) = some state ∧ state.state = .waitingForBetterGuard

def Unblocked (state : CircuitGuardState D) : Prop :=
  ∀ c2 ∈ circuits, ∀ state2, consideredState s (mem c2) = some state2 → ¬ Blocks env s state2 state

def Allowed (c : C) : Prop :=
  ∃ state, Waits s mem circuits c state ∧ Unblocked env s mem circuits state

end Rule

/-! ### Circuits that have been upgraded -/

section Rounds

variable {env : UpgradeEnv D A} {s : Selection D A} {mem : C → GuardedCircuit D}
  {circuits upgraded : List C} {c : C} {state : CircuitGuardState D}

omit [DecidableEq A]

def GuardedCircuit.completed (now : ℤ) (circ : GuardedCircuit D) : GuardedCircuit D :=
  { circ with guardState := circ.guardState.map (·.completed now) }

def afterUpgrade (now : ℤ) (upgraded : List C) (mem : C → GuardedCircuit D) (c : C) :
    GuardedCircuit D :=
  if c ∈ upgraded then (mem c).completed now else mem c

omit [DecidableEq D] in
theorem consideredState_eq_some {circ : GuardedCircuit D} :
    consideredState s circ = some state ↔
      circ.guardState = some state ∧ state.guard ∈ s.sampledEntryGuards ∧
        circ.markedForClose = false := by
  unfold consideredState entryGuardHandleGet
  cases circ.guardState with
  | none => simp
  | some st =>
    by_cases hmem : st.guard ∈ s.sampledEntryGuards
    · cases hmarked : circ.markedForClose
      · simp only [if_pos hmem, Option.isNone_some, and_true]
        constructor
        · intro h
          obtain rfl := Option.some.inj h
          exact ⟨rfl, hmem⟩
        · exact fun h => h.1
      · simp [hmem]
    · simp only [if_neg hmem, Option.isNone_none]
      constructor
      · exact fun h => absurd h (by simp)
      · rintro ⟨heq, hguard, -⟩
        exact absurd (Option.some.inj heq ▸ hguard) hmem

omit [DecidableEq D] [DecidableEq C] in
theorem mem_allCircuits {circ : C × CircuitGuardState D} :
    circ ∈ allCircuits s mem circuits ↔
      circ.1 ∈ circuits ∧ consideredState s (mem circ.1) = some circ.2 := by
  unfold allCircuits
  simp only [List.mem_filterMap, Option.map_eq_some_iff]
  constructor
  · rintro ⟨c, hc, st, hst, rfl⟩
    exact ⟨hc, hst⟩
  · rintro ⟨hc, hst⟩
    exact ⟨circ.1, hc, circ.2, hst, rfl⟩

omit [DecidableEq D] in
theorem consideredState_afterUpgrade {now : ℤ} :
    consideredState s (afterUpgrade now upgraded mem c) =
      if c ∈ upgraded then (consideredState s (mem c)).map (·.completed now)
      else consideredState s (mem c) := by
  unfold afterUpgrade
  by_cases hc : c ∈ upgraded
  · rw [if_pos hc, if_pos hc]
    unfold consideredState GuardedCircuit.completed
    cases (mem c).guardState with
    | none => rfl
    | some st =>
      simp only [Option.map_some, entryGuardHandleGet, CircuitGuardState.completed]
      split_ifs <;> rfl
  · rw [if_neg hc, if_neg hc]

omit [DecidableEq C] in
theorem circStateHasHigherPriority_eq {a b : CircuitGuardState D} (rst : Option (Restriction D))
    (ha : a.guard ∈ s.sampledEntryGuards) (hb : b.guard ∈ s.sampledEntryGuards) :
    circStateHasHigherPriority env s a rst b = true ↔
      entryGuardObeysRestriction env (s.mem a.guard) rst = true ∧
        entryGuardHasHigherPriority s a.guard b.guard = true := by
  unfold circStateHasHigherPriority entryGuardHandleGet
  simp only [if_pos ha, if_pos hb]
  cases entryGuardObeysRestriction env (s.mem a.guard) rst <;> simp

omit [DecidableEq C] in
theorem circStateHasHigherPriority_none {a b : CircuitGuardState D}
    (ha : a.guard ∈ s.sampledEntryGuards) (hb : b.guard ∈ s.sampledEntryGuards) :
    circStateHasHigherPriority env s a none b = true ↔
      priorityKey (s.mem a.guard) < priorityKey (s.mem b.guard) := by
  rw [circStateHasHigherPriority_eq none ha hb, hasHigherPriority_iff]
  exact and_iff_right rfl

def Known (s : Selection D A) (circs : List (C × CircuitGuardState D)) : Prop :=
  ∀ circ ∈ circs, circ.2.guard ∈ s.sampledEntryGuards

variable (env) in
omit [DecidableEq C] in
theorem bestWaitingLoop_some {circs : List (C × CircuitGuardState D)} (hknown : Known s circs)
    {start : C × CircuitGuardState D} (hstart : start.2.guard ∈ s.sampledEntryGuards) :
    ∃ best, bestWaitingLoop env s circs (some start) = some best ∧
      (best = start ∨ best ∈ circs ∧ best.2.state = .waitingForBetterGuard) ∧
      priorityKey (s.mem best.2.guard) ≤ priorityKey (s.mem start.2.guard) ∧
      (∀ circ ∈ circs, circ.2.state = .waitingForBetterGuard →
        priorityKey (s.mem best.2.guard) ≤ priorityKey (s.mem circ.2.guard)) ∧
      ((∀ circ ∈ circs, circ.2.state = .waitingForBetterGuard →
        priorityKey (s.mem start.2.guard) ≤ priorityKey (s.mem circ.2.guard)) → best = start) := by
  induction circs generalizing start with
  | nil =>
    exact ⟨start, rfl, .inl rfl, le_refl _, fun circ h => absurd h (by simp), fun _ => rfl⟩
  | cons circ circs ih =>
    have hcirc := hknown circ List.mem_cons_self
    have hrest : Known s circs := fun other h => hknown other (List.mem_cons_of_mem _ h)
    rw [bestWaitingLoop]
    by_cases hwait : circ.2.state = .waitingForBetterGuard
    · rw [if_pos hwait]
      by_cases hhigher : circStateHasHigherPriority env s circ.2 none start.2 = true
      · rw [if_pos hhigher]
        have hlt := (circStateHasHigherPriority_none hcirc hstart).mp hhigher
        obtain ⟨best, heq, hfrom, hle, hall, hfirst⟩ := ih hrest hcirc
        refine ⟨best, heq, .inr ?_, hle.trans hlt.le, fun other ho hw => ?_, fun h => ?_⟩
        · obtain rfl | ⟨hmem, hw⟩ := hfrom
          · exact ⟨List.mem_cons_self, hwait⟩
          · exact ⟨List.mem_cons_of_mem _ hmem, hw⟩
        · obtain rfl | ho := List.mem_cons.mp ho
          · exact hle
          · exact hall other ho hw
        · exact absurd (h circ List.mem_cons_self hwait) (not_le.mpr hlt)
      · rw [if_neg hhigher]
        rw [circStateHasHigherPriority_none hcirc hstart, not_lt] at hhigher
        obtain ⟨best, heq, hfrom, hle, hall, hfirst⟩ := ih hrest hstart
        refine ⟨best, heq, ?_, hle, fun other ho hw => ?_, fun h => ?_⟩
        · exact hfrom.imp_right fun hmem => ⟨List.mem_cons_of_mem _ hmem.1, hmem.2⟩
        · obtain rfl | ho := List.mem_cons.mp ho
          · exact hle.trans hhigher
          · exact hall other ho hw
        · exact hfirst fun other ho => h other (List.mem_cons_of_mem _ ho)
    · rw [if_neg hwait]
      obtain ⟨best, heq, hfrom, hle, hall, hfirst⟩ := ih hrest hstart
      refine ⟨best, heq, ?_, hle, fun other ho hw => ?_, fun h => ?_⟩
      · exact hfrom.imp_right fun hmem => ⟨List.mem_cons_of_mem _ hmem.1, hmem.2⟩
      · obtain rfl | ho := List.mem_cons.mp ho
        · exact absurd hw hwait
        · exact hall other ho hw
      · exact hfirst fun other ho => h other (List.mem_cons_of_mem _ ho)

/-- What the loop finds: a waiting circuit of the best priority, and the first one if that is. -/
structure IsBest (s : Selection D A) (circs : List (C × CircuitGuardState D))
    (best : C × CircuitGuardState D) : Prop where
  mem : best ∈ circs
  waits : best.2.state = .waitingForBetterGuard
  le : ∀ circ ∈ circs, circ.2.state = .waitingForBetterGuard →
    priorityKey (s.mem best.2.guard) ≤ priorityKey (s.mem circ.2.guard)
  first : ∀ circ rest, circs = circ :: rest → circ.2.state = .waitingForBetterGuard →
    priorityKey (s.mem circ.2.guard) ≤ priorityKey (s.mem best.2.guard) → best = circ

variable (env) in
omit [DecidableEq C] in
theorem bestWaitingLoop_spec {circs : List (C × CircuitGuardState D)} (hknown : Known s circs) :
    match bestWaitingLoop env s circs none with
    | none => ∀ circ ∈ circs, circ.2.state ≠ .waitingForBetterGuard
    | some best => IsBest s circs best := by
  induction circs with
  | nil => exact fun circ h => absurd h (by simp)
  | cons circ circs ih =>
    have hcirc := hknown circ List.mem_cons_self
    have hrest : Known s circs := fun other h => hknown other (List.mem_cons_of_mem _ h)
    rw [bestWaitingLoop]
    by_cases hwait : circ.2.state = .waitingForBetterGuard
    · rw [if_pos hwait]
      obtain ⟨best, heq, hfrom, hle, hall, hfirst⟩ := bestWaitingLoop_some env hrest hcirc
      rw [heq]
      refine ⟨?_, ?_, fun other ho hw => ?_, fun head rest hcons hw hback => ?_⟩
      · obtain rfl | hmem := hfrom
        · exact List.mem_cons_self
        · exact List.mem_cons_of_mem _ hmem.1
      · obtain rfl | hmem := hfrom
        · exact hwait
        · exact hmem.2
      · obtain rfl | ho := List.mem_cons.mp ho
        · exact hle
        · exact hall other ho hw
      · obtain ⟨rfl, rfl⟩ := List.cons.inj hcons
        exact hfirst fun other ho hw' => hback.trans (hall other ho hw')
    · rw [if_neg hwait]
      have hih := ih hrest
      cases hbest : bestWaitingLoop env s circs none with
      | none =>
        rw [hbest] at hih
        intro other ho
        obtain rfl | ho := List.mem_cons.mp ho
        · exact hwait
        · exact hih other ho
      | some best =>
        rw [hbest] at hih
        refine ⟨List.mem_cons_of_mem _ hih.mem, hih.waits, fun other ho hw => ?_,
          fun head rest hcons hw hback => ?_⟩
        · obtain rfl | ho := List.mem_cons.mp ho
          · exact absurd hw hwait
          · exact hih.le other ho hw
        · obtain ⟨rfl, rfl⟩ := List.cons.inj hcons
          exact absurd hw hwait

/-! ### One round -/

omit [DecidableEq D] in
theorem completed_completed (now : ℤ) (circ : GuardedCircuit D) :
    (circ.completed now).completed now = circ.completed now := by
  unfold GuardedCircuit.completed
  cases circ.guardState <;> rfl

omit [DecidableEq D] in
theorem afterUpgrade_append (now : ℤ) (upgraded new : List C) (mem : C → GuardedCircuit D) :
    afterUpgrade now new (afterUpgrade now upgraded mem) = afterUpgrade now (upgraded ++ new) mem := by
  funext c
  unfold afterUpgrade
  by_cases hnew : c ∈ new <;> by_cases hold : c ∈ upgraded <;>
    simp [hnew, hold, completed_completed]

omit [DecidableEq D] in
theorem setComplete_eq (now : ℤ) (circ : C) (mem : C → GuardedCircuit D) :
    setComplete now circ mem = afterUpgrade now [circ] mem := by
  funext c
  unfold setComplete afterUpgrade
  by_cases hc : c = circ
  · rw [hc, Function.update_self, if_pos (List.mem_singleton_self _)]
    rfl
  · rw [Function.update_of_ne hc, if_neg (by simpa using hc)]

def Chosen (env : UpgradeEnv D A) (s : Selection D A) (best : C × CircuitGuardState D) (c : C)
    (circ : GuardedCircuit D) : Prop :=
  ∃ state, circ.guardState = some state ∧ (c = best.1 ∨ best.2.restrictions = none) ∧
    state.state = .waitingForBetterGuard ∧
      circStateHasHigherPriority env s best.2 none state = false

theorem upgradeLoop_spec (env : UpgradeEnv D A) (s : Selection D A)
    (best : C × CircuitGuardState D) (circs : List C) (mem : C → GuardedCircuit D) (newlyComplete : List C) :
    ∃ new, upgradeLoop env s best circs mem newlyComplete =
        (afterUpgrade env.now new mem, newlyComplete ++ new) ∧
      ∀ c, c ∈ new ↔ c ∈ circs ∧ Chosen env s best c (mem c) := by
  induction circs generalizing mem newlyComplete with
  | nil =>
    refine ⟨[], ?_, fun c => by simp⟩
    rw [upgradeLoop, List.append_nil]
    rfl
  | cons circ circs ih =>
    by_cases hchosen : Chosen env s best circ (mem circ)
    · obtain ⟨state, hstate, hallowed, hwait, hlower⟩ := hchosen
      have hgo : ¬ (circ ≠ best.1 ∧ best.2.restrictions.isSome = true) := by
        rintro ⟨hne, hrst⟩
        obtain heq | hnone := hallowed
        · exact hne heq
        · rw [hnone] at hrst
          exact absurd hrst (by simp)
      obtain ⟨new, heq, hnew⟩ := ih (afterUpgrade env.now [circ] mem) (newlyComplete ++ [circ])
      refine ⟨circ :: new, ?_, fun c => ?_⟩
      · rw [upgradeLoop]
        simp only [hstate]
        rw [if_neg hgo, if_neg (not_not.mpr hwait), if_neg (by rw [hlower]; simp), setComplete_eq,
          heq, afterUpgrade_append, List.append_assoc]
        rfl
      · rw [List.mem_cons, hnew, List.mem_cons]
        by_cases hc : c = circ
        · subst hc
          exact iff_of_true (.inl rfl) ⟨.inl rfl, state, hstate, hallowed, hwait, hlower⟩
        · have hsame : afterUpgrade env.now [circ] mem c = mem c := if_neg (by simpa using hc)
          rw [hsame]
          simp [hc]
    · obtain ⟨new, heq, hnew⟩ := ih mem newlyComplete
      refine ⟨new, ?_, fun c => ?_⟩
      · rw [← heq, upgradeLoop]
        cases hstate : (mem circ).guardState with
        | none => rfl
        | some state =>
          simp only
          split_ifs with hrst hwait hlower
          · rfl
          · rfl
          · rfl
          · refine absurd ⟨state, hstate, ?_, not_not.mp hwait, by simpa using hlower⟩ hchosen
            by_cases hc : circ = best.1
            · exact .inl hc
            · exact .inr (by simpa [hc] using hrst)
      · rw [hnew, List.mem_cons]
        constructor
        · exact fun h => ⟨.inr h.1, h.2⟩
        · rintro ⟨rfl | hmem, hc⟩
          · exact absurd hc hchosen
          · exact ⟨hmem, hc⟩

structure BestLeft (s : Selection D A) (mem : C → GuardedCircuit D) (circuits upgraded : List C)
    (best : C × CircuitGuardState D) : Prop where
  waits : Waits s mem circuits best.1 best.2
  left : best.1 ∉ upgraded
  le : ∀ c state, Waits s mem circuits c state → c ∉ upgraded →
    priorityKey (s.mem best.2.guard) ≤ priorityKey (s.mem state.guard)
  first : ∀ c rest state, circuits = c :: rest → Waits s mem circuits c state → c ∉ upgraded →
    priorityKey (s.mem state.guard) ≤ priorityKey (s.mem best.2.guard) → best = (c, state)

omit [DecidableEq D] in
theorem mem_allCircuits_after {circ : C × CircuitGuardState D} {now : ℤ}
    (hwait : circ.2.state = .waitingForBetterGuard) :
    circ ∈ allCircuits s (afterUpgrade now upgraded mem) circuits ↔
      Waits s mem circuits circ.1 circ.2 ∧ circ.1 ∉ upgraded := by
  rw [mem_allCircuits, consideredState_afterUpgrade]
  by_cases hc : circ.1 ∈ upgraded
  · rw [if_pos hc]
    refine iff_of_false (fun h => ?_) fun h => h.2 hc
    obtain ⟨old, -, heq⟩ := Option.map_eq_some_iff.mp h.2
    rw [← heq] at hwait
    exact absurd hwait (by simp [CircuitGuardState.completed])
  · rw [if_neg hc]
    exact ⟨fun h => ⟨⟨h.1, h.2, hwait⟩, hc⟩, fun h => ⟨h.1.1, h.1.2.1⟩⟩

omit [DecidableEq D] [DecidableEq C] in
theorem known_allCircuits : Known s (allCircuits s mem circuits) := fun _ h =>
  (consideredState_eq_some.mp (mem_allCircuits.mp h).2).2.1

omit [DecidableEq D] in
theorem IsBest.bestLeft {now : ℤ} {best : C × CircuitGuardState D}
    (h : IsBest s (allCircuits s (afterUpgrade now upgraded mem) circuits) best) :
    BestLeft s mem circuits upgraded best := by
  obtain ⟨hwaits, hleft⟩ := (mem_allCircuits_after h.waits).mp h.mem
  refine ⟨hwaits, hleft, fun c state hc hnew => ?_, fun c rest state hcons hc hnew hback => ?_⟩
  · exact h.le (c, state) ((mem_allCircuits_after hc.2.2).mpr ⟨hc, hnew⟩) hc.2.2
  · have hstate : consideredState s (afterUpgrade now upgraded mem c) = some state := by
      rw [consideredState_afterUpgrade, if_neg hnew]
      exact hc.2.1
    have hhead : allCircuits s (afterUpgrade now upgraded mem) circuits =
        (c, state) :: allCircuits s (afterUpgrade now upgraded mem) rest := by
      rw [hcons]
      exact List.filterMap_cons_some (by rw [hstate]; rfl)
    exact h.first _ _ hhead hc.2.2 hback

def AllWaited (s : Selection D A) (mem : C → GuardedCircuit D) (circuits upgraded : List C) : Prop :=
  ∀ c ∈ upgraded, ∃ state, Waits s mem circuits c state

variable (env) in
theorem tests_iff {best : C × CircuitGuardState D} (hup : AllWaited s mem circuits upgraded)
    (hbest : BestLeft s mem circuits upgraded best) :
    ((allCircuits s (afterUpgrade env.now upgraded mem) circuits).any
          (fun circ => completeBlocks env s best.2 circ.2) = false ∧
        (allCircuits s (afterUpgrade env.now upgraded mem) circuits).any
          (fun circ => pendingBlocks env s best.2 circ.2) = false) ↔
      Unblocked env s mem circuits best.2 := by
  have hguard := (consideredState_eq_some.mp hbest.waits.2.1).2.1
  constructor
  · rintro ⟨hcomplete, hpending⟩ c2 hc2 state2 hstate2 hblocks
    rw [List.any_eq_false] at hcomplete hpending
    have hguard2 := (consideredState_eq_some.mp hstate2).2.1
    have hhigher : circStateHasHigherPriority env s state2 best.2.restrictions best.2 = true :=
      (circStateHasHigherPriority_eq _ hguard2 hguard).mpr ⟨hblocks.obeys, hblocks.higher⟩
    by_cases hin : c2 ∈ upgraded
    · refine hcomplete (c2, state2.completed env.now) (mem_allCircuits.mpr ⟨hc2, ?_⟩) ?_
      · rw [consideredState_afterUpgrade, if_pos hin, hstate2]
        rfl
      · exact Bool.and_eq_true_iff.mpr ⟨decide_eq_true rfl, hhigher⟩
    · have hmem : (c2, state2) ∈ allCircuits s (afterUpgrade env.now upgraded mem) circuits := by
        refine mem_allCircuits.mpr ⟨hc2, ?_⟩
        rw [consideredState_afterUpgrade, if_neg hin]
        exact hstate2
      obtain hcomp | hwait | ⟨husable, htime⟩ := hblocks.obstructs
      · exact hcomplete _ hmem (Bool.and_eq_true_iff.mpr ⟨decide_eq_true hcomp, hhigher⟩)
      · have hle := hbest.le c2 state2 ⟨hc2, hstate2, hwait⟩ hin
        exact absurd ((hasHigherPriority_iff s _ _).mp hblocks.higher) (not_lt.mpr hle)
      · refine hpending _ hmem ?_
        unfold pendingBlocks
        simp only [husable, hhigher, decide_true, Bool.true_and, Bool.and_true, decide_eq_true_eq]
        omega
  · intro hunblocked
    have hblock : ∀ circ ∈ allCircuits s (afterUpgrade env.now upgraded mem) circuits,
        circStateHasHigherPriority env s circ.2 best.2.restrictions best.2 = true →
        (circ.2.state = .complete ∨ circ.2.state = .usableIfNoBetterGuard ∧
          env.now - env.nonprimaryGuardConnectTimeout < circ.2.stateSetAt) → False := by
      intro circ hcirc hhigher hkind
      obtain ⟨hin, hstate⟩ := mem_allCircuits.mp hcirc
      have hguard2 := (consideredState_eq_some.mp hstate).2.1
      obtain ⟨hobeys, hprior⟩ := (circStateHasHigherPriority_eq _ hguard2 hguard).mp hhigher
      rw [consideredState_afterUpgrade] at hstate
      by_cases hc : circ.1 ∈ upgraded
      · obtain ⟨old, hold⟩ := hup _ hc
        rw [if_pos hc, hold.2.1] at hstate
        have heq : old.completed env.now = circ.2 := Option.some.inj hstate
        rw [← heq] at hobeys hprior
        exact hunblocked circ.1 hin old hold.2.1 ⟨.inr (.inl hold.2.2), hobeys, hprior⟩
      · rw [if_neg hc] at hstate
        refine hunblocked circ.1 hin circ.2 hstate ⟨?_, hobeys, hprior⟩
        obtain hcomp | ⟨husable, htime⟩ := hkind
        · exact .inl hcomp
        · exact .inr (.inr ⟨husable, by omega⟩)
    constructor
    · rw [List.any_eq_false]
      intro circ hcirc hblocks
      obtain ⟨hcomp, hhigher⟩ := Bool.and_eq_true_iff.mp hblocks
      exact hblock circ hcirc hhigher (.inl (of_decide_eq_true hcomp))
    · rw [List.any_eq_false]
      intro circ hcirc hblocks
      obtain ⟨hpend, hhigher⟩ := Bool.and_eq_true_iff.mp hblocks
      obtain ⟨husable, htime⟩ := Bool.and_eq_true_iff.mp hpend
      exact hblock circ hcirc hhigher (.inr ⟨of_decide_eq_true husable, of_decide_eq_true htime⟩)

/-- What one round does to circuits of which some have been upgraded. -/
structure Round (env : UpgradeEnv D A) (s : Selection D A) (mem : C → GuardedCircuit D)
    (circuits upgraded new : List C) (best : C × CircuitGuardState D) : Prop where
  left : BestLeft s mem circuits upgraded best
  unblocked : Unblocked env s mem circuits best.2
  mem_new : best.1 ∈ new
  new : ∀ c ∈ new, c ∉ upgraded ∧ ∃ state, Waits s mem circuits c state ∧
    priorityKey (s.mem state.guard) ≤ priorityKey (s.mem best.2.guard) ∧
      (c = best.1 ∨ best.2.restrictions = none)

variable (env s mem circuits upgraded) in
theorem upgradeBest_spec (hup : AllWaited s mem circuits upgraded) :
    match upgradeBest env s (afterUpgrade env.now upgraded mem) circuits with
    | none => ∀ c state, Waits s mem circuits c state → c ∉ upgraded →
        ∃ best, BestLeft s mem circuits upgraded best ∧ ¬ Unblocked env s mem circuits best.2
    | some (mem', new) => mem' = afterUpgrade env.now (upgraded ++ new) mem ∧
        ∃ best, Round env s mem circuits upgraded new best := by
  unfold upgradeBest
  simp only
  have hspec := bestWaitingLoop_spec env
    (show Known s (allCircuits s (afterUpgrade env.now upgraded mem) circuits) from
      known_allCircuits)
  cases hloop : bestWaitingLoop env s
      (allCircuits s (afterUpgrade env.now upgraded mem) circuits) none with
  | none =>
    rw [hloop] at hspec
    intro c state hc hnew
    exact absurd hc.2.2 (hspec (c, state) ((mem_allCircuits_after hc.2.2).mpr ⟨hc, hnew⟩))
  | some best =>
    rw [hloop] at hspec
    have hbest := hspec.bestLeft
    have htests := tests_iff env hup hbest
    simp only
    by_cases hcomplete : (allCircuits s (afterUpgrade env.now upgraded mem) circuits).any
        (fun circ => completeBlocks env s best.2 circ.2) = true
    · rw [if_pos hcomplete]
      intro c state hc hnew
      refine ⟨best, hbest, fun hun => ?_⟩
      rw [(htests.mpr hun).1] at hcomplete
      exact absurd hcomplete (by simp)
    · rw [if_neg hcomplete]
      by_cases hpending : (allCircuits s (afterUpgrade env.now upgraded mem) circuits).any
          (fun circ => pendingBlocks env s best.2 circ.2) = true
      · rw [if_pos hpending]
        intro c state hc hnew
        refine ⟨best, hbest, fun hun => ?_⟩
        rw [(htests.mpr hun).2] at hpending
        exact absurd hpending (by simp)
      · rw [if_neg hpending]
        have hunblocked := htests.mp ⟨by simpa using hcomplete, by simpa using hpending⟩
        have hguard := (consideredState_eq_some.mp hbest.waits.2.1).2.1
        obtain ⟨new, heq, hnew⟩ := upgradeLoop_spec env s best
          ((allCircuits s (afterUpgrade env.now upgraded mem) circuits).map Prod.fst)
          (afterUpgrade env.now upgraded mem) []
        rw [heq, List.nil_append]
        refine ⟨afterUpgrade_append _ _ _ _, best, hbest, hunblocked, ?_, fun c hc => ?_⟩
        · refine (hnew best.1).mpr ⟨List.mem_map_of_mem hspec.mem, best.2,
            (consideredState_eq_some.mp (mem_allCircuits.mp hspec.mem).2).1, .inl rfl, hspec.waits, ?_⟩
          rw [Bool.eq_false_iff, ne_eq, circStateHasHigherPriority_none hguard hguard]
          exact lt_irrefl _
        · obtain ⟨hmem, state, hstate, hallowed, hwait, hlower⟩ := (hnew c).mp hc
          obtain ⟨circ, hcirc, rfl⟩ := List.mem_map.mp hmem
          have hconsidered := consideredState_eq_some.mp (mem_allCircuits.mp hcirc).2
          obtain rfl : circ.2 = state := Option.some.inj (hconsidered.1.symm.trans hstate)
          obtain ⟨hwaits, hleft⟩ := (mem_allCircuits_after hwait).mp hcirc
          refine ⟨hleft, circ.2, hwaits, ?_, hallowed⟩
          rw [Bool.eq_false_iff, ne_eq, circStateHasHigherPriority_none hguard hconsidered.2.1,
            not_lt] at hlower
          exact hlower

omit [DecidableEq C] in
theorem Round.allowed {new : List C} {best : C × CircuitGuardState D}
    (h : Round env s mem circuits upgraded new best) :
    ∀ c ∈ new, Allowed env s mem circuits c := by
  intro c hc
  obtain ⟨-, state, hwaits, hle, hkind⟩ := h.new c hc
  refine ⟨state, hwaits, fun c2 hc2 state2 hstate2 hblocks => ?_⟩
  obtain rfl | hnone := hkind
  · obtain rfl : best.2 = state := Option.some.inj (h.left.waits.2.1.symm.trans hwaits.2.1)
    exact h.unblocked c2 hc2 state2 hstate2 hblocks
  · -- what is higher than this circuit is higher than the best one, which has no restriction
    refine h.unblocked c2 hc2 state2 hstate2 ⟨hblocks.obstructs, ?_, ?_⟩
    · rw [hnone]
      rfl
    · rw [hasHigherPriority_iff]
      exact ((hasHigherPriority_iff s _ _).mp hblocks.higher).trans_le hle

end Rounds

/-! ### Until nothing is left -/

section Runs

variable {env : UpgradeEnv D A} {s s₁ : Selection D A} {mem mem' : C → GuardedCircuit D}
  {circuits upgraded new : List C} {c : C}

def isWaiting (circ : GuardedCircuit D) : Bool :=
  circ.guardState.any fun state => decide (state.state = .waitingForBetterGuard)

omit [DecidableEq D] in
theorem isWaiting_completed (now : ℤ) (circ : GuardedCircuit D) :
    isWaiting (circ.completed now) = false := by
  unfold isWaiting GuardedCircuit.completed
  cases circ.guardState with
  | none => rfl
  | some state => rfl

omit [DecidableEq D] in
theorem afterUpgrade_nil (now : ℤ) (mem : C → GuardedCircuit D) : afterUpgrade now [] mem = mem := by
  funext c
  exact if_neg (by simp)

theorem waiting_decreases (h : entryGuardsUpgradeWaitingCircuits env s mem circuits =
    some (s₁, some (mem', new))) :
    (circuits.filter fun c => isWaiting (mem' c)).length <
      (circuits.filter fun c => isWaiting (mem c)).length := by
  obtain ⟨⟨s₁, down⟩, -, hcall⟩ := Option.map_eq_some_iff.mp h
  obtain ⟨rfl, hbest⟩ := Prod.mk.inj hcall
  cases down with
  | false => exact absurd hbest (by simp)
  | true =>
    rw [if_pos rfl] at hbest
    have hspec := upgradeBest_spec env s₁ mem circuits [] fun c hc => absurd hc (by simp)
    rw [afterUpgrade_nil, hbest] at hspec
    obtain ⟨rfl, best, hround⟩ := hspec
    have hsub : circuits.filter (fun c => isWaiting (afterUpgrade env.now ([] ++ new) mem c)) =
        (circuits.filter fun c => isWaiting (mem c)).filter
          fun c => isWaiting (afterUpgrade env.now ([] ++ new) mem c) := by
      rw [List.filter_filter]
      refine List.filter_congr fun c _ => ?_
      unfold afterUpgrade
      split_ifs
      · rw [isWaiting_completed, Bool.false_and]
      · rw [Bool.and_self]
    rw [hsub, List.length_filter_lt_length_iff_exists]
    obtain ⟨hin, hconsidered, hwait⟩ := hround.left.waits
    refine ⟨best.1, List.mem_filter.mpr ⟨hin, ?_⟩, ?_⟩
    · rw [isWaiting, (consideredState_eq_some.mp hconsidered).1]
      exact decide_eq_true hwait
    · rw [afterUpgrade, if_pos (by simpa using hround.mem_new), isWaiting_completed]
      simp

def upgradeUntilDone (env : UpgradeEnv D A) (s : Selection D A) (mem : C → GuardedCircuit D)
    (circuits newlyComplete : List C) : Option ((C → GuardedCircuit D) × List C) :=
  match _h : entryGuardsUpgradeWaitingCircuits env s mem circuits with
  | none => none
  | some (_, none) => some (mem, newlyComplete)
  | some (s', some (mem', new)) => upgradeUntilDone env s' mem' circuits (newlyComplete ++ new)
termination_by (circuits.filter fun c => isWaiting (mem c)).length
decreasing_by exact waiting_decreases _h

theorem upgradeUntilDone_stop
    (h : entryGuardsUpgradeWaitingCircuits env s mem circuits = some (s₁, none)) :
    upgradeUntilDone env s mem circuits upgraded = some (mem, upgraded) := by
  rw [upgradeUntilDone]
  split
  · rename_i heq
    rw [h] at heq
    exact absurd heq (by simp)
  · rfl
  · rename_i heq
    rw [h] at heq
    exact absurd (congrArg Prod.snd (Option.some.inj heq)) (by simp)

theorem upgradeUntilDone_step
    (h : entryGuardsUpgradeWaitingCircuits env s mem circuits = some (s₁, some (mem', new))) :
    upgradeUntilDone env s mem circuits upgraded =
      upgradeUntilDone env s₁ mem' circuits (upgraded ++ new) := by
  rw [upgradeUntilDone]
  split
  · rename_i heq
    rw [h] at heq
    exact absurd heq (by simp)
  · rename_i heq
    rw [h] at heq
    exact absurd (congrArg Prod.snd (Option.some.inj heq)) (by simp)
  · rename_i heq
    rw [h] at heq
    obtain ⟨rfl, hsome⟩ := Prod.mk.inj (Option.some.inj heq)
    obtain ⟨rfl, rfl⟩ := Prod.mk.inj (Option.some.inj hsome)
    rfl

omit [DecidableEq D] [DecidableEq A] in
theorem considerRetry_of_no {g : Guard D A} (env : Env D A)
    (h : (considerRetry env g).isReachable = .no) : considerRetry env g = g := by
  obtain heq | heq := considerRetry_cases env g
  · exact heq
  · rw [heq] at h
    exact absurd h (by simp [Guard.maybeReachable])

omit [DecidableEq D] [DecidableEq A] in
theorem primaryGuardsDownLoop_spec (env : Env D A) (ps : List ℕ) (s : Selection D A) :
    ((primaryGuardsDownLoop env ps s).2 = true ↔
        ∀ p ∈ ps, ((primaryGuardsDownLoop env ps s).1.mem p).isReachable = .no) ∧
      (primaryGuardsDownLoop env ps s).1.primaryEntryGuards = s.primaryEntryGuards ∧
      ((primaryGuardsDownLoop env ps s).2 = true → (primaryGuardsDownLoop env ps s).1 = s) := by
  induction ps generalizing s with
  | nil => exact ⟨by simp [primaryGuardsDownLoop], rfl, fun _ => rfl⟩
  | cons p ps ih =>
    rw [primaryGuardsDownLoop]
    have hself : ((s.update p (considerRetry env)).mem p) = considerRetry env (s.mem p) :=
      Function.update_self _ _ _
    simp only [hself]
    by_cases hno : (considerRetry env (s.mem p)).isReachable = .no
    · have hsame : s.update p (considerRetry env) = s := by
        unfold Selection.update
        rw [considerRetry_of_no env hno, Function.update_eq_self]
      rw [if_neg (not_not.mpr hno), hsame]
      obtain ⟨hiff, hprimary, hkeep⟩ := ih s
      refine ⟨?_, hprimary, hkeep⟩
      constructor
      · intro hdown q hq
        obtain rfl | hq := List.mem_cons.mp hq
        · rw [hkeep hdown]
          rw [considerRetry_of_no env hno] at hno
          exact hno
        · exact hiff.mp hdown q hq
      · exact fun hall => hiff.mpr fun q hq => hall q (List.mem_cons_of_mem _ hq)
    · rw [if_pos hno]
      refine ⟨iff_of_false (by simp) fun hall => hno ?_, rfl, fun h => absurd h (by simp)⟩
      rw [← hself]
      exact hall p List.mem_cons_self

def PrimariesDown (s : Selection D A) : Prop :=
  ∀ p ∈ s.primaryEntryGuards, (s.mem p).isReachable = .no

theorem updatePrimaryIfNeeded_upToDate {env : Env D A} (h : updatePrimaryIfNeeded env s = some s₁) :
    s₁.primaryGuardsUpToDate = true := by
  unfold updatePrimaryIfNeeded at h
  split_ifs at h with hdate
  · obtain rfl := Option.some.inj h
    exact hdate
  · obtain ⟨found, -, rfl⟩ := Option.map_eq_some_iff.mp h
    rfl

theorem allPrimaryGuardsAreDown_spec {env : Env D A} {down : Bool}
    (h : entryGuardsAllPrimaryGuardsAreDown env s = some (s₁, down)) :
    (down = true ↔ PrimariesDown s₁) ∧
      (down = true → entryGuardsAllPrimaryGuardsAreDown env s₁ = some (s₁, true)) := by
  obtain ⟨s', hs', hloop⟩ := Option.map_eq_some_iff.mp h
  obtain ⟨hiff, hprimary, hkeep⟩ := primaryGuardsDownLoop_spec env s'.primaryEntryGuards s'
  rw [hloop] at hiff hprimary hkeep
  refine ⟨?_, fun hdown => ?_⟩
  · rw [PrimariesDown, hprimary]
    exact hiff
  · have hsame : s₁ = s' := hkeep hdown
    rw [entryGuardsAllPrimaryGuardsAreDown, updatePrimaryIfNeeded, hsame,
      if_pos (updatePrimaryIfNeeded_upToDate hs'), Option.map_some, hloop, hsame, hdown]

/-! ### Whole runs -/

variable (env s₁ mem circuits) in
def Stuck (upgraded : List C) : Prop :=
  ∀ c state, Waits s₁ mem circuits c state → c ∉ upgraded →
    ∃ best, BestLeft s₁ mem circuits upgraded best ∧ ¬ Unblocked env s₁ mem circuits best.2

omit [DecidableEq A] [DecidableEq C] in
theorem allWaited_of_allowed (h : ∀ c ∈ upgraded, Allowed env s₁ mem circuits c) :
    AllWaited s₁ mem circuits upgraded := fun c hc =>
  (h c hc).imp fun _ hstate => hstate.1

variable (mem circuits upgraded) in
theorem upgradeUntilDone_rounds
    (hdown : entryGuardsAllPrimaryGuardsAreDown env.toEnv s₁ = some (s₁, true)) (P : C → Prop)
    (hP : ∀ upgraded new best, (∀ c ∈ upgraded, Allowed env s₁ mem circuits c) →
      Round env s₁ mem circuits upgraded new best → ∀ c ∈ new, P c)
    (hup : ∀ c ∈ upgraded, Allowed env s₁ mem circuits c ∧ P c) :
    ∃ final, upgradeUntilDone env s₁ (afterUpgrade env.now upgraded mem) circuits upgraded =
        some (afterUpgrade env.now final mem, final) ∧
      (∀ c ∈ final, Allowed env s₁ mem circuits c ∧ P c) ∧ Stuck env s₁ mem circuits final := by
  induction hn : (circuits.filter fun c => isWaiting (afterUpgrade env.now upgraded mem c)).length
    using Nat.strong_induction_on generalizing upgraded with
  | _ n ih =>
    have hallowed : ∀ c ∈ upgraded, Allowed env s₁ mem circuits c := fun c hc => (hup c hc).1
    have hcall : entryGuardsUpgradeWaitingCircuits env s₁ (afterUpgrade env.now upgraded mem)
        circuits =
        some (s₁, upgradeBest env s₁ (afterUpgrade env.now upgraded mem) circuits) := by
      rw [entryGuardsUpgradeWaitingCircuits, hdown, Option.map_some]
      rfl
    have hspec := upgradeBest_spec env s₁ mem circuits upgraded (allWaited_of_allowed hallowed)
    cases hbest : upgradeBest env s₁ (afterUpgrade env.now upgraded mem) circuits with
    | none =>
      rw [hbest] at hcall hspec
      exact ⟨upgraded, upgradeUntilDone_stop hcall, hup, hspec⟩
    | some result =>
      obtain ⟨mem', new⟩ := result
      rw [hbest] at hcall hspec
      obtain ⟨rfl, best, hround⟩ := hspec
      have hnext : ∀ c ∈ upgraded ++ new, Allowed env s₁ mem circuits c ∧ P c := by
        intro c hc
        obtain hold | hnew := List.mem_append.mp hc
        · exact hup c hold
        · exact ⟨hround.allowed c hnew, hP upgraded new best hallowed hround c hnew⟩
      rw [upgradeUntilDone_step hcall]
      exact ih _ (hn ▸ waiting_decreases hcall) _ hnext rfl

theorem upgradeUntilDone_settled
    (h : entryGuardsAllPrimaryGuardsAreDown env.toEnv s = some (s₁, true)) :
    upgradeUntilDone env s mem circuits [] = upgradeUntilDone env s₁ mem circuits [] := by
  have hagain := (allPrimaryGuardsAreDown_spec h).2 rfl
  have hcall : ∀ s' : Selection D A, entryGuardsAllPrimaryGuardsAreDown env.toEnv s' = some (s₁, true) →
      entryGuardsUpgradeWaitingCircuits env s' mem circuits =
        some (s₁, upgradeBest env s₁ mem circuits) := by
    intro s' hs'
    rw [entryGuardsUpgradeWaitingCircuits, hs', Option.map_some]
    rfl
  have hfirst := hcall s h
  have hsecond := hcall s₁ hagain
  cases hbest : upgradeBest env s₁ mem circuits with
  | none =>
    rw [hbest] at hfirst hsecond
    rw [upgradeUntilDone_stop hfirst, upgradeUntilDone_stop hsecond]
  | some result =>
    rw [hbest] at hfirst hsecond
    rw [upgradeUntilDone_step hfirst, upgradeUntilDone_step hsecond]

omit [DecidableEq A] [DecidableEq C] in
theorem unblocked_congr {l : List C} (h : ∀ c, c ∈ l ↔ c ∈ circuits)
    {state : CircuitGuardState D} :
    Unblocked env s₁ mem l state ↔ Unblocked env s₁ mem circuits state :=
  forall_congr' fun c2 => imp_congr_left (h c2)

omit [DecidableEq D] [DecidableEq A] [DecidableEq C] in
theorem waits_congr {l : List C} (h : ∀ c, c ∈ l ↔ c ∈ circuits) {state : CircuitGuardState D} :
    Waits s₁ mem l c state ↔ Waits s₁ mem circuits c state := and_congr_left' (h c)

omit [DecidableEq A] [DecidableEq C] in
theorem allowed_congr {l : List C} (h : ∀ c, c ∈ l ↔ c ∈ circuits) :
    Allowed env s₁ mem l c ↔ Allowed env s₁ mem circuits c :=
  exists_congr fun _ => and_congr (waits_congr h) (unblocked_congr h)

variable (env s s₁ mem circuits) in
/-- Calls for the circuits listed as `l` upgrade exactly what the rule allows. -/
def FollowsRule (l : List C) : Prop :=
  ∃ newly, upgradeUntilDone env s mem l [] = some (afterUpgrade env.now newly mem, newly) ∧
    ∀ c, c ∈ newly ↔ PrimariesDown s₁ ∧ Allowed env s₁ mem circuits c

variable (env s₁ mem circuits) in
/-- Each waiting circuit that is not blocked has higher priority than each one that is. -/
def PriorityDecides : Prop :=
  ∀ c state c' state', Waits s₁ mem circuits c state → Unblocked env s₁ mem circuits state →
    Waits s₁ mem circuits c' state' → ¬ Unblocked env s₁ mem circuits state' →
      entryGuardHasHigherPriority s₁ state.guard state'.guard = true

omit [DecidableEq A] in
theorem PriorityDecides.mem_of_stuck (h : PriorityDecides env s₁ mem circuits)
    (hstuck : Stuck env s₁ mem circuits upgraded) (hc : Allowed env s₁ mem circuits c) :
    c ∈ upgraded := by
  by_contra hnot
  obtain ⟨state, hwaits, hunblocked⟩ := hc
  obtain ⟨best, hbest, hblocked⟩ := hstuck c state hwaits hnot
  have hhigher := h c state best.1 best.2 hwaits hunblocked hbest.waits hblocked
  exact absurd ((hasHigherPriority_iff s₁ _ _).mp hhigher) (not_lt.mpr (hbest.le c state hwaits hnot))

omit [DecidableEq A] [DecidableEq C] in
theorem Round.notMem {rest : List C} {c' : C} {state state' : CircuitGuardState D}
    {best : C × CircuitGuardState D} (h : Round env s₁ mem (c' :: rest) upgraded new best)
    (hup : ∀ c ∈ upgraded, Allowed env s₁ mem (c' :: rest) c)
    (hc : Waits s₁ mem (c' :: rest) c state) (hc' : Waits s₁ mem (c' :: rest) c' state')
    (hblocked : ¬ Unblocked env s₁ mem (c' :: rest) state')
    (hle : priorityKey (s₁.mem state'.guard) ≤ priorityKey (s₁.mem state.guard)) : c ∉ new := by
  intro hnew
  have hleft : c' ∉ upgraded := by
    intro hin
    obtain ⟨state'', hwaits'', hun⟩ := hup c' hin
    obtain rfl := Option.some.inj (hwaits''.2.1.symm.trans hc'.2.1)
    exact hblocked hun
  obtain ⟨-, state'', hwaits'', hback, -⟩ := h.new c hnew
  obtain rfl := Option.some.inj (hwaits''.2.1.symm.trans hc.2.1)
  have hbest := h.left.first c' rest state' rfl hc' hleft (hle.trans hback)
  refine hblocked ?_
  have hun := h.unblocked
  rw [hbest] at hun
  exact hun

theorem followsRule_of_decides
    (hdown : entryGuardsAllPrimaryGuardsAreDown env.toEnv s = some (s₁, true)) {l : List C}
    (hl : ∀ c, c ∈ l ↔ c ∈ circuits) (h : PriorityDecides env s₁ mem circuits) :
    FollowsRule env s s₁ mem circuits l := by
  obtain ⟨hiff, hagain⟩ := allPrimaryGuardsAreDown_spec hdown
  obtain ⟨final, hrun, hallowed, hstuck⟩ := upgradeUntilDone_rounds mem l []
    (hagain rfl) (fun _ => True) (fun _ _ _ _ _ _ _ => trivial) fun c hc => absurd hc (by simp)
  have hdecides : PriorityDecides env s₁ mem l := fun c state c' state' hc hun hc' hblocked =>
    h c state c' state' ((waits_congr hl).mp hc) ((unblocked_congr hl).mp hun)
      ((waits_congr hl).mp hc') fun hun' => hblocked ((unblocked_congr hl).mpr hun')
  rw [afterUpgrade_nil] at hrun
  refine ⟨final, (upgradeUntilDone_settled hdown).trans hrun, fun c => ?_⟩
  rw [and_iff_right (hiff.mp rfl), ← allowed_congr hl]
  exact ⟨fun hc => (hallowed c hc).1, fun hc => hdecides.mem_of_stuck hstuck hc⟩

theorem decides_of_followsRule
    (hdown : entryGuardsAllPrimaryGuardsAreDown env.toEnv s = some (s₁, true))
    (h : ∀ l, l.Perm circuits → FollowsRule env s s₁ mem circuits l) :
    PriorityDecides env s₁ mem circuits := by
  obtain ⟨hiff, hagain⟩ := allPrimaryGuardsAreDown_spec hdown
  intro c state c' state' hc hun hc' hblocked
  by_contra hnot
  rw [hasHigherPriority_iff, not_lt] at hnot
  -- the blocked circuit is put first
  have hperm : (c' :: circuits.erase c').Perm circuits := (List.perm_cons_erase hc'.1).symm
  have hl : ∀ c, c ∈ c' :: circuits.erase c' ↔ c ∈ circuits := fun c => hperm.mem_iff
  obtain ⟨newly, hresult, hnewly⟩ := h _ hperm
  obtain ⟨final, hrun, hkept, -⟩ := upgradeUntilDone_rounds mem
    (c' :: circuits.erase c') [] (hagain rfl) (fun other => other ≠ c)
    (fun upgraded new best hup hround other hother heq => by
      subst heq
      exact hround.notMem hup ((waits_congr hl).mpr hc) ((waits_congr hl).mpr hc')
        (fun hun' => hblocked ((unblocked_congr hl).mp hun')) hnot hother)
    fun c hc => absurd hc (by simp)
  rw [afterUpgrade_nil] at hrun
  rw [upgradeUntilDone_settled hdown, hrun] at hresult
  obtain rfl : final = newly := (Prod.mk.inj (Option.some.inj hresult)).2
  exact (hkept c ((hnewly c).mpr ⟨hiff.mp rfl, state, hc, hun⟩)).2 rfl

theorem followsRule_of_up
    (hup : entryGuardsAllPrimaryGuardsAreDown env.toEnv s = some (s₁, false)) (l : List C) :
    FollowsRule env s s₁ mem circuits l := by
  have hnot : ¬ PrimariesDown s₁ := fun h => by
    simpa using (allPrimaryGuardsAreDown_spec hup).1.mpr h
  have hcall : entryGuardsUpgradeWaitingCircuits env s mem l = some (s₁, none) := by
    rw [entryGuardsUpgradeWaitingCircuits, hup, Option.map_some]
    rfl
  refine ⟨[], ?_, fun c => iff_of_false (by simp) fun h => hnot h.1⟩
  rw [upgradeUntilDone_stop hcall, afterUpgrade_nil]

end Runs

/-- Circuits by the keys of their guards, those whose guard is gone last. -/
def circuitKey (s : Selection D A) (state : CircuitGuardState D) : WithTop (ℕ ×ₗ ℤ) :=
  (entryGuardHandleGet s state).elim ⊤ fun guard => (priorityKey (s.mem guard) : WithTop (ℕ ×ₗ ℤ))

omit [DecidableEq A] in
theorem circStateHasHigherPriority_iff (env : UpgradeEnv D A) (s : Selection D A)
    (a b : CircuitGuardState D) :
    circStateHasHigherPriority env s a none b = true ↔ circuitKey s a < circuitKey s b := by
  unfold circStateHasHigherPriority circuitKey
  cases entryGuardHandleGet s a with
  | none => simp
  | some guardA =>
    cases entryGuardHandleGet s b with
    | none => simp
    | some guardB =>
      simp only [entryGuardObeysRestriction, Bool.not_true, Option.elim_some, WithTop.coe_lt_coe]
      exact hasHigherPriority_iff s guardA guardB

theorem strictWeakOrder_of_key {α β : Type} [LinearOrder β] {r : α → α → Bool} {key : α → β}
    (h : ∀ a b, r a b = true ↔ key a < key b) : IsStrictWeakOrder α fun a b => r a b = true := by
  have heq : (fun a b => r a b = true) = Order.Preimage key (· < ·) := by
    funext a b
    exact propext (h a b)
  have : IsOrderConnected β (· < ·) := ⟨fun a b c hac => by
    by_contra hnot
    rw [not_or, not_lt, not_lt] at hnot
    exact absurd hac (not_lt.mpr (hnot.2.trans hnot.1))⟩
  have : IsStrictWeakOrder β (· < ·) := isStrictWeakOrder_of_isOrderConnected
  rw [heq]
  infer_instance

/-- In every order of the circuits the calls upgrade exactly what the rule allows, if and only if
priority decides between the waiting circuits that are not blocked and those that are. -/
theorem upgradeUntilDone_iff {s : Selection D A}
    (hr : Reached (system D A) (fun _ _ => True) s) (env : UpgradeEnv D A)
    (mem : C → GuardedCircuit D) (circuits : List C) :
    ∃ s₁, (entryGuardsAllPrimaryGuardsAreDown env.toEnv s).map Prod.fst = some s₁ ∧
      IsStrictWeakOrder ℕ (fun a b => entryGuardHasHigherPriority s₁ a b = true) ∧
      IsStrictWeakOrder (CircuitGuardState D)
        (fun a b => circStateHasHigherPriority env s₁ a none b = true) ∧
      ((∀ l, l.Perm circuits → FollowsRule env s s₁ mem circuits l) ↔
        (PrimariesDown s₁ → PriorityDecides env s₁ mem circuits)) := by
  obtain ⟨s', hs', -⟩ : ∃ s', updatePrimaryIfNeeded env.toEnv s = some s' ∧ Inv s' :=
    updatePrimaryIfNeeded_inv (reached_inv hr)
  have hsome : entryGuardsAllPrimaryGuardsAreDown env.toEnv s =
      some (primaryGuardsDownLoop env.toEnv s'.primaryEntryGuards s') := by
    rw [entryGuardsAllPrimaryGuardsAreDown, hs', Option.map_some]
  generalize primaryGuardsDownLoop env.toEnv s'.primaryEntryGuards s' = result at hsome
  obtain ⟨s₁, down⟩ := result
  refine ⟨s₁, by rw [hsome]; rfl, strictWeakOrder_of_key (hasHigherPriority_iff s₁),
    strictWeakOrder_of_key (circStateHasHigherPriority_iff env s₁), ?_⟩
  cases down with
  | false =>
    have hnot : ¬ PrimariesDown s₁ := fun h => by
      simpa using (allPrimaryGuardsAreDown_spec hsome).1.mpr h
    exact iff_of_true (fun l _ => followsRule_of_up hsome l) fun h => absurd h hnot
  | true =>
    have hprimaries := (allPrimaryGuardsAreDown_spec hsome).1.mp rfl
    exact ⟨fun h _ => decides_of_followsRule hsome h,
      fun h l hl => followsRule_of_decides hsome (fun c => hl.mem_iff) (h hprimaries)⟩

def stalledEnv : UpgradeEnv ℕ ℕ where
  toEnv := exampleEnv twoRelays 1
  inNodeFamily _ _ := false
  isOutdatedDirserver _ := false
  nonprimaryGuardConnectTimeout := 15

def stalledActions : List (Action ℕ ℕ) :=
  [.selectForCircuit (exampleEnv twoRelays 1) ⟨fun _ => true, false, true, 1⟩,
    .noteSuccess (exampleEnv twoRelays 1) 0, .noteFailure (exampleEnv twoRelays 1) 0]

/-- A complete circuit of the primary guard and two of the other guard that wait, the second of them
not to be blocked by the primary guard. -/
def stalledCircuits : ℕ → GuardedCircuit ℕ
  | 0 => ⟨some ⟨0, 900, .complete, none⟩, false⟩
  | 1 => ⟨some ⟨1, 950, .waitingForBetterGuard, none⟩, false⟩
  | _ => ⟨some ⟨1, 950, .waitingForBetterGuard, some (.exclList [1])⟩, false⟩

theorem reached_stalled : ∃ s s₁, Reached (system ℕ ℕ) (fun _ _ => True) s ∧
    entryGuardsAllPrimaryGuardsAreDown stalledEnv.toEnv s = some (s₁, true) ∧
      s₁.sampledEntryGuards = [0, 1] ∧ (s₁.mem 0).identity = some 1 ∧
      (upgradeUntilDone stalledEnv s stalledCircuits [0, 1, 2] []).map Prod.snd = some [] := by
  have heval : (stalledActions.foldlM perform (emptySelection false)).any fun s =>
      decide ((upgradeUntilDone stalledEnv s stalledCircuits [0, 1, 2] []).map Prod.snd = some []) &&
        (entryGuardsAllPrimaryGuardsAreDown stalledEnv.toEnv s).any fun result =>
          decide (result.2 = true ∧ result.1.sampledEntryGuards = [0, 1] ∧
            (result.1.mem 0).identity = some 1) := by decide +kernel
  obtain ⟨s, hs, heval⟩ := (Option.any_eq_true _ _).mp heval
  obtain ⟨hrun, hdown⟩ := Bool.and_eq_true_iff.mp heval
  obtain ⟨⟨s₁, down⟩, hs₁, hfacts⟩ := (Option.any_eq_true _ _).mp hdown
  obtain ⟨rfl, hsampled, hidentity⟩ := of_decide_eq_true hfacts
  exact ⟨s, s₁, Reached.foldlM (fun _ _ _ h => h) stalledActions (.init (emptySelection_init false)) hs,
    hs₁, hsampled, hidentity, of_decide_eq_true hrun⟩

/-- The calls stop at the first waiting circuit, and do not get to the second. -/
theorem stalled_behind_blocked : ¬ ∀ s s₁ : Selection ℕ ℕ,
    Reached (system ℕ ℕ) (fun _ _ => True) s →
      (entryGuardsAllPrimaryGuardsAreDown stalledEnv.toEnv s).map Prod.fst = some s₁ →
        FollowsRule stalledEnv s s₁ stalledCircuits [0, 1, 2] [0, 1, 2] := by
  intro hall
  obtain ⟨s, s₁, hr, hdown, hsampled, hidentity, hrun⟩ := reached_stalled
  obtain ⟨newly, hresult, hnewly⟩ := hall s s₁ hr (by rw [hdown]; rfl)
  rw [hresult] at hrun
  obtain rfl : newly = [] := Option.some.inj hrun
  refine absurd ((hnewly 2).mpr ⟨(allPrimaryGuardsAreDown_spec hdown).1.mp rfl, ?_⟩) (by simp)
  refine ⟨⟨1, 950, .waitingForBetterGuard, some (.exclList [1])⟩, ⟨by simp, ?_, rfl⟩, ?_⟩
  · exact consideredState_eq_some.mpr ⟨rfl, by rw [hsampled]; simp, rfl⟩
  · intro c2 hc2 state2 hstate2 hblocks
    have hguard := (consideredState_eq_some.mp hstate2).1
    simp only [List.mem_cons, List.not_mem_nil, or_false] at hc2
    obtain rfl | rfl | rfl := hc2
    · obtain rfl := Option.some.inj hguard
      have hobeys := hblocks.obeys
      simp [entryGuardObeysRestriction, hidentity] at hobeys
    · obtain rfl := Option.some.inj hguard
      exact absurd hblocks.higher (by simp [entryGuardHasHigherPriority])
    · obtain rfl := Option.some.inj hguard
      exact absurd hblocks.higher (by simp [entryGuardHasHigherPriority])

/-- The rule and the calls for these circuits, in any order. -/
theorem upgradeUntilDone_iff_stalled : ∃ s, Reached (system ℕ ℕ) (fun _ _ => True) s ∧
    ∃ s₁, (entryGuardsAllPrimaryGuardsAreDown stalledEnv.toEnv s).map Prod.fst = some s₁ ∧
      IsStrictWeakOrder ℕ (fun a b => entryGuardHasHigherPriority s₁ a b = true) ∧
      IsStrictWeakOrder (CircuitGuardState ℕ)
        (fun a b => circStateHasHigherPriority stalledEnv s₁ a none b = true) ∧
      ((∀ l, l.Perm [0, 1, 2] → FollowsRule stalledEnv s s₁ stalledCircuits [0, 1, 2] l) ↔
        (PrimariesDown s₁ → PriorityDecides stalledEnv s₁ stalledCircuits [0, 1, 2])) := by
  obtain ⟨s, s₁, hr, -⟩ := reached_stalled
  exact ⟨s, hr, upgradeUntilDone_iff hr stalledEnv stalledCircuits [0, 1, 2]⟩

end EntryGuards
