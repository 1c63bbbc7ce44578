/-
The state of entry guards over whole runs.

Each operation keeps `Inv`, and none fails because `entry_guards_update_primary` calls itself.  Read
off from it (`entry_guards_orderly`): the confirmed guards are exactly the sampled guards with a
confirmed index and the primary guards exactly the sampled guards marked as primary, in the order
of the sample, and a guard is usable exactly if it is filtered and may be reachable.  What is
loaded from the state file is what was saved (`loadLines_saved`).
-/
import LibEltor.EntryGuardPrimary

open Transition

namespace EntryGuards

variable {D A : Type} {s s' : Selection D A} {p q : ℕ} {env : Env D A} {now : ℤ}

/-! ### Consensus -/

structure Sound (s : Selection D A) : Prop where
  base : Base s
  primary : PrimaryOk s s.primaryEntryGuards []

theorem Inv.sound (hinv : Inv s) : Sound s := ⟨hinv.base, hinv.primary⟩

theorem Sound.quiet (h : Sound s) (hq : Quiet s s') : Sound s' :=
  ⟨h.base.keeps hq.toKeeps, by rw [hq.primary]; exact h.primary.quiet hq⟩

theorem updatePresence_harmless (env : Env D A) (p : ℕ) : Harmless (updatePresence env p) := by
  have hsame : ∀ g, (updatePresence env p g).toCandidate = g.toCandidate ∧
      (updatePresence env p g).sampledIdx = g.sampledIdx ∧
      (updatePresence env p g).confirmedIdx = g.confirmedIdx ∧
      (updatePresence env p g).isPrimary = g.isPrimary ∧
      (FlagsOk g → FlagsOk (updatePresence env p g)) := by
    intro g
    simp only [updatePresence]
    split_ifs <;> exact ⟨rfl, rfl, rfl, rfl, fun h => h⟩
  exact ⟨fun g => congrArg Candidate.identity (hsame g).1, fun g => (hsame g).2.1,
    fun g => (hsame g).2.2.1, fun g => (hsame g).2.2.2.1, fun g => (hsame g).2.2.2.2⟩

/-- The guard is in no list that is kept, and the others are as they were. -/
structure Removes (s s' : Selection D A) (p : ℕ) : Prop where
  isBridges : s'.isBridges = s.isBridges
  fresh : s'.fresh = s.fresh
  sampled : s'.sampledEntryGuards = removeKeeporder s.sampledEntryGuards p
  primary : s'.primaryEntryGuards = removeKeeporder s.primaryEntryGuards p
  nextSampledIdx : s'.nextSampledIdx = s.nextSampledIdx
  limit : s'.primaryLimit = s.primaryLimit
  mem : ∀ q, q ≠ p → s'.mem q = s.mem q

theorem mem_removeKeeporder {l : List ℕ} : q ∈ removeKeeporder l p ↔ q ∈ l ∧ q ≠ p := by
  rw [removeKeeporder, List.mem_filter, decide_eq_true_eq]

theorem removeGuard_removes (s : Selection D A) (p : ℕ) :
    Removes s (removeGuardFromConfirmedAndPrimaryLists
      { s with sampledEntryGuards := removeKeeporder s.sampledEntryGuards p } p) p := by
  rw [removeGuardFromConfirmedAndPrimaryLists]
  dsimp only
  split_ifs
  · refine ⟨rfl, rfl, rfl, rfl, rfl, rfl, fun q hq => ?_⟩
    exact (Function.update_of_ne hq _ _).trans (Function.update_of_ne hq _ _)
  · exact ⟨rfl, rfl, rfl, rfl, rfl, rfl, fun q hq => Function.update_of_ne hq _ _⟩
  · exact ⟨rfl, rfl, rfl, rfl, rfl, rfl, fun q hq => Function.update_of_ne hq _ _⟩
  · exact ⟨rfl, rfl, rfl, rfl, rfl, rfl, fun _ _ => rfl⟩

theorem Sound.removes (h : Sound s) (hr : Removes s s' p) : Sound s' := by
  have hmem : ∀ q ∈ s'.sampledEntryGuards, q ∈ s.sampledEntryGuards ∧ s'.mem q = s.mem q := by
    intro q hq
    rw [hr.sampled, mem_removeKeeporder] at hq
    exact ⟨hq.1, hr.mem q hq.2⟩
  have hprimary : ∀ q, q ∈ s'.primaryEntryGuards ↔ q ∈ s.primaryEntryGuards ∧ q ≠ p := by
    intro q
    rw [hr.primary, mem_removeKeeporder]
  have hsub : ∀ q ∈ s'.primaryEntryGuards, q ∈ s'.sampledEntryGuards := by
    intro q hq
    obtain ⟨hq, hne⟩ := (hprimary q).mp hq
    rw [hr.sampled, mem_removeKeeporder]
    exact ⟨h.base.sampled q hq, hne⟩
  have hsorted : s'.sampledEntryGuards.Pairwise (Before s.mem) := by
    rw [hr.sampled]
    exact h.base.sorted.filter _
  have horder : s'.primaryEntryGuards.Pairwise (Before s.mem) := by
    rw [hr.primary]
    exact h.base.order.filter _
  refine ⟨⟨fun q hq => ?_, ?_, fun q hq => ?_, fun hrelays => ?_, fun q hq => ?_, hsub, ?_, ?_⟩,
    hsub, ?_, fun q hq => ?_⟩
  · rw [hr.fresh]
    exact h.base.fresh q (hmem q hq).1
  · refine hsorted.imp_of_mem fun {q r} hq hq' hqr => ?_
    rw [Before, (hmem q hq).2, (hmem r hq').2]
    exact hqr
  · rw [(hmem q hq).2, hr.nextSampledIdx]
    exact h.base.idx_lt q (hmem q hq).1
  · have hid : s'.sampledEntryGuards.Pairwise
        fun p q => (s.mem p).identity ≠ (s.mem q).identity := by
      rw [hr.sampled]
      exact (h.base.identity (hr.isBridges.symm.trans hrelays)).filter _
    refine hid.imp_of_mem fun {q r} hq hq' hqr => ?_
    rw [(hmem q hq).2, (hmem r hq').2]
    exact hqr
  · rw [(hmem q hq).2]
    exact h.base.flags q (hmem q hq).1
  · refine horder.imp_of_mem fun {q r} hq hq' hqr => ?_
    rw [Before, (hmem q (hsub q hq)).2, (hmem r (hsub r hq')).2]
    exact hqr
  · rw [hr.primary, hr.limit]
    exact (List.length_filter_le _ _).trans h.base.limit
  · rw [hr.primary]
    exact h.primary.nodup.filter _
  · rw [hr.sampled, mem_removeKeeporder] at hq
    rw [hr.mem q hq.2, h.primary.isPrimary q hq.1, hprimary]
    simp [hq.2]

theorem pruneGuard_sound (h : Sound s) (p : ℕ) : Sound (pruneGuard env s p) := by
  rw [pruneGuard]
  split_ifs
  · exact h.removes (removeGuard_removes s p)
  · exact h

theorem foldl_pruneGuard_sound (h : Sound s) (ps : List ℕ) :
    Sound (ps.foldl (pruneGuard env) s) := by
  induction ps generalizing s with
  | nil => exact h
  | cons p ps ih => exact ih (pruneGuard_sound h p)

theorem sampledGuardsUpdateFromConsensus_sound (h : Sound s) :
    Sound (sampledGuardsUpdateFromConsensus env s) := by
  have hpresence : Sound (sampledGuardsUpdateConsensusPresence env s).1 :=
    h.quiet (Quiet.foldl (fun s p => (updatePresence_harmless env p).update s p) _ s)
  have hpruned : Sound (sampledGuardsPruneObsoleteEntries env
      (sampledGuardsUpdateConsensusPresence env s).1).1 := foldl_pruneGuard_sound hpresence _
  rw [sampledGuardsUpdateFromConsensus]
  split_ifs
  · exact h
  · dsimp only
    split_ifs
    · refine Sound.quiet ?_ (entryGuardsUpdateFilteredSets_quiet env _)
      exact hpruned.quiet ⟨⟨rfl, rfl, rfl, rfl, rfl, rfl, fun _ _ => rfl, fun _ => rfl,
        fun _ h => h⟩, fun _ => rfl, rfl, rfl, fun _ => rfl⟩
    · exact hpruned

/-! ### Guards for circuits -/

theorem setTried_harmless (env : Env D A) : Harmless (setTried env) :=
  ⟨fun _ => rfl, fun _ => rfl, fun _ => rfl, fun _ => rfl, fun _ h => h⟩

theorem setPending_harmless (env : Env D A) : Harmless (setPending env) :=
  ⟨fun _ => rfl, fun _ => rfl, fun _ => rfl, fun _ => rfl, fun _ h => h⟩

theorem noteGuardFailure_harmless (env : Env D A) : Harmless (noteGuardFailure env) := by
  refine ⟨fun _ => rfl, fun _ => rfl, fun _ => rfl, fun _ => rfl, fun g _ => ?_⟩
  rw [FlagsOk]
  exact (Bool.and_false _).symm

theorem reached_harmless : Harmless (reached : Guard D A → Guard D A) := by
  refine ⟨fun _ => rfl, fun _ => rfl, fun _ => rfl, fun _ => rfl, fun g h => ?_⟩
  rw [FlagsOk] at h ⊢
  simp [reached, h]
  exact fun hfiltered _ => hfiltered

theorem primaryLoop_quiet (u : Usage D A) (ps : List ℕ) (s : Selection D A) (usable : List ℕ)
    (considered : ℕ) : Quiet s (primaryLoop env u ps s usable considered).1 := by
  induction ps generalizing s usable considered with
  | nil => exact Quiet.refl s
  | cons p ps ih =>
    have hretry := (considerRetry_harmless env).update s p
    have htried := hretry.trans ((setTried_harmless env).update _ p)
    simp only [primaryLoop]
    split_ifs
    · exact hretry.trans (ih _ _ _)
    · exact hretry
    · exact hretry.trans (ih _ _ _)
    · exact hretry.trans (ih _ _ _)
    · exact htried
    · exact htried.trans (ih _ _ _)

theorem selectPrimaryGuardForCircuit_quiet (u : Usage D A) (s : Selection D A) :
    Quiet s (selectPrimaryGuardForCircuit env u s).1 := primaryLoop_quiet u _ s _ _

theorem confirmedLoop_quiet (u : Usage D A) (ps : List ℕ) (s : Selection D A) :
    Quiet s (confirmedLoop env u ps s).1 := by
  induction ps generalizing s with
  | nil => exact Quiet.refl s
  | cons p ps ih =>
    have hretry := (considerRetry_harmless env).update s p
    simp only [confirmedLoop]
    split_ifs
    · exact ih s
    · exact ih s
    · exact hretry.trans ((setPending_harmless env).update _ p)
    · exact hretry.trans (ih _)

theorem retryUntilUp_quiet (ps : List ℕ) (s : Selection D A) : Quiet s (retryUntilUp env ps s) := by
  induction ps generalizing s with
  | nil => exact Quiet.refl s
  | cons p ps ih =>
    have hretry := (considerRetry_harmless env).update s p
    simp only [retryUntilUp]
    split_ifs
    · exact hretry
    · exact hretry.trans (ih _)

/-! ### State file -/

theorem loadLine_eq {line : GuardLine D A} (h : line.sampledIdx = s.nextSampledIdx) :
    loadLine now s line = push s (parseFromState now line) := by
  have hnext : (if s.nextSampledIdx ≤ line.sampledIdx then line.sampledIdx + 1
      else s.nextSampledIdx) = s.nextSampledIdx + 1 := by
    rw [if_pos h.ge, h]
  rw [loadLine, hnext]
  rfl

/-- Lines of different guards, numbered from the next index on. -/
structure LinesOk (s : Selection D A) (lines : List (GuardLine D A)) : Prop where
  idx : ∀ i, ∀ h : i < lines.length, lines[i].sampledIdx = s.nextSampledIdx + i
  identity : s.isBridges = false → lines.Pairwise fun a b => a.identity ≠ b.identity
  new : s.isBridges = false → ∀ p ∈ s.sampledEntryGuards, ∀ line ∈ lines,
    (s.mem p).identity ≠ line.identity

theorem push_line {line : GuardLine D A} {lines : List (GuardLine D A)} (h : Sound s)
    (hlines : LinesOk s (line :: lines)) :
    Sound (push s (parseFromState now line)) ∧
      LinesOk (push s (parseFromState now line)) lines := by
  have hidx : line.sampledIdx = s.nextSampledIdx := hlines.idx 0 (Nat.zero_lt_succ _)
  have hbase : Base (push s (parseFromState now line)) :=
    push_base h.base hidx rfl fun hrelays p hp => hlines.new hrelays p hp line List.mem_cons_self
  refine ⟨⟨hbase, push_primary h.base h.primary rfl⟩, fun i hi => ?_, fun hrelays => ?_,
    fun hrelays p hp line' hline' => ?_⟩
  · have hnext := hlines.idx (i + 1) (Nat.succ_lt_succ hi)
    rw [List.getElem_cons_succ] at hnext
    rw [hnext]
    show _ = s.nextSampledIdx + 1 + i
    omega
  · exact (List.pairwise_cons.mp (hlines.identity hrelays)).2
  · rcases mem_push.mp hp with hp | rfl
    · rw [push_mem h.base hp]
      exact hlines.new hrelays p hp line' (List.mem_cons_of_mem _ hline')
    · rw [push_fresh]
      exact (List.pairwise_cons.mp (hlines.identity hrelays)).1 line' hline'

theorem loadLines_sound {lines : List (GuardLine D A)} (h : Sound s)
    (hlines : LinesOk s lines) : Sound (lines.foldl (loadLine now) s) := by
  induction lines generalizing s with
  | nil => exact h
  | cons line lines ih =>
    have hidx : line.sampledIdx = s.nextSampledIdx := hlines.idx 0 (Nat.zero_lt_succ _)
    obtain ⟨hpush, hok⟩ := push_line h hlines
    rw [List.foldl_cons, loadLine_eq hidx]
    exact ih hpush hok

theorem wiped_sound (s : Selection D A) : Sound s.wiped :=
  ⟨⟨fun _ h => absurd h List.not_mem_nil, List.Pairwise.nil, fun _ h => absurd h List.not_mem_nil,
      fun _ => List.Pairwise.nil, fun _ h => absurd h List.not_mem_nil,
      fun _ h => absurd h List.not_mem_nil, List.Pairwise.nil, le_refl _⟩,
    fun _ h => absurd h List.not_mem_nil, List.nodup_nil, fun _ h => absurd h List.not_mem_nil⟩

theorem length_updateGuardsInState (s : Selection D A) :
    (updateGuardsInState s).length =
      (s.sampledEntryGuards.filter fun p => (s.mem p).isPersistent).length :=
  List.length_mapIdx

theorem updateGuardsInState_ok (h : Base s) : LinesOk s.wiped (updateGuardsInState s) := by
  refine ⟨fun i hi => ?_, fun hrelays => ?_, fun _ p hp => absurd hp List.not_mem_nil⟩
  · simp only [updateGuardsInState, List.getElem_mapIdx, encodeForState]
    exact (Nat.zero_add i).symm
  · have hpairs := (h.identity hrelays).filter fun p => (s.mem p).isPersistent
    rw [List.pairwise_iff_getElem] at hpairs ⊢
    intro i j hi hj hij
    rw [length_updateGuardsInState] at hi hj
    simp only [updateGuardsInState, List.getElem_mapIdx, encodeForState]
    exact hpairs i j hi hj hij

theorem sortSampled_sampled (h : Base s) :
    sortSampled s.mem s.sampledEntryGuards = s.sampledEntryGuards := by
  rw [sortSampled_eq_filter h h.nodup (f := fun _ => true) (by simp), List.filter_true]

theorem loadLines_mem {lines : List (GuardLine D A)} (h : Sound s) (hlines : LinesOk s lines) :
    (lines.foldl (loadLine now) s).sampledEntryGuards.map (lines.foldl (loadLine now) s).mem =
      s.sampledEntryGuards.map s.mem ++ lines.map (parseFromState now) := by
  induction lines generalizing s with
  | nil => exact (List.append_nil _).symm
  | cons line lines ih =>
    have hidx : line.sampledIdx = s.nextSampledIdx := hlines.idx 0 (Nat.zero_lt_succ _)
    obtain ⟨hpush, hok⟩ := push_line h hlines
    have hmap : (push s (parseFromState now line)).sampledEntryGuards.map
        (push s (parseFromState now line)).mem = s.sampledEntryGuards.map s.mem ++
          [parseFromState now line] := by
      show (s.sampledEntryGuards ++ [s.fresh]).map _ = _
      rw [List.map_append, List.map_singleton, push_fresh,
        List.map_congr_left fun p hp => push_mem h.base hp]
    rw [List.foldl_cons, loadLine_eq hidx, ih hpush hok, hmap, List.append_assoc]
    rfl

def Guard.saved (g : Guard D A) : Candidate D A × Option ℤ :=
  (g.toCandidate, if 0 ≤ g.confirmedIdx then some g.confirmedIdx else none)

theorem parseFromState_saved (now : ℤ) (g : Guard D A) (i : ℕ) :
    (parseFromState now (encodeForState g i)).saved = g.saved := by
  simp only [encodeForState, parseFromState, Guard.saved]
  split_ifs <;> simp_all

theorem loadLines_saved (now : ℤ) (h : Base s) :
    (((updateGuardsInState s).foldl (loadLine now) s.wiped).sampledEntryGuards.map fun p =>
        (((updateGuardsInState s).foldl (loadLine now) s.wiped).mem p).saved) =
      (s.sampledEntryGuards.filter fun p => (s.mem p).isPersistent).map fun p =>
        (s.mem p).saved := by
  have hmem := @loadLines_mem D A s.wiped now _ (wiped_sound s) (updateGuardsInState_ok h)
  have hnone : s.wiped.sampledEntryGuards.map s.wiped.mem = [] := rfl
  rw [hnone, List.nil_append] at hmem
  have hmap := congrArg (List.map Guard.saved) hmem
  rw [List.map_map, List.map_map] at hmap
  refine hmap.trans (List.ext_getElem ?_ fun i hi hj => ?_)
  · rw [List.length_map, List.length_map, length_updateGuardsInState]
  · simp only [List.getElem_map, Function.comp_apply, updateGuardsInState, List.getElem_mapIdx]
    exact parseFromState_saved now _ i

theorem wiped_inv (s : Selection D A) : Inv s.wiped :=
  ⟨(wiped_sound s).base, ⟨rfl, le_refl _, fun _ h => absurd h List.not_mem_nil,
    fun _ h => absurd h List.not_mem_nil⟩, (wiped_sound s).primary⟩

/-! ### The lists in order -/

structure Orderly (s : Selection D A) : Prop where
  identity : s.isBridges = false →
    (s.sampledEntryGuards.map fun p => (s.mem p).identity).Nodup
  sampledIdx : (s.sampledEntryGuards.map fun p => (s.mem p).sampledIdx).Pairwise (· < ·) ∧
    ∀ p ∈ s.sampledEntryGuards, (s.mem p).sampledIdx < s.nextSampledIdx
  confirmed : s.confirmedEntryGuards =
    s.sampledEntryGuards.filter fun p => decide (0 ≤ (s.mem p).confirmedIdx)
  confirmedIdx : (s.confirmedEntryGuards.map fun p => (s.mem p).confirmedIdx).Nodup ∧
    ∀ p ∈ s.confirmedEntryGuards, (s.mem p).confirmedIdx < s.nextConfirmedIdx
  primary : s.primaryEntryGuards = s.sampledEntryGuards.filter fun p => (s.mem p).isPrimary
  nPrimary : s.primaryEntryGuards.length ≤ s.primaryLimit
  usable : ∀ p ∈ s.sampledEntryGuards, (s.mem p).isUsableFilteredGuard = true ↔
    (s.mem p).isFilteredGuard = true ∧ (s.mem p).isReachable ≠ .no

theorem Inv.orderly (hinv : Inv s) : Orderly s := by
  have hb := hinv.base
  have hc := hinv.confirmed
  refine ⟨fun hrelays => ?_, ⟨?_, hb.idx_lt⟩, hc.eq, ⟨?_, fun p hp => ?_⟩, ?_, hb.limit,
    fun p hp => ?_⟩
  · exact List.pairwise_map.mpr (hb.identity hrelays)
  · exact List.pairwise_map.mpr hb.sorted
  · rw [hc.eq]
    refine List.Nodup.map_on (fun p hp q hq heq => ?_) (hb.nodup.filter _)
    obtain ⟨hp, hconf⟩ := List.mem_filter.mp hp
    exact hc.ne p hp q (List.mem_filter.mp hq).1 hconf heq
  · rw [hc.eq] at hp
    exact hc.lt p (List.mem_filter.mp hp).1
  · have hnodup := hinv.primary.nodup
    have hsorted : sortSampled s.mem s.primaryEntryGuards = s.primaryEntryGuards :=
      List.Perm.eq_of_pairwise (fun p q _ _ hpq hqp => absurd hpq (lt_asymm hqp))
        (sortSampled_sorted hb hb.sampled hnodup) hb.order (sortSampled_perm _ _)
    rw [← hsorted]
    refine sortSampled_eq_filter hb hnodup fun p => ?_
    constructor
    · exact fun hp => ⟨hb.sampled p hp, (hinv.primary.isPrimary p (hb.sampled p hp)).mpr (.inl hp)⟩
    · rintro ⟨hp, hmarked⟩
      exact ((hinv.primary.isPrimary p hp).mp hmarked).resolve_right List.not_mem_nil
  · rw [hb.flags p hp, Bool.and_eq_true, decide_eq_true_eq]

section DecidableEq

variable [DecidableEq D]

theorem learnIdentity_quiet (hbridges : s.isBridges = true) (p : ℕ) (id : D) :
    Quiet s (s.update p (learnIdentity id)) := by
  have hsame : ∀ g : Guard D A, (learnIdentity id g).sampledIdx = g.sampledIdx ∧
      (learnIdentity id g).confirmedIdx = g.confirmedIdx ∧
      (learnIdentity id g).isPrimary = g.isPrimary ∧
      (FlagsOk g → FlagsOk (learnIdentity id g)) := by
    intro g
    rw [learnIdentity]
    split_ifs <;> exact ⟨rfl, rfl, rfl, fun h => h⟩
  refine ⟨⟨rfl, rfl, rfl, rfl, rfl, rfl, fun hrelays => ?_, update_field (·.sampledIdx) (hsame _).1,
    update_flags (hsame _).2.2.2⟩, update_field (·.isPrimary) (hsame _).2.2.1, rfl, rfl,
    update_field (·.confirmedIdx) (hsame _).2.1⟩
  rw [hbridges] at hrelays
  cases hrelays

variable [DecidableEq A]

theorem entryGuardsUpdateAll_inv (h : Sound s) :
    ∃ s', entryGuardsUpdateAll env s = some s' ∧ Inv s' := by
  have hfiltered := (@sampledGuardsUpdateFromConsensus_sound D A s env h).quiet
    (entryGuardsUpdateFilteredSets_quiet env _)
  obtain ⟨hkept, hsame⟩ := entryGuardsUpdateConfirmed_kept hfiltered.base hfiltered.primary
  obtain ⟨s', heq, hinv, _⟩ := @entryGuardsUpdatePrimary_inv D A _ env _ _
    (show Inv (entryGuardsUpdateConfirmed _) by rw [Inv, hsame]; exact hkept)
  exact ⟨s', heq, hinv⟩

theorem firstReachable_inv (obeys : Guard D A → Bool) (flags : SampleFlags) (hinv : Inv s) :
    ∃ s' chosen, firstReachableFilteredEntryGuard (entryGuardsUpdatePrimary env) env obeys flags s =
      some (s', chosen) ∧ Inv s' := by
  obtain ⟨hkept, hsame⟩ := @enlarged_kept D A s _ env _ _ obeys hinv
  have henlarged : Inv (enlarged env obeys s) := by
    rw [Inv, hsame]
    exact hkept
  rw [firstReachable_eq]
  split_ifs
  · obtain ⟨t, heq, ht, _⟩ := @entryGuardsUpdatePrimary_inv D A _ env _ _ henlarged
    rw [heq]
    exact ⟨_, _, rfl, ht.quiet (firstCandidate_quiet obeys flags)⟩
  · exact ⟨_, _, rfl, henlarged.quiet (firstCandidate_quiet obeys flags)⟩

theorem selectFilteredGuardForCircuit_inv (u : Usage D A) (hinv : Inv s) :
    ∃ s' chosen, selectFilteredGuardForCircuit env u s = some (s', chosen) ∧ Inv s' := by
  obtain ⟨t, chosen, heq, ht⟩ := @firstReachable_inv D A s env _ _ u.obeys
    ⟨true, true, true, false, u.needDescriptor⟩ hinv
  rw [selectFilteredGuardForCircuit, heq]
  cases chosen with
  | none => exact ⟨_, _, rfl, ht⟩
  | some p => exact ⟨_, _, rfl, ht.quiet ((setPending_harmless env).update t p)⟩

theorem selectEntryGuardForCircuit_inv (u : Usage D A) (hinv : Inv s) :
    ∃ s' chosen, selectEntryGuardForCircuit env u s = some (s', chosen) ∧ Inv s' := by
  obtain ⟨t, heq, ht⟩ := @updatePrimaryIfNeeded_inv D A s env _ _ hinv
  have hprimary := ht.quiet (@selectPrimaryGuardForCircuit_quiet D A env u t)
  rw [selectEntryGuardForCircuit, heq, Option.bind_some]
  split
  · rename_i s₁ p hselect
    rw [hselect] at hprimary
    exact ⟨_, _, rfl, hprimary⟩
  · rename_i s₁ hselect
    rw [hselect] at hprimary
    have hconfirmed := hprimary.quiet (@confirmedLoop_quiet D A env u s₁.confirmedEntryGuards s₁)
    split
    · rename_i s₂ p hloop
      rw [hloop] at hconfirmed
      exact ⟨_, _, rfl, hconfirmed⟩
    · rename_i s₂ hloop
      rw [hloop] at hconfirmed
      obtain ⟨s₃, chosen, hfiltered, hs₃⟩ :=
        @selectFilteredGuardForCircuit_inv D A s₂ env _ _ u hconfirmed
      rw [hfiltered]
      cases chosen with
      | some p => exact ⟨_, _, rfl, hs₃⟩
      | none => exact ⟨_, _, rfl, hs₃.quiet (markGuardMaybeReachable_harmless.updateAll s₃ _)⟩

theorem markPrimaryGuardsMaybeReachable_inv (hinv : Inv s) :
    ∃ s', markPrimaryGuardsMaybeReachable env s = some s' ∧ Inv s' := by
  obtain ⟨t, heq, ht⟩ := @updatePrimaryIfNeeded_inv D A s env _ _ hinv
  rw [markPrimaryGuardsMaybeReachable, heq]
  exact ⟨_, rfl, ht.quiet (markGuardMaybeReachable_harmless.updateAll t _)⟩

theorem entryGuardsNoteGuardSuccess_inv (hinv : Inv s) (hp : p ∈ s.sampledEntryGuards) :
    ∃ s', entryGuardsNoteGuardSuccess env s p = some s' ∧ Inv s' := by
  have hreached := (@reached_harmless D A).update s p
  generalize hr : ({ s.update p reached with lastTimeOnInternet := env.now } : Selection D A) = r
  have hquiet : Quiet s r := hr ▸ ⟨⟨hreached.isBridges, hreached.fresh, hreached.sampled,
    hreached.primary, hreached.nextSampledIdx, hreached.limit, hreached.identity,
    hreached.sampledIdx, hreached.flags⟩, hreached.isPrimary, hreached.confirmed,
    hreached.nextConfirmedIdx, hreached.confirmedIdx⟩
  have hinvr := hinv.quiet hquiet
  obtain ⟨t, heq, ht⟩ : ∃ t, (if (r.mem p).confirmedIdx < 0 then
      updatePrimaryIfNeeded env (makeGuardConfirmed env r p) else some r) = some t ∧ Inv t := by
    split_ifs with hneg
    · obtain ⟨hkept, hsame⟩ :=
        @makeGuardConfirmed_kept D A r p _ _ env hinvr (hquiet.sampled ▸ hp) hneg
      exact updatePrimaryIfNeeded_inv (by rw [Inv, hsame]; exact hkept)
    · exact ⟨r, rfl, hinvr⟩
  have hmem : (s.update p reached).mem p = r.mem p := by rw [← hr]
  rw [entryGuardsNoteGuardSuccess]
  simp only [hr, hmem]
  rw [heq, Option.bind_some]
  split_ifs
  · exact markPrimaryGuardsMaybeReachable_inv ht
  · exact ⟨t, rfl, ht⟩

theorem entryGuardLearnedBridgeIdentity_inv (hinv : Inv s) (addr : A) (id : D) :
    Inv (entryGuardLearnedBridgeIdentity s addr id) := by
  rw [entryGuardLearnedBridgeIdentity]
  split_ifs with hbridges
  · split
    · exact hinv
    · exact hinv.quiet (learnIdentity_quiet hbridges _ id)
  · exact hinv

theorem saveAndLoad_inv (hinv : Inv s) :
    ∃ s', loadGuardsFromState env (updateGuardsInState s) s = some s' ∧ Inv s' := by
  have hload := @loadLines_sound D A s.wiped env.now _ (wiped_sound s)
    (updateGuardsInState_ok hinv.base)
  rw [loadGuardsFromState]
  simp only [sortSampled_sampled hload.base]
  exact entryGuardsUpdateAll_inv hload

theorem perform_inv (hinv : Inv s) (a : Action D A) : ∃ s', perform s a = some s' ∧ Inv s' := by
  cases a with
  | updateAll env => exact entryGuardsUpdateAll_inv hinv.sound
  | expandSample env =>
    obtain ⟨hkept, hsame, _⟩ := @entryGuardsExpandSample_kept D A s _ env _ _ hinv
    exact ⟨_, rfl, by rw [Inv, hsame]; exact hkept⟩
  | selectForCircuit env u =>
    obtain ⟨s', chosen, heq, hinv'⟩ := @selectEntryGuardForCircuit_inv D A s env _ _ u hinv
    exact ⟨s', by rw [perform, heq]; rfl, hinv'⟩
  | noteFailure env p =>
    rw [perform]
    split_ifs
    · exact ⟨_, rfl, hinv.quiet ((noteGuardFailure_harmless env).update s p)⟩
    · exact ⟨s, rfl, hinv⟩
  | noteSuccess env p =>
    rw [perform]
    split_ifs with hp
    · exact entryGuardsNoteGuardSuccess_inv hinv hp
    · exact ⟨s, rfl, hinv⟩
  | cancel p =>
    rw [perform]
    split_ifs
    · have hharmless : Harmless fun g : Guard D A => { g with isPending := false } :=
        ⟨fun _ => rfl, fun _ => rfl, fun _ => rfl, fun _ => rfl, fun _ h => h⟩
      exact ⟨_, rfl, hinv.quiet (hharmless.update s p)⟩
    · exact ⟨s, rfl, hinv⟩
  | markPrimaryMaybeReachable env => exact markPrimaryGuardsMaybeReachable_inv hinv
  | allPrimaryAreDown env =>
    obtain ⟨t, heq, ht⟩ := @updatePrimaryIfNeeded_inv D A s env _ _ hinv
    exact ⟨_, by rw [perform, heq]; rfl, ht.quiet (retryUntilUp_quiet _ t)⟩
  | learnedBridgeIdentity addr id =>
    exact ⟨_, rfl, entryGuardLearnedBridgeIdentity_inv hinv addr id⟩
  | saveAndLoad env => exact saveAndLoad_inv hinv

theorem reached_inv (h : Reached (system D A) (fun _ _ => True) s) : Inv s := by
  refine h.invariant ⟨?_, ?_⟩
  · intro s hs
    rw [hs]
    exact wiped_inv s
  · intro s a s' hinv _ hstep
    obtain ⟨t, heq, ht⟩ := perform_inv hinv a
    obtain rfl := Option.some.inj (heq.symm.trans hstep)
    exact ht

end DecidableEq

/-! ### Two guards -/

def noGuard : Guard ℕ ℕ := parseFromState 0 ⟨⟨none, none⟩, 0, 0, none, false, none⟩

def emptySelection (isBridges : Bool) : Selection ℕ ℕ :=
  ⟨isBridges, fun _ => noGuard, 0, [], [], [], 0, 0, false, 0, 0⟩

theorem emptySelection_init (isBridges : Bool) :
    (system ℕ ℕ).init (emptySelection isBridges) := rfl

def exampleEnv (guards : List (Candidate ℕ ℕ)) (nPrimaryGuards : ℕ) : Env ℕ ℕ where
  now := 1000
  consensusIsMissing := false
  isListed _ := true
  passesFilter _ := true
  hasDescriptor _ := true
  guards
  falsePositive _ := false
  choose _ := 0
  randomTime _ := 1000
  nPrimaryGuards
  minFilteredSampleSize := 20
  maxSampleByPct n := n / 5
  maxSampleSizeAbsolute := 60
  removeIfUnlistedSince := 0
  maybeRemoveIfSampledBefore := 0
  removeIfConfirmedBefore := 0
  internetLikelyDownInterval := 600

def twoRelays : List (Candidate ℕ ℕ) := [⟨some 1, none⟩, ⟨some 2, none⟩]

def twoBridges : List (Candidate ℕ ℕ) := [⟨some 7, some 1⟩, ⟨some 7, some 2⟩]

theorem performs_twoRelays : ∃ s, Reached (system ℕ ℕ) (fun _ _ => True) s ∧
    s.primaryEntryGuards = [0, 1] := by
  have heval : (perform (emptySelection false)
      (.markPrimaryMaybeReachable (exampleEnv twoRelays 2))).map (·.primaryEntryGuards) =
        some [0, 1] := by decide +kernel
  obtain ⟨s, hs, hprimary⟩ := Option.map_eq_some_iff.mp heval
  exact ⟨s, .step (.init (emptySelection_init false)) trivial hs, hprimary⟩

end EntryGuards
