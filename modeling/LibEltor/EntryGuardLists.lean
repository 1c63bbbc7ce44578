/-
What keeps the lists of entry guards in order.

`Base` is about the sample and what the primary list is as a list, `ConfirmedOk` about the confirmed
guards, and `PrimaryOk` says which guards are marked as primary.  Most operations change only flags
of guards (`Quiet`).
-/
import LibEltor.EntryGuards

open Transition

namespace EntryGuards

variable {D A : Type} {s s' s'' : Selection D A} {p q : ℕ} {P R : List ℕ} {env : Env D A}

/-- A guard is usable if it is filtered and not known to be unreachable. -/
def FlagsOk (g : Guard D A) : Prop :=
  g.isUsableFilteredGuard = (g.isFilteredGuard && decide (g.isReachable ≠ .no))

def Before (mem : ℕ → Guard D A) (p q : ℕ) : Prop := (mem p).sampledIdx < (mem q).sampledIdx

structure Base (s : Selection D A) : Prop where
  fresh : ∀ p ∈ s.sampledEntryGuards, p < s.fresh
  sorted : s.sampledEntryGuards.Pairwise (Before s.mem)
  idx_lt : ∀ p ∈ s.sampledEntryGuards, (s.mem p).sampledIdx < s.nextSampledIdx
  identity : s.isBridges = false →
    s.sampledEntryGuards.Pairwise fun p q => (s.mem p).identity ≠ (s.mem q).identity
  flags : ∀ p ∈ s.sampledEntryGuards, FlagsOk (s.mem p)
  sampled : ∀ p ∈ s.primaryEntryGuards, p ∈ s.sampledEntryGuards
  order : s.primaryEntryGuards.Pairwise (Before s.mem)
  limit : s.primaryEntryGuards.length ≤ s.primaryLimit

structure ConfirmedOk (s : Selection D A) : Prop where
  eq : s.confirmedEntryGuards = s.sampledEntryGuards.filter (isConfirmed s.mem)
  nonneg : 0 ≤ s.nextConfirmedIdx
  lt : ∀ p ∈ s.sampledEntryGuards, (s.mem p).confirmedIdx < s.nextConfirmedIdx
  ne : ∀ p ∈ s.sampledEntryGuards, ∀ q ∈ s.sampledEntryGuards, isConfirmed s.mem p = true →
    (s.mem p).confirmedIdx = (s.mem q).confirmedIdx → p = q

/-- The guards marked as primary are those of `P` and `R`, where `R` is still to be gone through. -/
structure PrimaryOk (s : Selection D A) (P R : List ℕ) : Prop where
  sampled : ∀ p ∈ P, p ∈ s.sampledEntryGuards
  nodup : P.Nodup
  isPrimary : ∀ p ∈ s.sampledEntryGuards, (s.mem p).isPrimary = true ↔ p ∈ P ∨ p ∈ R

/-- All that is kept, where `P` are the primary guards and `R` others that are marked still. -/
structure Kept (s : Selection D A) (P R : List ℕ) : Prop where
  base : Base s
  confirmed : ConfirmedOk s
  primary : PrimaryOk s P R

def Inv (s : Selection D A) : Prop := Kept s s.primaryEntryGuards []

/-! ### Operations that change flags only -/

structure Keeps (s s' : Selection D A) : Prop where
  isBridges : s'.isBridges = s.isBridges
  fresh : s'.fresh = s.fresh
  sampled : s'.sampledEntryGuards = s.sampledEntryGuards
  primary : s'.primaryEntryGuards = s.primaryEntryGuards
  nextSampledIdx : s'.nextSampledIdx = s.nextSampledIdx
  limit : s'.primaryLimit = s.primaryLimit
  identity : s.isBridges = false → ∀ p, (s'.mem p).identity = (s.mem p).identity
  sampledIdx : ∀ p, (s'.mem p).sampledIdx = (s.mem p).sampledIdx
  flags : ∀ p, FlagsOk (s.mem p) → FlagsOk (s'.mem p)

/-- Only flags other than `is_primary` change. -/
structure Quiet (s s' : Selection D A) : Prop extends Keeps s s' where
  isPrimary : ∀ p, (s'.mem p).isPrimary = (s.mem p).isPrimary
  confirmed : s'.confirmedEntryGuards = s.confirmedEntryGuards
  nextConfirmedIdx : s'.nextConfirmedIdx = s.nextConfirmedIdx
  confirmedIdx : ∀ p, (s'.mem p).confirmedIdx = (s.mem p).confirmedIdx

theorem Keeps.trans (h : Keeps s s') (h' : Keeps s' s'') : Keeps s s'' where
  isBridges := h'.isBridges.trans h.isBridges
  fresh := h'.fresh.trans h.fresh
  sampled := h'.sampled.trans h.sampled
  primary := h'.primary.trans h.primary
  nextSampledIdx := h'.nextSampledIdx.trans h.nextSampledIdx
  limit := h'.limit.trans h.limit
  identity hb p := (h'.identity (h.isBridges.trans hb) p).trans (h.identity hb p)
  sampledIdx p := (h'.sampledIdx p).trans (h.sampledIdx p)
  flags p hp := h'.flags p (h.flags p hp)

theorem Keeps.refl (s : Selection D A) : Keeps s s :=
  ⟨rfl, rfl, rfl, rfl, rfl, rfl, fun _ _ => rfl, fun _ => rfl, fun _ h => h⟩

theorem Quiet.refl (s : Selection D A) : Quiet s s :=
  ⟨Keeps.refl s, fun _ => rfl, rfl, rfl, fun _ => rfl⟩

theorem Quiet.trans (h : Quiet s s') (h' : Quiet s' s'') : Quiet s s'' where
  toKeeps := h.toKeeps.trans h'.toKeeps
  isPrimary p := (h'.isPrimary p).trans (h.isPrimary p)
  confirmed := h'.confirmed.trans h.confirmed
  nextConfirmedIdx := h'.nextConfirmedIdx.trans h.nextConfirmedIdx
  confirmedIdx p := (h'.confirmedIdx p).trans (h.confirmedIdx p)

theorem Quiet.foldl {f : Selection D A → ℕ → Selection D A} (h : ∀ s p, Quiet s (f s p))
    (ps : List ℕ) (s : Selection D A) : Quiet s (ps.foldl f s) := by
  induction ps generalizing s with
  | nil => exact Quiet.refl s
  | cons p ps ih => exact (h s p).trans (ih (f s p))

theorem before_congr {mem mem' : ℕ → Guard D A}
    (h : ∀ p, (mem' p).sampledIdx = (mem p).sampledIdx) : Before mem' = Before mem := by
  funext p q
  rw [Before, Before, h p, h q]

theorem Base.keeps (hb : Base s) (h : Keeps s s') : Base s' := by
  refine ⟨?_, ?_, ?_, fun hbridges => ?_, ?_, ?_, ?_, ?_⟩
  · rw [h.sampled, h.fresh]
    exact hb.fresh
  · rw [h.sampled, before_congr h.sampledIdx]
    exact hb.sorted
  · intro p hp
    rw [h.sampled] at hp
    rw [h.sampledIdx, h.nextSampledIdx]
    exact hb.idx_lt p hp
  · have hrelays := h.isBridges.symm.trans hbridges
    rw [h.sampled]
    refine (hb.identity hrelays).imp fun {p q} hne => ?_
    rw [h.identity hrelays, h.identity hrelays]
    exact hne
  · intro p hp
    rw [h.sampled] at hp
    exact h.flags p (hb.flags p hp)
  · rw [h.primary, h.sampled]
    exact hb.sampled
  · rw [h.primary, before_congr h.sampledIdx]
    exact hb.order
  · rw [h.primary, h.limit]
    exact hb.limit

theorem isConfirmed_congr {mem mem' : ℕ → Guard D A}
    (h : ∀ p, (mem' p).confirmedIdx = (mem p).confirmedIdx) :
    isConfirmed mem' = isConfirmed mem := by
  funext p
  rw [isConfirmed, isConfirmed, h p]

theorem ConfirmedOk.congr (hc : ConfirmedOk s)
    (hsampled : s'.sampledEntryGuards = s.sampledEntryGuards)
    (hconfirmed : s'.confirmedEntryGuards = s.confirmedEntryGuards)
    (hnext : s'.nextConfirmedIdx = s.nextConfirmedIdx)
    (hidx : ∀ p, (s'.mem p).confirmedIdx = (s.mem p).confirmedIdx) : ConfirmedOk s' := by
  refine ⟨?_, ?_, ?_, ?_⟩
  · rw [hconfirmed, hsampled, isConfirmed_congr hidx]
    exact hc.eq
  · rw [hnext]
    exact hc.nonneg
  · intro p hp
    rw [hsampled] at hp
    rw [hidx, hnext]
    exact hc.lt p hp
  · intro p hp q hq
    rw [hsampled] at hp hq
    rw [isConfirmed_congr hidx, hidx, hidx]
    exact hc.ne p hp q hq

theorem ConfirmedOk.quiet (hc : ConfirmedOk s) (h : Quiet s s') : ConfirmedOk s' :=
  hc.congr h.sampled h.confirmed h.nextConfirmedIdx h.confirmedIdx

theorem PrimaryOk.congr (hp : PrimaryOk s P R)
    (hsampled : s'.sampledEntryGuards = s.sampledEntryGuards)
    (hprimary : ∀ p, (s'.mem p).isPrimary = (s.mem p).isPrimary) : PrimaryOk s' P R := by
  refine ⟨?_, hp.nodup, fun q hq => ?_⟩
  · rw [hsampled]
    exact hp.sampled
  · rw [hsampled] at hq
    rw [hprimary]
    exact hp.isPrimary q hq

theorem PrimaryOk.quiet (hp : PrimaryOk s P R) (h : Quiet s s') : PrimaryOk s' P R :=
  hp.congr h.sampled h.isPrimary

theorem Kept.quiet (hk : Kept s P R) (h : Quiet s s') : Kept s' P R :=
  ⟨hk.base.keeps h.toKeeps, hk.confirmed.quiet h, hk.primary.quiet h⟩

theorem Inv.quiet (hinv : Inv s) (h : Quiet s s') : Inv s' := by
  rw [Inv, h.primary]
  exact Kept.quiet hinv h

structure Harmless (f : Guard D A → Guard D A) : Prop where
  identity : ∀ g, (f g).identity = g.identity
  sampledIdx : ∀ g, (f g).sampledIdx = g.sampledIdx
  confirmedIdx : ∀ g, (f g).confirmedIdx = g.confirmedIdx
  isPrimary : ∀ g, (f g).isPrimary = g.isPrimary
  flags : ∀ g, FlagsOk g → FlagsOk (f g)

theorem update_field {α : Type} (field : Guard D A → α) {f : Guard D A → Guard D A}
    (h : field (f (s.mem p)) = field (s.mem p)) (q : ℕ) :
    field ((s.update p f).mem q) = field (s.mem q) := by
  show field (Function.update s.mem p _ q) = _
  by_cases hq : q = p
  · rw [hq, Function.update_self, h]
  · rw [Function.update_of_ne hq]

theorem update_flags {f : Guard D A → Guard D A} (h : FlagsOk (s.mem p) → FlagsOk (f (s.mem p)))
    (q : ℕ) (hq : FlagsOk (s.mem q)) : FlagsOk ((s.update p f).mem q) := by
  show FlagsOk (Function.update s.mem p _ q)
  by_cases hqp : q = p
  · rw [hqp, Function.update_self]
    exact h (hqp ▸ hq)
  · rw [Function.update_of_ne hqp]
    exact hq

theorem Harmless.update {f : Guard D A → Guard D A} (h : Harmless f) (s : Selection D A) (p : ℕ) :
    Quiet s (s.update p f) :=
  ⟨⟨rfl, rfl, rfl, rfl, rfl, rfl, fun _ => update_field (·.identity) (h.identity _),
      update_field (·.sampledIdx) (h.sampledIdx _), update_flags (h.flags _)⟩,
    update_field (·.isPrimary) (h.isPrimary _), rfl, rfl,
    update_field (·.confirmedIdx) (h.confirmedIdx _)⟩

theorem Harmless.updateAll {f : Guard D A → Guard D A} (h : Harmless f) (s : Selection D A)
    (ps : List ℕ) : Quiet s (s.updateAll f ps) :=
  Quiet.foldl h.update ps s

theorem maybeReachable_flags {g : Guard D A} (h : FlagsOk g) : FlagsOk g.maybeReachable := by
  rw [FlagsOk] at h ⊢
  simp [Guard.maybeReachable, h]
  exact fun hfiltered _ => hfiltered

theorem markGuardMaybeReachable_harmless :
    Harmless (markGuardMaybeReachable : Guard D A → Guard D A) := by
  refine ⟨fun g => ?_, fun g => ?_, fun g => ?_, fun g => ?_, fun g hg => ?_⟩ <;>
    rw [markGuardMaybeReachable] <;> split_ifs
  any_goals rfl
  · exact hg
  · exact maybeReachable_flags hg

theorem considerRetry_cases (env : Env D A) (g : Guard D A) :
    considerRetry env g = g ∨ considerRetry env g = g.maybeReachable := by
  rw [considerRetry]
  split_ifs
  · exact .inl rfl
  · exact .inl rfl
  · exact .inr rfl
  · exact .inl rfl

theorem considerRetry_harmless (env : Env D A) : Harmless (considerRetry env) := by
  refine ⟨fun g => ?_, fun g => ?_, fun g => ?_, fun g => ?_, fun g hg => ?_⟩ <;>
    rcases considerRetry_cases env g with h | h <;> rw [h]
  any_goals rfl
  · exact hg
  · exact maybeReachable_flags hg

theorem setFilteredFlags_harmless (env : Env D A) : Harmless (setFilteredFlags env) := by
  have hretry := considerRetry_harmless env
  refine ⟨fun g => ?_, fun g => ?_, fun g => ?_, fun g => ?_, fun g _ => ?_⟩ <;>
    rw [setFilteredFlags] <;> split_ifs
  · exact hretry.identity _
  · rfl
  · exact hretry.sampledIdx _
  · rfl
  · exact hretry.confirmedIdx _
  · rfl
  · exact hretry.isPrimary _
  · rfl
  · exact hretry.flags _ rfl
  · rfl

theorem entryGuardSetFilteredFlags_quiet (env : Env D A) (s : Selection D A) (p : ℕ) :
    Quiet s (entryGuardSetFilteredFlags env s p) :=
  let h := (setFilteredFlags_harmless env).update s p
  ⟨⟨h.isBridges, h.fresh, h.sampled, h.primary, h.nextSampledIdx, h.limit, h.identity, h.sampledIdx,
    h.flags⟩, h.isPrimary, h.confirmed, h.nextConfirmedIdx, h.confirmedIdx⟩

theorem entryGuardsUpdateFilteredSets_quiet (env : Env D A) (s : Selection D A) :
    Quiet s (entryGuardsUpdateFilteredSets env s) :=
  Quiet.foldl (entryGuardSetFilteredFlags_quiet env) _ s

theorem numReachableFilteredGuards_quiet (env : Env D A) (obeys : Guard D A → Bool)
    (s : Selection D A) : Quiet s (numReachableFilteredGuards env obeys s).1 :=
  (considerRetry_harmless env).updateAll s _

/-- What `first_reachable_filtered_entry_guard` does after that. -/
def firstCandidate (env : Env D A) (obeys : Guard D A → Bool) (flags : SampleFlags)
    (s : Selection D A) : Selection D A × Option ℕ :=
  let s := s.updateAll (considerRetry env) s.sampledEntryGuards
  (s, s.sampledEntryGuards.find? fun p => isCandidate env obeys flags (s.mem p))

theorem firstCandidate_quiet (obeys : Guard D A → Bool) (flags : SampleFlags) :
    Quiet s (firstCandidate env obeys flags s).1 :=
  (considerRetry_harmless env).updateAll s _

theorem firstCandidate_some {obeys : Guard D A → Bool} {flags : SampleFlags}
    (h : (firstCandidate env obeys flags s).2 = some p) :
    p ∈ (firstCandidate env obeys flags s).1.sampledEntryGuards ∧
      isCandidate env obeys flags ((firstCandidate env obeys flags s).1.mem p) = true := by
  have hfind : (firstCandidate env obeys flags s).1.sampledEntryGuards.find?
      (fun p => isCandidate env obeys flags ((firstCandidate env obeys flags s).1.mem p)) =
        some p := h
  have hsome := List.find?_some hfind
  exact ⟨List.mem_of_find?_eq_some hfind, hsome⟩

/-! ### The sample grows -/

def push (s : Selection D A) (g : Guard D A) : Selection D A :=
  { s with
    mem := Function.update s.mem s.fresh g
    fresh := s.fresh + 1
    sampledEntryGuards := s.sampledEntryGuards ++ [s.fresh]
    nextSampledIdx := s.nextSampledIdx + 1 }

theorem push_mem {g : Guard D A} (hb : Base s) (hp : p ∈ s.sampledEntryGuards) :
    (push s g).mem p = s.mem p :=
  Function.update_of_ne (hb.fresh p hp).ne _ _

theorem push_fresh {g : Guard D A} : (push s g).mem s.fresh = g := Function.update_self _ _ _

theorem mem_push {g : Guard D A} :
    p ∈ (push s g).sampledEntryGuards ↔ p ∈ s.sampledEntryGuards ∨ p = s.fresh := by
  show p ∈ s.sampledEntryGuards ++ [s.fresh] ↔ _
  rw [List.mem_append, List.mem_singleton]

theorem push_base {g : Guard D A} (hb : Base s) (hidx : g.sampledIdx = s.nextSampledIdx)
    (hflags : FlagsOk g) (hid : s.isBridges = false →
      ∀ p ∈ s.sampledEntryGuards, (s.mem p).identity ≠ g.identity) : Base (push s g) := by
  have hpairs : ∀ {r : ℕ → ℕ → Prop} {r' : ℕ → ℕ → Prop} {l : List ℕ}, l.Pairwise r →
      (∀ p ∈ l, p ∈ s.sampledEntryGuards) →
      (∀ p q, p ∈ s.sampledEntryGuards → q ∈ s.sampledEntryGuards → r p q → r' p q) →
      l.Pairwise r' :=
    fun hl hmem himp => hl.imp_of_mem fun hp hq hr => himp _ _ (hmem _ hp) (hmem _ hq) hr
  have hbefore : ∀ p q, p ∈ s.sampledEntryGuards → q ∈ s.sampledEntryGuards →
      Before s.mem p q → Before (push s g).mem p q := by
    intro p q hp hq hpq
    rw [Before, push_mem hb hp, push_mem hb hq]
    exact hpq
  refine ⟨fun p hp => ?_, ?_, fun p hp => ?_, fun hbridges => ?_, fun p hp => ?_, fun p hp => ?_,
    hpairs hb.order hb.sampled hbefore, hb.limit⟩
  · rcases mem_push.mp hp with hp | rfl
    · exact (hb.fresh p hp).trans (Nat.lt_succ_self _)
    · exact Nat.lt_succ_self _
  · refine List.pairwise_append.mpr ⟨hpairs hb.sorted (fun _ hp => hp) hbefore,
      List.pairwise_singleton _ _, fun p hp q hq => ?_⟩
    obtain rfl := List.mem_singleton.mp hq
    rw [Before, push_mem hb hp, push_fresh, hidx]
    exact hb.idx_lt p hp
  · show ((push s g).mem p).sampledIdx < s.nextSampledIdx + 1
    rcases mem_push.mp hp with hp | rfl
    · rw [push_mem hb hp]
      exact (hb.idx_lt p hp).trans (Nat.lt_succ_self _)
    · rw [push_fresh, hidx]
      exact Nat.lt_succ_self _
  · refine List.pairwise_append.mpr ⟨hpairs (hb.identity hbridges) (fun _ hp => hp) ?_,
      List.pairwise_singleton _ _, fun p hp q hq => ?_⟩
    · intro p q hp hq hne
      rw [push_mem hb hp, push_mem hb hq]
      exact hne
    · obtain rfl := List.mem_singleton.mp hq
      rw [push_mem hb hp, push_fresh]
      exact hid hbridges p hp
  · rcases mem_push.mp hp with hp | rfl
    · rw [push_mem hb hp]
      exact hb.flags p hp
    · rw [push_fresh]
      exact hflags
  · exact mem_push.mpr (.inl (hb.sampled p hp))

theorem push_confirmed {g : Guard D A} (hb : Base s) (hc : ConfirmedOk s)
    (hg : g.confirmedIdx = -1) : ConfirmedOk (push s g) := by
  have hnot : isConfirmed (push s g).mem s.fresh = false := by
    rw [isConfirmed, push_fresh, hg]
    rfl
  have hsame : ∀ p ∈ s.sampledEntryGuards, isConfirmed (push s g).mem p = isConfirmed s.mem p := by
    intro p hp
    rw [isConfirmed, isConfirmed, push_mem hb hp]
  refine ⟨?_, hc.nonneg, fun p hp => ?_, fun p hp q hq hcp heq => ?_⟩
  · show s.confirmedEntryGuards = (s.sampledEntryGuards ++ [s.fresh]).filter _
    rw [List.filter_append, List.filter_congr hsame, hc.eq]
    simp [hnot]
  · show ((push s g).mem p).confirmedIdx < s.nextConfirmedIdx
    rcases mem_push.mp hp with hp | rfl
    · rw [push_mem hb hp]
      exact hc.lt p hp
    · rw [push_fresh, hg]
      have := hc.nonneg
      omega
  · have hsampled : p ∈ s.sampledEntryGuards := by
      rcases mem_push.mp hp with hp | rfl
      · exact hp
      · rw [hnot] at hcp
        cases hcp
    rw [hsame p hsampled] at hcp
    rcases mem_push.mp hq with hq | rfl
    · rw [push_mem hb hsampled, push_mem hb hq] at heq
      exact hc.ne p hsampled q hq hcp heq
    · rw [push_mem hb hsampled, push_fresh, hg] at heq
      rw [isConfirmed, heq] at hcp
      cases hcp

theorem push_primary {g : Guard D A} (hb : Base s) (hp : PrimaryOk s P [])
    (hg : g.isPrimary = false) : PrimaryOk (push s g) P [] := by
  refine ⟨fun q hq => mem_push.mpr (.inl (hp.sampled q hq)), hp.nodup, fun q hq => ?_⟩
  rcases mem_push.mp hq with hq | rfl
  · rw [push_mem hb hq]
    exact hp.isPrimary q hq
  · rw [push_fresh, hg]
    have hnot : s.fresh ∉ P := fun hmem => lt_irrefl _ (hb.fresh _ (hp.sampled _ hmem))
    simp [hnot]

variable [DecidableEq D] [DecidableEq A]

theorem alreadySampled_relay {c : Candidate D A} (hrelays : s.isBridges = false)
    (h : ¬ alreadySampled s c = true) :
    ∀ p ∈ s.sampledEntryGuards, (s.mem p).identity ≠ c.identity := by
  intro p hp heq
  refine h ?_
  rw [alreadySampled, hrelays, if_neg Bool.false_ne_true]
  exact List.any_eq_true.mpr ⟨p, hp, decide_eq_true heq⟩

theorem addToSample_kept {c : Candidate D A} (hk : Kept s P [])
    (h : addToSample env s c = some s') :
    Kept s' P [] ∧ s'.primaryEntryGuards = s.primaryEntryGuards ∧ s'.isBridges = s.isBridges ∧
      s'.sampledEntryGuards.length = s.sampledEntryGuards.length + 1 := by
  rw [addToSample] at h
  split_ifs at h with hsampled
  obtain rfl := Option.some.inj h
  have hquiet := entryGuardSetFilteredFlags_quiet env (push s (newGuard env s c)) s.fresh
  have hpush : Kept (push s (newGuard env s c)) P [] :=
    ⟨push_base hk.base rfl rfl fun hrelays => alreadySampled_relay hrelays hsampled,
      push_confirmed hk.base hk.confirmed rfl, push_primary hk.base hk.primary rfl⟩
  refine ⟨hpush.quiet hquiet, hquiet.primary, hquiet.isBridges, ?_⟩
  rw [addToSampleImpl]
  refine (congrArg List.length hquiet.sampled).trans ?_
  exact List.length_append

/-- The sample does not grow beyond `maxSample`. -/
theorem expandLoop_kept (maxSample : ℕ) (n : ℕ) (eligible : List (Candidate D A)) (usable : ℕ)
    (hk : Kept s P []) :
    Kept (expandLoop env maxSample n eligible usable s) P [] ∧
      (expandLoop env maxSample n eligible usable s).primaryEntryGuards = s.primaryEntryGuards ∧
      (expandLoop env maxSample n eligible usable s).sampledEntryGuards.length ≤
        max s.sampledEntryGuards.length maxSample := by
  induction n generalizing eligible usable s with
  | zero => exact ⟨hk, rfl, le_max_left _ _⟩
  | succ n ih =>
    rw [expandLoop]
    split_ifs with husable hmax
    · exact ⟨hk, rfl, le_max_left _ _⟩
    · exact ⟨hk, rfl, le_max_left _ _⟩
    · dsimp only
      split
      · exact ⟨hk, rfl, le_max_left _ _⟩
      · split
        · exact ⟨hk, rfl, le_max_left _ _⟩
        · rename_i s' hadd
          obtain ⟨hk', hprimary, _, hlength⟩ := addToSample_kept hk hadd
          obtain ⟨hkept, hsame, hle⟩ := ih (eligible.eraseIdx
            (env.choose s.nextSampledIdx % eligible.length))
            (usable + if (s'.mem s.fresh).isUsableFilteredGuard then 1 else 0) hk'
          refine ⟨hkept, hsame.trans hprimary, hle.trans ?_⟩
          rw [hlength]
          omega

theorem entryGuardsExpandSample_kept (hk : Kept s P []) :
    Kept (entryGuardsExpandSample env s) P [] ∧
      (entryGuardsExpandSample env s).primaryEntryGuards = s.primaryEntryGuards ∧
      (entryGuardsExpandSample env s).sampledEntryGuards.length ≤
        max s.sampledEntryGuards.length (getMaxSampleSize env s.isBridges env.guards.length) := by
  rw [entryGuardsExpandSample]
  split_ifs
  · exact ⟨hk, rfl, le_max_left _ _⟩
  · have hquiet := numReachableFilteredGuards_quiet env (fun _ => true) s
    obtain ⟨hkept, hsame, hle⟩ := @expandLoop_kept D A _ P env _ _
      (getMaxSampleSize env (numReachableFilteredGuards env (fun _ => true) s).1.isBridges
        env.guards.length)
      (getEligibleGuards env (numReachableFilteredGuards env (fun _ => true) s).1).length
      (getEligibleGuards env (numReachableFilteredGuards env (fun _ => true) s).1)
      (numReachableFilteredGuards env (fun _ => true) s).2 (hk.quiet hquiet)
    refine ⟨hkept, hsame.trans hquiet.primary, hle.trans_eq ?_⟩
    rw [hquiet.sampled, hquiet.isBridges]

/-- What `first_reachable_filtered_entry_guard` does before it may update the primary list. -/
def enlarged (env : Env D A) (obeys : Guard D A → Bool) (s : Selection D A) : Selection D A :=
  let s := s.updateAll (considerRetry env) s.sampledEntryGuards
  let (s, n) := numReachableFilteredGuards env obeys s
  if n < env.minFilteredSampleSize then entryGuardsExpandSample env s else s

theorem enlarged_kept (obeys : Guard D A → Bool) (hk : Kept s P []) :
    Kept (enlarged env obeys s) P [] ∧
      (enlarged env obeys s).primaryEntryGuards = s.primaryEntryGuards := by
  have hquiet := ((considerRetry_harmless env).updateAll s s.sampledEntryGuards).trans
    (numReachableFilteredGuards_quiet env obeys _)
  rw [enlarged]
  dsimp only
  split_ifs
  · obtain ⟨hkept, hsame, _⟩ := @entryGuardsExpandSample_kept D A _ P env _ _ (hk.quiet hquiet)
    exact ⟨hkept, hsame.trans hquiet.primary⟩
  · exact ⟨hk.quiet hquiet, hquiet.primary⟩

theorem firstReachable_eq (updatePrimary : Selection D A → Option (Selection D A))
    (obeys : Guard D A → Bool) (flags : SampleFlags) :
    firstReachableFilteredEntryGuard updatePrimary env obeys flags s =
      (if flags.excludePrimary && !(enlarged env obeys s).primaryGuardsUpToDate &&
          !flags.noUpdatePrimary then updatePrimary (enlarged env obeys s)
        else some (enlarged env obeys s)).map (firstCandidate env obeys flags) := rfl

theorem firstReachable_noUpdate (updatePrimary : Selection D A → Option (Selection D A))
    (obeys : Guard D A → Bool) {flags : SampleFlags} (hflag : flags.noUpdatePrimary = true)
    (hk : Kept s P []) :
    ∃ s' chosen, firstReachableFilteredEntryGuard updatePrimary env obeys flags s =
        some (s', chosen) ∧ Kept s' P [] ∧ s'.primaryEntryGuards = s.primaryEntryGuards ∧
      ∀ p, chosen = some p →
        p ∈ s'.sampledEntryGuards ∧ isCandidate env obeys flags (s'.mem p) = true := by
  obtain ⟨hkept, hsame⟩ := @enlarged_kept D A s P env _ _ obeys hk
  have hquiet := @firstCandidate_quiet D A (enlarged env obeys s) env obeys flags
  refine ⟨(firstCandidate env obeys flags (enlarged env obeys s)).1,
    (firstCandidate env obeys flags (enlarged env obeys s)).2, ?_, hkept.quiet hquiet,
    hquiet.primary.trans hsame, fun p hp => firstCandidate_some hp⟩
  rw [firstReachable_eq, hflag, Bool.not_true, Bool.and_false, if_neg Bool.false_ne_true]
  rfl

end EntryGuards
