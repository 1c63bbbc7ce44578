/-
The confirmed and the primary guards are made anew.

Whatever the confirmed list was, `entry_guards_update_confirmed` makes it the confirmed guards of
the sample in their order.  `entry_guards_update_primary` goes through the confirmed guards, the old
primary guards and the sample; `Kept` holds between its steps with the guards taken so far and the
old ones still to come.
-/
import LibEltor.EntryGuardLists

open Transition

namespace EntryGuards

variable {D A : Type} {s s' : Selection D A} {p q : ℕ} {P R l : List ℕ} {env : Env D A}

theorem Base.nodup (hb : Base s) : s.sampledEntryGuards.Nodup :=
  hb.sorted.imp fun {p q} hpq => by
    rintro rfl
    exact lt_irrefl _ hpq

theorem Base.idx_ne (hb : Base s) (hp : p ∈ s.sampledEntryGuards) (hq : q ∈ s.sampledEntryGuards)
    (hne : p ≠ q) : (s.mem p).sampledIdx ≠ (s.mem q).sampledIdx := by
  have hpairs : s.sampledEntryGuards.Pairwise
      fun p q => (s.mem p).sampledIdx ≠ (s.mem q).sampledIdx := hb.sorted.imp fun h => ne_of_lt h
  have : Std.Symm fun p q => (s.mem p).sampledIdx ≠ (s.mem q).sampledIdx := ⟨fun _ _ h => h.symm⟩
  exact hpairs.forall hp hq hne

theorem sortSampled_perm (mem : ℕ → Guard D A) (l : List ℕ) : (sortSampled mem l).Perm l :=
  List.perm_insertionSort _ _

theorem sortSampled_sorted (hb : Base s) (hl : ∀ p ∈ l, p ∈ s.sampledEntryGuards) (hn : l.Nodup) :
    (sortSampled s.mem l).Pairwise (Before s.mem) := by
  have hperm := sortSampled_perm s.mem l
  have hle : (sortSampled s.mem l).Pairwise
      fun p q => (s.mem p).sampledIdx ≤ (s.mem q).sampledIdx := by
    have : Std.Total fun p q => (s.mem p).sampledIdx ≤ (s.mem q).sampledIdx :=
      ⟨fun _ _ => le_total _ _⟩
    have : IsTrans ℕ fun p q => (s.mem p).sampledIdx ≤ (s.mem q).sampledIdx :=
      ⟨fun _ _ _ => le_trans⟩
    exact List.pairwise_insertionSort _ l
  have hne : (sortSampled s.mem l).Nodup := hperm.nodup_iff.mpr hn
  refine (hle.and hne).imp_of_mem fun {p q} hp hq h => lt_of_le_of_ne h.1 ?_
  exact hb.idx_ne (hl p (hperm.mem_iff.mp hp)) (hl q (hperm.mem_iff.mp hq)) h.2

theorem sortSampled_eq_filter (hb : Base s) (hn : l.Nodup) {f : ℕ → Bool}
    (hmem : ∀ p, p ∈ l ↔ p ∈ s.sampledEntryGuards ∧ f p = true) :
    sortSampled s.mem l = s.sampledEntryGuards.filter f := by
  have hfilter : l.Perm (s.sampledEntryGuards.filter f) := by
    refine (List.perm_ext_iff_of_nodup hn (hb.nodup.filter f)).mpr fun p => ?_
    rw [hmem, List.mem_filter]
  refine List.Perm.eq_of_pairwise (fun p q _ _ hpq hqp => absurd hpq (lt_asymm hqp))
    (sortSampled_sorted hb (fun p hp => ((hmem p).mp hp).1) hn) (hb.sorted.filter f)
    ((sortSampled_perm s.mem l).trans hfilter)

theorem setConfirmedIdx_keeps (s : Selection D A) (p : ℕ) {f : Guard D A → Guard D A}
    (h : ∀ g, (f g).toCandidate = g.toCandidate ∧ (f g).sampledIdx = g.sampledIdx ∧
      (FlagsOk g → FlagsOk (f g))) : Keeps s (s.update p f) :=
  ⟨rfl, rfl, rfl, rfl, rfl, rfl,
    fun _ => update_field (·.identity) (congrArg Candidate.identity (h _).1),
    update_field (·.sampledIdx) (h _).2.1, update_flags (h _).2.2⟩

theorem numberConfirmed_keeps (l : List ℕ) (s : Selection D A) (n : ℤ) :
    Keeps s (numberConfirmed s l n) ∧
      ∀ p, ((numberConfirmed s l n).mem p).isPrimary = (s.mem p).isPrimary := by
  induction l generalizing s n with
  | nil => exact ⟨Keeps.refl s, fun _ => rfl⟩
  | cons p l ih =>
    obtain ⟨hkeeps, hprimary⟩ := ih (s.update p fun g => { g with confirmedIdx := n }) (n + 1)
    have hset : Keeps s (s.update p fun g => { g with confirmedIdx := n }) :=
      setConfirmedIdx_keeps s p fun g => ⟨rfl, rfl, fun h => h⟩
    refine ⟨hset.trans hkeeps, fun q => ?_⟩
    exact (hprimary q).trans (update_field (·.isPrimary) rfl q)

theorem numberConfirmed_of_notMem (s : Selection D A) (n : ℤ) (hp : p ∉ l) :
    (numberConfirmed s l n).mem p = s.mem p := by
  induction l generalizing s n with
  | nil => rfl
  | cons q l ih =>
    obtain ⟨hpq, hpl⟩ := not_or.mp (List.mem_cons.not.mp hp)
    rw [numberConfirmed, ih _ _ hpl]
    exact Function.update_of_ne hpq _ _

theorem numberConfirmed_getElem (s : Selection D A) (n : ℤ) (hn : l.Nodup) {i : ℕ}
    (hi : i < l.length) : ((numberConfirmed s l n).mem l[i]).confirmedIdx = n + i := by
  induction l generalizing s n i with
  | nil => cases hi
  | cons q l ih =>
    obtain ⟨hq, hl⟩ := List.nodup_cons.mp hn
    rw [numberConfirmed]
    cases i with
    | zero =>
      rw [List.getElem_cons_zero, numberConfirmed_of_notMem _ _ hq]
      show (Function.update s.mem q _ q).confirmedIdx = _
      rw [Function.update_self]
      simp
    | succ i =>
      rw [List.getElem_cons_succ, ih _ _ hl (Nat.lt_of_succ_lt_succ hi)]
      push_cast
      ring

theorem entryGuardsUpdateConfirmed_kept (hb : Base s) (hp : PrimaryOk s P R) :
    Kept (entryGuardsUpdateConfirmed s) P R ∧
      (entryGuardsUpdateConfirmed s).primaryEntryGuards = s.primaryEntryGuards := by
  generalize hl : sortConfirmed s.mem (s.sampledEntryGuards.filter (isConfirmed s.mem)) = l
  have hperm : l.Perm (s.sampledEntryGuards.filter (isConfirmed s.mem)) :=
    hl ▸ List.perm_insertionSort _ _
  have hn : l.Nodup := hperm.nodup_iff.mpr (hb.nodup.filter _)
  obtain ⟨hkeeps, hprimary⟩ := numberConfirmed_keeps l s 0
  have hb' := hb.keeps hkeeps
  have heq : entryGuardsUpdateConfirmed s = { numberConfirmed s l 0 with
      nextConfirmedIdx := l.length
      confirmedEntryGuards := sortSampled (numberConfirmed s l 0).mem l } := by
    rw [← hl]
    rfl
  have hsampled : (numberConfirmed s l 0).sampledEntryGuards = s.sampledEntryGuards :=
    hkeeps.sampled
  have hidx : ∀ p ∈ l, ∃ i, ∃ h : i < l.length, l[i] = p ∧
      ((numberConfirmed s l 0).mem p).confirmedIdx = i := by
    intro p hp
    obtain ⟨i, hi, rfl⟩ := List.mem_iff_getElem.mp hp
    refine ⟨i, hi, rfl, ?_⟩
    rw [numberConfirmed_getElem s 0 hn hi, zero_add]
  -- The confirmed guards are those that were, under new numbers.
  have hmem : ∀ p, p ∈ l ↔ p ∈ s.sampledEntryGuards ∧
      isConfirmed (numberConfirmed s l 0).mem p = true := by
    intro p
    constructor
    · intro hp
      obtain ⟨i, _, _, hi⟩ := hidx p hp
      refine ⟨(List.mem_filter.mp (hperm.mem_iff.mp hp)).1, ?_⟩
      rw [isConfirmed, hi]
      exact decide_eq_true (Int.natCast_nonneg i)
    · rintro ⟨hp, hconf⟩
      by_contra hnot
      rw [isConfirmed, numberConfirmed_of_notMem s 0 hnot] at hconf
      exact hnot (hperm.mem_iff.mpr (List.mem_filter.mpr ⟨hp, hconf⟩))
  have hsort := sortSampled_eq_filter hb' hn (f := isConfirmed (numberConfirmed s l 0).mem)
    (by rw [hsampled]; exact hmem)
  rw [heq]
  refine ⟨⟨hb'.keeps ⟨rfl, rfl, rfl, rfl, rfl, rfl, fun _ _ => rfl, fun _ => rfl, fun _ h => h⟩,
    ⟨hsort, Int.natCast_nonneg _, fun p hp => ?_, fun p hp q hq hconf hpq => ?_⟩,
    (hp.congr hsampled hprimary).congr rfl fun _ => rfl⟩, hkeeps.primary⟩
  · replace hp : p ∈ (numberConfirmed s l 0).sampledEntryGuards := hp
    rw [hsampled] at hp
    show ((numberConfirmed s l 0).mem p).confirmedIdx < l.length
    by_cases hpl : p ∈ l
    · obtain ⟨i, hi, _, hidx⟩ := hidx p hpl
      rw [hidx]
      exact_mod_cast hi
    · have hnot : ¬ isConfirmed (numberConfirmed s l 0).mem p = true :=
        fun hconf => hpl ((hmem p).mpr ⟨hp, hconf⟩)
      rw [isConfirmed, decide_eq_true_eq] at hnot
      omega
  · replace hp : p ∈ (numberConfirmed s l 0).sampledEntryGuards := hp
    replace hq : q ∈ (numberConfirmed s l 0).sampledEntryGuards := hq
    replace hconf : isConfirmed (numberConfirmed s l 0).mem p = true := hconf
    replace hpq : ((numberConfirmed s l 0).mem p).confirmedIdx =
      ((numberConfirmed s l 0).mem q).confirmedIdx := hpq
    rw [hsampled] at hp hq
    have hconfq : isConfirmed (numberConfirmed s l 0).mem q = true := by
      rw [isConfirmed, ← hpq]
      exact hconf
    obtain ⟨i, _, rfl, hi⟩ := hidx p ((hmem p).mpr ⟨hp, hconf⟩)
    obtain ⟨j, _, rfl, hj⟩ := hidx q ((hmem q).mpr ⟨hq, hconfq⟩)
    rw [hi, hj] at hpq
    obtain rfl : i = j := by exact_mod_cast hpq
    rfl

theorem makeGuardConfirmed_kept (hk : Kept s P R) (hp : p ∈ s.sampledEntryGuards)
    (hneg : (s.mem p).confirmedIdx < 0) :
    Kept (makeGuardConfirmed env s p) P R ∧
      (makeGuardConfirmed env s p).primaryEntryGuards = s.primaryEntryGuards := by
  have hnot : isConfirmed s.mem p = false := decide_eq_false (not_le.mpr hneg)
  have hout : p ∉ s.confirmedEntryGuards := by
    intro hmem
    rw [hk.confirmed.eq, List.mem_filter, hnot] at hmem
    cases hmem.2
  generalize hg : (s.update p fun g =>
    { g with confirmedOnDate := env.randomTime p, confirmedIdx := s.nextConfirmedIdx }) = t
  have hkeeps : Keeps s t := hg ▸ setConfirmedIdx_keeps s p fun g => ⟨rfl, rfl, fun h => h⟩
  have hprimary : ∀ q, (t.mem q).isPrimary = (s.mem q).isPrimary :=
    hg ▸ update_field (·.isPrimary) rfl
  have hself : (t.mem p).confirmedIdx = s.nextConfirmedIdx := by
    rw [← hg]
    show (Function.update s.mem p _ p).confirmedIdx = _
    rw [Function.update_self]
  have hother : ∀ q, q ≠ p → t.mem q = s.mem q := by
    intro q hq
    rw [← hg]
    exact Function.update_of_ne hq _ _
  have hconf : ∀ q, isConfirmed t.mem q = true ↔ isConfirmed s.mem q = true ∨ q = p := by
    intro q
    by_cases hq : q = p
    · rw [hq, isConfirmed, hself, hnot]
      simp [hk.confirmed.nonneg]
    · rw [isConfirmed, isConfirmed, hother q hq]
      simp [hq]
  have heq : makeGuardConfirmed env s p = { t with
      nextConfirmedIdx := s.nextConfirmedIdx + 1
      confirmedEntryGuards := sortSampled t.mem (s.confirmedEntryGuards ++ [p])
      primaryGuardsUpToDate := false } := by
    rw [makeGuardConfirmed, hnot, Bool.and_false, Bool.false_or, if_neg (by simpa using hout), ← hg]
    rfl
  have hb' := hk.base.keeps hkeeps
  have hn : (s.confirmedEntryGuards ++ [p]).Nodup := by
    rw [hk.confirmed.eq] at hout ⊢
    refine List.nodup_append.mpr ⟨hk.base.nodup.filter _, List.nodup_singleton p, ?_⟩
    rintro q hq r hr rfl
    obtain rfl := List.mem_singleton.mp hr
    exact hout hq
  have hsort := sortSampled_eq_filter hb' hn (f := isConfirmed t.mem) (by
    intro q
    rw [hkeeps.sampled, List.mem_append, List.mem_singleton, hk.confirmed.eq, List.mem_filter,
      hconf]
    constructor
    · rintro (⟨hq, hc⟩ | rfl)
      · exact ⟨hq, .inl hc⟩
      · exact ⟨hp, .inr rfl⟩
    · rintro ⟨hq, hc | rfl⟩
      · exact .inl ⟨hq, hc⟩
      · exact .inr rfl)
  rw [heq]
  refine ⟨⟨hb'.keeps ⟨rfl, rfl, rfl, rfl, rfl, rfl, fun _ _ => rfl, fun _ => rfl, fun _ h => h⟩,
    ⟨hsort, ?_, fun q hq => ?_, fun q hq r hr hconfq hqr => ?_⟩,
    (hk.primary.congr hkeeps.sampled hprimary).congr rfl fun _ => rfl⟩, hkeeps.primary⟩
  · show 0 ≤ s.nextConfirmedIdx + 1
    have := hk.confirmed.nonneg
    omega
  · show (t.mem q).confirmedIdx < s.nextConfirmedIdx + 1
    by_cases hqp : q = p
    · rw [hqp, hself]
      omega
    · have := hk.confirmed.lt q (hkeeps.sampled ▸ hq)
      rw [hother q hqp]
      omega
  · replace hqr : (t.mem q).confirmedIdx = (t.mem r).confirmedIdx := hqr
    replace hq : q ∈ s.sampledEntryGuards := hkeeps.sampled ▸ hq
    replace hr : r ∈ s.sampledEntryGuards := hkeeps.sampled ▸ hr
    by_cases hqp : q = p <;> by_cases hrp : r = p
    · exact hqp.trans hrp.symm
    · rw [hqp, hself, hother r hrp] at hqr
      have := hk.confirmed.lt r hr
      omega
    · rw [hrp, hself, hother q hqp] at hqr
      have := hk.confirmed.lt q hq
      omega
    · have hc := ((hconf q).mp hconfq).resolve_right hqp
      rw [hother q hqp, hother r hrp] at hqr
      exact hk.confirmed.ne q hq r hr hc hqr

/-! ### Primary guards -/

theorem Kept.setPrimary (hk : Kept s P R) (isPrimary : Bool) {P' R' : List ℕ}
    (hp : PrimaryOk (s.update p (setPrimary isPrimary)) P' R') :
    Kept (s.update p (setPrimary isPrimary)) P' R' :=
  ⟨hk.base.keeps ⟨rfl, rfl, rfl, rfl, rfl, rfl, fun _ => update_field (·.identity) rfl,
      update_field (·.sampledIdx) rfl, update_flags fun h => h⟩,
    hk.confirmed.congr rfl rfl rfl (update_field (·.confirmedIdx) rfl), hp⟩

theorem setPrimary_self (isPrimary : Bool) :
    ((s.update p (setPrimary isPrimary)).mem p).isPrimary = isPrimary := by
  show (Function.update s.mem p _ p).isPrimary = _
  rw [Function.update_self]
  rfl

theorem setPrimary_other (isPrimary : Bool) (hq : q ≠ p) :
    (s.update p (EntryGuards.setPrimary isPrimary)).mem q = s.mem q :=
  Function.update_of_ne hq _ _

theorem Kept.take (hk : Kept s P R) (hp : p ∈ s.sampledEntryGuards) (hnew : p ∉ P) {R' : List ℕ}
    (hR : ∀ q, q ≠ p → (q ∈ R' ↔ q ∈ R)) :
    Kept (s.update p (EntryGuards.setPrimary true)) (P ++ [p]) R' := by
  refine hk.setPrimary true ⟨fun q hq => ?_, ?_, fun q hq => ?_⟩
  · rcases List.mem_append.mp hq with hq | hq
    · exact hk.primary.sampled q hq
    · obtain rfl := List.mem_singleton.mp hq
      exact hp
  · refine List.nodup_append.mpr ⟨hk.primary.nodup, List.nodup_singleton p, ?_⟩
    rintro q hq r hr rfl
    obtain rfl := List.mem_singleton.mp hr
    exact hnew hq
  · rw [List.mem_append, List.mem_singleton]
    by_cases hqp : q = p
    · rw [hqp, setPrimary_self]
      simp
    · rw [setPrimary_other true hqp, hR q hqp, hk.primary.isPrimary q hq]
      simp [hqp]

theorem Kept.leave (hk : Kept s P (p :: R)) (hnew : p ∉ P) (hrest : p ∉ R) :
    Kept (s.update p (EntryGuards.setPrimary false)) P R := by
  refine hk.setPrimary false ⟨hk.primary.sampled, hk.primary.nodup, fun q hq => ?_⟩
  by_cases hqp : q = p
  · rw [hqp, setPrimary_self]
    simp [hnew, hrest]
  · rw [setPrimary_other false hqp, hk.primary.isPrimary q hq, List.mem_cons]
    simp [hqp]

theorem Kept.skip (hk : Kept s P (p :: R)) (hp : p ∈ P) : Kept s P R := by
  refine ⟨hk.base, hk.confirmed, hk.primary.sampled, hk.primary.nodup, fun q hq => ?_⟩
  rw [hk.primary.isPrimary q hq, List.mem_cons]
  constructor
  · rintro (hq | rfl | hq)
    · exact .inl hq
    · exact .inl hp
    · exact .inr hq
  · rintro (hq | hq)
    · exact .inl hq
    · exact .inr (.inr hq)

theorem addConfirmedPrimary_kept {n : ℕ} (l : List ℕ) (hk : Kept s P R)
    (hl : ∀ p ∈ l, p ∈ s.sampledEntryGuards) (hn : l.Nodup) (hnew : ∀ p ∈ l, p ∉ P)
    (hlen : P.length ≤ n) :
    Kept (addConfirmedPrimary n l s P).1 (addConfirmedPrimary n l s P).2 R ∧
      (addConfirmedPrimary n l s P).2.length ≤ n ∧
      (addConfirmedPrimary n l s P).1.sampledEntryGuards = s.sampledEntryGuards ∧
      (addConfirmedPrimary n l s P).1.primaryEntryGuards = s.primaryEntryGuards := by
  induction l generalizing s P with
  | nil => exact ⟨hk, hlen, rfl, rfl⟩
  | cons p l ih =>
    obtain ⟨hp, hl⟩ := List.forall_mem_cons.mp hl
    obtain ⟨hpl, hn⟩ := List.nodup_cons.mp hn
    obtain ⟨hpP, hnew⟩ := List.forall_mem_cons.mp hnew
    rw [addConfirmedPrimary]
    split_ifs with hfull hfiltered
    · exact ⟨hk, hlen, rfl, rfl⟩
    · exact ih hk hl hn hnew hlen
    · refine ih (hk.take hp hpP fun _ _ => Iff.rfl) hl hn (fun q hq hmem => ?_) ?_
      · rcases List.mem_append.mp hmem with hmem | hmem
        · exact hnew q hq hmem
        · obtain rfl := List.mem_singleton.mp hmem
          exact hpl hq
      · rw [List.length_append, List.length_singleton]
        omega

theorem keepOldPrimary_kept {n : ℕ} (hk : Kept s P R) (hR : ∀ p ∈ R, p ∈ s.sampledEntryGuards)
    (hn : R.Nodup) (hlen : P.length ≤ n) :
    Kept (keepOldPrimary n R s P).1 (keepOldPrimary n R s P).2 [] ∧
      (keepOldPrimary n R s P).2.length ≤ n ∧
      (keepOldPrimary n R s P).1.primaryEntryGuards = s.primaryEntryGuards := by
  induction R generalizing s P with
  | nil => exact ⟨hk, hlen, rfl⟩
  | cons p R ih =>
    obtain ⟨hp, hR⟩ := List.forall_mem_cons.mp hR
    obtain ⟨hpR, hn⟩ := List.nodup_cons.mp hn
    rw [keepOldPrimary]
    split_ifs with htaken hroom
    · exact ih (hk.skip htaken) hR hn hlen
    · refine ih (hk.take hp htaken fun q hq => ?_) hR hn ?_
      · rw [List.mem_cons]
        simp [hq]
      · rw [List.length_append, List.length_singleton]
        exact hroom.1
    · exact ih (hk.leave htaken hpR) hR hn hlen

variable [DecidableEq D] [DecidableEq A]

theorem fillPrimary_kept (n : ℕ) (hk : Kept s P []) :
    ∃ s' P', fillPrimary env n s P = some (s', P') ∧ Kept s' P' [] ∧
      s'.primaryEntryGuards = s.primaryEntryGuards ∧ P'.length ≤ P.length + n := by
  induction n generalizing s P with
  | zero => exact ⟨s, P, rfl, hk, rfl, le_refl _⟩
  | succ n ih =>
    obtain ⟨t, chosen, heq, hkept, hsame, hchosen⟩ := @firstReachable_noUpdate D A s P env _ _
      (fun _ => none) (fun _ => true) ⟨true, true, false, true, false⟩ rfl hk
    rw [fillPrimary, heq]
    cases chosen with
    | none => exact ⟨t, P, rfl, hkept, hsame, Nat.le_add_right _ _⟩
    | some p =>
      obtain ⟨hp, hcandidate⟩ := hchosen p rfl
      -- The guard is not marked, so that it is a new one.
      have hnew : p ∉ P := by
        intro hmem
        have hmarked := (hkept.primary.isPrimary p hp).mpr (.inl hmem)
        simp [isCandidate, hmarked] at hcandidate
      obtain ⟨s', P', hfill, hkept', hsame', hlen⟩ :=
        ih (hkept.take hp hnew fun _ _ => Iff.rfl)
      refine ⟨s', P', hfill, hkept', hsame'.trans hsame, hlen.trans ?_⟩
      rw [List.length_append, List.length_singleton]
      omega

theorem entryGuardsUpdatePrimary_inv (hinv : Inv s) :
    ∃ s', entryGuardsUpdatePrimary env s = some s' ∧ Inv s' ∧
      s'.primaryEntryGuards.length ≤ env.nPrimaryGuards := by
  have hstart : Kept { s with primaryGuardsUpToDate := true } [] s.primaryEntryGuards := by
    refine ⟨hinv.base.keeps ⟨rfl, rfl, rfl, rfl, rfl, rfl, fun _ _ => rfl, fun _ => rfl,
      fun _ h => h⟩, hinv.confirmed.congr rfl rfl rfl fun _ => rfl, fun _ h => absurd h List.not_mem_nil,
      List.nodup_nil, fun q hq => ?_⟩
    rw [or_comm]
    exact hinv.primary.isPrimary q hq
  have hconfirmed := hinv.confirmed.eq
  obtain ⟨hadd, haddlen, hsampled, haddsame⟩ := @addConfirmedPrimary_kept D A
    { s with primaryGuardsUpToDate := true } [] s.primaryEntryGuards env.nPrimaryGuards
    s.confirmedEntryGuards hstart
    (fun p hp => (List.mem_filter.mp (hconfirmed ▸ hp)).1) (hconfirmed ▸ hinv.base.nodup.filter _)
    (fun _ _ => List.not_mem_nil) (Nat.zero_le _)
  generalize hr : addConfirmedPrimary env.nPrimaryGuards s.confirmedEntryGuards
    { s with primaryGuardsUpToDate := true } [] = r at hadd haddlen hsampled haddsame
  obtain ⟨hold, holdlen, holdsame⟩ := keepOldPrimary_kept hadd
    (fun p hp => hsampled ▸ hinv.base.sampled p hp) hinv.primary.nodup haddlen
  generalize hk : keepOldPrimary env.nPrimaryGuards s.primaryEntryGuards r.1 r.2 = k
    at hold holdlen holdsame
  obtain ⟨t, Q, hfill, hkept, hsame, hlen⟩ :=
    @fillPrimary_kept D A k.1 k.2 env _ _ (env.nPrimaryGuards - k.2.length) hold
  -- The new list, whether it is sorted or as before, is in the order of the sample.
  obtain ⟨L, hL, hperm, horder⟩ : ∃ L,
      (if t.primaryEntryGuards = Q then Q else sortSampled t.mem Q) = L ∧ L.Perm Q ∧
        L.Pairwise (Before t.mem) := by
    by_cases hchange : t.primaryEntryGuards = Q
    · exact ⟨Q, if_pos hchange, List.Perm.refl Q, hchange ▸ hkept.base.order⟩
    · exact ⟨_, if_neg hchange, sortSampled_perm t.mem Q,
        sortSampled_sorted hkept.base hkept.primary.sampled hkept.primary.nodup⟩
  have hlimit : L.length ≤ env.nPrimaryGuards := by
    rw [hperm.length_eq]
    omega
  refine ⟨{ t with
    primaryEntryGuards := L
    primaryGuardsUpToDate := true
    primaryLimit := env.nPrimaryGuards }, ?_, ?_, hlimit⟩
  · have heq : entryGuardsUpdatePrimary env s =
        (fillPrimary env (env.nPrimaryGuards - k.2.length) k.1 k.2).map fun r => { r.1 with
          primaryEntryGuards :=
            if r.1.primaryEntryGuards = r.2 then r.2 else sortSampled r.1.mem r.2
          primaryGuardsUpToDate := true
          primaryLimit := env.nPrimaryGuards } := by
      rw [← hk, ← hr]
      rfl
    rw [heq, hfill, ← hL]
    rfl
  · have hb := hkept.base
    refine ⟨⟨hb.fresh, hb.sorted, hb.idx_lt, hb.identity, hb.flags, fun p hp => ?_, horder, hlimit⟩,
      hkept.confirmed.congr rfl rfl rfl fun _ => rfl, fun p hp => ?_, ?_, fun p hp => ?_⟩
    · exact hkept.primary.sampled p (hperm.mem_iff.mp hp)
    · exact hkept.primary.sampled p (hperm.mem_iff.mp hp)
    · exact hperm.nodup_iff.mpr hkept.primary.nodup
    · show (t.mem p).isPrimary = true ↔ p ∈ L ∨ p ∈ []
      rw [hperm.mem_iff]
      exact hkept.primary.isPrimary p hp

theorem updatePrimaryIfNeeded_inv (hinv : Inv s) :
    ∃ s', updatePrimaryIfNeeded env s = some s' ∧ Inv s' := by
  rw [updatePrimaryIfNeeded]
  split_ifs
  · exact ⟨s, rfl, hinv⟩
  · obtain ⟨s', heq, hinv', _⟩ := @entryGuardsUpdatePrimary_inv D A s env _ _ hinv
    exact ⟨s', heq, hinv'⟩

end EntryGuards
