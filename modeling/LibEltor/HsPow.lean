/-
The replay cache of the proof-of-work defenses (`hs_pow_verify`, `initialize_pow_defenses`,
`rotate_pow_seeds`).

All services of a process share one cache of nonces.  An entry is keyed by the first four bytes of
a seed, and a rotation scrubs the entries of its previous seed by these four bytes.  As long as no
other seed in use begins with them, what a service has accepted is refused until its seed is gone
(`replay_refused`).  Nothing sees to this when the seeds are drawn: two that begin alike let a
solution in twice (`accepted_twice`).
-/
import LibEltor.Bytes
import LibEltor.Transition

open Bytes Transition

namespace HsPow

abbrev Seed := Block 32
abbrev Nonce := Block 16
abbrev SeedHead := Block 4

def seedHead (seed : Seed) : SeedHead := zeroFill 4 (seed.toList.take 4)

structure NonceCacheEntry where
  nonce : Nonce
  seedHead : SeedHead
deriving DecidableEq

/-- `hs_pow_solution_t`. -/
structure Solution where
  nonce : Nonce
  effort : UInt32
  seedHead : SeedHead
  equixSolution : Block 16

structure ServiceState where
  seedCurrent : Seed
  seedPrevious : Seed

/-- The hash functions that solutions are checked with: `blake2b` with a result of
`HS_POW_HASH_LEN` bytes, and `equix_verify`, true for `EQUIX_OK`. -/
structure Equix where
  blake2b : Bytes → Block 4
  verify : Bytes → List UInt16 → Bool

/-! ### Checking a solution -/

def pstring : Bytes := ascii "Tor hs intro v1" ++ [0]

def buildEquixChallenge (blindedId : Block 32) (seed : Seed) (nonce : Nonce) (effort : UInt32) :
    Bytes :=
  pstring ++ blindedId.toList ++ seed.toList ++ nonce.toList ++ be32 effort

/-- Whether `R * E <= UINT32_MAX`. -/
def validateEquixChallenge (equix : Equix) (challenge : Bytes) (solutionBytes : Block 16)
    (effort : UInt32) : Bool :=
  let hashResult := equix.blake2b (challenge ++ solutionBytes.toList)
  decide ((getBe32 hashResult.toList).toNat * effort.toNat ≤ 2 ^ 32 - 1)

/-- `EQUIX_NUM_IDX` indices of 16 bits, the low byte first. -/
def unpackEquixSolution (bytes : Block 16) : List UInt16 :=
  (List.range 8).map fun i =>
    UInt16.ofNat ((bytes.toList[2 * i]?.getD 0).toNat + 256 * (bytes.toList[2 * i + 1]?.getD 0).toNat)

/-- The seed of a service that begins with `head`. -/
def findSeed (powState : ServiceState) (head : SeedHead) : Option Seed :=
  if seedHead powState.seedCurrent = head then some powState.seedCurrent
  else if seedHead powState.seedPrevious = head then some powState.seedPrevious
  else none

/-- Whether the solution is accepted, and the cache then.  `ctx` says whether `equix_alloc` gives
a context. -/
def hsPowVerify (equix : Equix) (ctx : Bool) (cache : List NonceCacheEntry)
    (serviceBlindedId : Block 32) (powState : ServiceState) (solution : Solution) :
    Bool × List NonceCacheEntry :=
  match findSeed powState solution.seedHead with
  | none => (false, cache)
  | some seed =>
    let search : NonceCacheEntry := ⟨solution.nonce, solution.seedHead⟩
    if search ∈ cache then (false, cache)
    else
      let challenge := buildEquixChallenge serviceBlindedId seed solution.nonce solution.effort
      if ¬ validateEquixChallenge equix challenge solution.equixSolution solution.effort then
        (false, cache)
      else if ¬ ctx then (false, cache)
      else if ¬ equix.verify challenge (unpackEquixSolution solution.equixSolution) then
        (false, cache)
      else (true, search :: cache)

def hsPowRemoveSeedFromCache (head : SeedHead) (cache : List NonceCacheEntry) :
    List NonceCacheEntry :=
  cache.filter fun entry => entry.seedHead ≠ head

/-- The two seeds that `crypto_rand` gives. -/
def initializePowDefenses (seedCurrent seedPrevious : Seed) : ServiceState :=
  ⟨seedCurrent, seedPrevious⟩

/-- The loop over what `crypto_rand` gives; none while it goes on. -/
def drawSeed (seedPrevious : Seed) : Seed → List Seed → Option Seed
  | seedCurrent, draws =>
    if seedHead seedPrevious = seedHead seedCurrent then
      match draws with
      | [] => none
      | seed :: draws => drawSeed seedPrevious seed draws
    else some seedCurrent
termination_by structural _ draws => draws

def rotatePowSeeds (powState : ServiceState) (draws : List Seed) (cache : List NonceCacheEntry) :
    Option (ServiceState × List NonceCacheEntry) :=
  let seedPrevious := powState.seedCurrent
  (drawSeed seedPrevious powState.seedCurrent draws).map fun seedCurrent =>
    (⟨seedCurrent, seedPrevious⟩, hsPowRemoveSeedFromCache (seedHead powState.seedPrevious) cache)

/-- The services with a `pow_state`, the cache, and all that was accepted: by which service, for
which seed, with which nonce. -/
structure Process (ι : Type*) where
  services : ι → Option ServiceState
  cache : List NonceCacheEntry
  accepted : List (ι × Seed × Nonce)

inductive Action (ι : Type*)
  | verify (i : ι) (ctx : Bool) (serviceBlindedId : Block 32) (solution : Solution)
  | initPow (i : ι) (seedCurrent seedPrevious : Seed)
  | rotate (i : ι) (draws : List Seed)
  | free (i : ι)

variable {ι : Type*} [DecidableEq ι]

/-- Seeds are initialized where there is no `pow_state` (`pow_housekeeping`). -/
def step (equix : Equix) (s : Process ι) : Action ι → Option (Process ι)
  | .verify i ctx serviceBlindedId solution =>
    (s.services i).map fun powState =>
      let (ok, cache) := hsPowVerify equix ctx s.cache serviceBlindedId powState solution
      { s with
        cache
        accepted := if ok then
            (((findSeed powState solution.seedHead).map fun seed =>
              (i, seed, solution.nonce)).toList ++ s.accepted)
          else s.accepted }
  | .initPow i seedCurrent seedPrevious =>
    match s.services i with
    | some _ => none
    | none =>
      some { s with
        services := Function.update s.services i
          (some (initializePowDefenses seedCurrent seedPrevious)) }
  | .rotate i draws =>
    (s.services i).bind fun powState =>
      (rotatePowSeeds powState draws s.cache).map fun (powState, cache) =>
        { s with services := Function.update s.services i (some powState), cache }
  | .free i => some { s with services := Function.update s.services i none }

def system (equix : Equix) : System (Process ι) (Action ι) where
  init s := s = ⟨fun _ => none, [], []⟩
  step s a s' := step equix s a = some s'

/-! ### One call -/

variable {equix : Equix} {s s' : Process ι} {a : Action ι}

/-- A seed that service `i` looks for solutions of. -/
def InUse (s : Process ι) (i : ι) (seed : Seed) : Prop :=
  ∃ powState, s.services i = some powState ∧
    (seed = powState.seedCurrent ∨ seed = powState.seedPrevious)

/-- All that service `i` has accepted for this seed is in the cache. -/
def Remembered (cache : List NonceCacheEntry) (accepted : List (ι × Seed × Nonce)) (i : ι)
    (seed : Seed) : Prop :=
  ∀ nonce, (i, seed, nonce) ∈ accepted → ⟨nonce, seedHead seed⟩ ∈ cache

theorem findSeed_eq_some {powState : ServiceState} {head : SeedHead} {seed : Seed}
    (h : findSeed powState head = some seed) :
    seedHead seed = head ∧ (seed = powState.seedCurrent ∨ seed = powState.seedPrevious) := by
  rw [findSeed] at h
  split_ifs at h with hcur hprev
  · obtain rfl := Option.some.inj h
    exact ⟨hcur, .inl rfl⟩
  · obtain rfl := Option.some.inj h
    exact ⟨hprev, .inr rfl⟩

section Verify

variable {ctx : Bool} {cache : List NonceCacheEntry} {blindedId : Block 32}
  {powState : ServiceState} {solution : Solution}

theorem hsPowVerify_rejected
    (h : (hsPowVerify equix ctx cache blindedId powState solution).1 = false) :
    (hsPowVerify equix ctx cache blindedId powState solution).2 = cache := by
  rw [hsPowVerify] at h ⊢
  cases hseed : findSeed powState solution.seedHead with
  | none => rfl
  | some seed =>
    simp only [hseed] at h ⊢
    split_ifs at h ⊢ <;> rfl

theorem hsPowVerify_accepted
    (h : (hsPowVerify equix ctx cache blindedId powState solution).1 = true) :
    ∃ seed, findSeed powState solution.seedHead = some seed ∧
      ⟨solution.nonce, solution.seedHead⟩ ∉ cache ∧
      (hsPowVerify equix ctx cache blindedId powState solution).2 =
        ⟨solution.nonce, solution.seedHead⟩ :: cache := by
  rw [hsPowVerify] at h ⊢
  cases hseed : findSeed powState solution.seedHead with
  | none => simp [hseed] at h
  | some seed =>
    simp only [hseed] at h ⊢
    refine ⟨seed, rfl, ?_⟩
    split_ifs at h ⊢ with hmem
    exact ⟨hmem, rfl⟩

theorem hsPowVerify_of_mem (h : ⟨solution.nonce, solution.seedHead⟩ ∈ cache) :
    (hsPowVerify equix ctx cache blindedId powState solution).1 = false := by
  by_contra hne
  obtain ⟨_, _, hmem, _⟩ := hsPowVerify_accepted (Bool.eq_true_of_not_eq_false hne)
  exact hmem h

end Verify

/-- What a step does, apart from a solution that is rejected. -/
inductive Effect (s : Process ι) : Action ι → Process ι → Prop
  | rejected {i ctx id solution} : Effect s (.verify i ctx id solution) s
  | accepted {i ctx id} {solution : Solution} {seed : Seed} (use : InUse s i seed)
      (head : seedHead seed = solution.seedHead)
      (new : ⟨solution.nonce, seedHead seed⟩ ∉ s.cache) :
      Effect s (.verify i ctx id solution)
        { s with
          cache := ⟨solution.nonce, seedHead seed⟩ :: s.cache
          accepted := (i, seed, solution.nonce) :: s.accepted }
  | initialized {i seedCurrent seedPrevious} (none : s.services i = none) :
      Effect s (.initPow i seedCurrent seedPrevious)
        { s with services := Function.update s.services i (some ⟨seedCurrent, seedPrevious⟩) }
  | rotated {i draws} {powState : ServiceState} {seed : Seed} (some : s.services i = some powState)
      (drawn : drawSeed powState.seedCurrent powState.seedCurrent draws = Option.some seed) :
      Effect s (.rotate i draws)
        { s with
          services := Function.update s.services i (Option.some ⟨seed, powState.seedCurrent⟩)
          cache := hsPowRemoveSeedFromCache (seedHead powState.seedPrevious) s.cache }
  | freed {i} : Effect s (.free i) { s with services := Function.update s.services i Option.none }

theorem effect_of_step (h : step equix s a = some s') : Effect s a s' := by
  cases a with
  | verify i ctx id solution =>
    obtain ⟨powState, hservice, rfl⟩ := Option.map_eq_some_iff.mp h
    cases hok : (hsPowVerify equix ctx s.cache id powState solution).1 with
    | false =>
      have hcache := hsPowVerify_rejected hok
      simp only [hok, hcache]
      exact .rejected
    | true =>
      obtain ⟨seed, hseed, hnew, hcache⟩ := hsPowVerify_accepted hok
      obtain ⟨hhead, huse⟩ := findSeed_eq_some hseed
      simp only [hok, hcache, hseed]
      rw [← hhead] at hnew ⊢
      exact .accepted ⟨powState, hservice, huse⟩ hhead hnew
  | initPow i seedCurrent seedPrevious =>
    simp only [step] at h
    split at h
    · cases h
    · obtain rfl := Option.some.inj h
      exact .initialized ‹_›
  | rotate i draws =>
    obtain ⟨powState, hservice, hmap⟩ := Option.bind_eq_some_iff.mp h
    obtain ⟨⟨new, cache⟩, hrotate, rfl⟩ := Option.map_eq_some_iff.mp hmap
    obtain ⟨seed, hdraw, heq⟩ := Option.map_eq_some_iff.mp hrotate
    cases heq
    exact .rotated hservice hdraw
  | free i =>
    obtain rfl := Option.some.inj h
    exact .freed

/-! ### Runs -/

/-- No seed is drawn that the service has accepted a solution for and forgotten it; and the four
bytes that a rotation scrubs are not those of another seed in use. -/
def HeadsApart (s : Process ι) : Action ι → Prop
  | .verify .. => True
  | .free _ => True
  | .initPow i seedCurrent seedPrevious =>
    Remembered s.cache s.accepted i seedCurrent ∧ Remembered s.cache s.accepted i seedPrevious
  | .rotate i draws =>
    ∀ powState, s.services i = some powState →
      seedHead powState.seedCurrent ≠ seedHead powState.seedPrevious ∧
      (∀ j seed, j ≠ i → InUse s j seed → seedHead seed ≠ seedHead powState.seedPrevious) ∧
      ∀ seed, drawSeed powState.seedCurrent powState.seedCurrent draws = some seed →
        Remembered (hsPowRemoveSeedFromCache (seedHead powState.seedPrevious) s.cache)
          s.accepted i seed

structure Guarded (s : Process ι) : Prop where
  nodup : s.accepted.Nodup
  remembered : ∀ i seed, InUse s i seed → Remembered s.cache s.accepted i seed

theorem inUse_update {i j : ι} {new : Option ServiceState} {seed : Seed}
    {cache : List NonceCacheEntry} {accepted : List (ι × Seed × Nonce)}
    (h : InUse ⟨Function.update s.services i new, cache, accepted⟩ j seed) :
    (j ≠ i ∧ InUse s j seed) ∨
      (j = i ∧ ∃ powState, new = some powState ∧
        (seed = powState.seedCurrent ∨ seed = powState.seedPrevious)) := by
  obtain ⟨powState, hservice, hseed⟩ := h
  change Function.update s.services i new j = some powState at hservice
  by_cases hji : j = i
  · subst hji
    rw [Function.update_self] at hservice
    exact .inr ⟨rfl, powState, hservice, hseed⟩
  · rw [Function.update_of_ne hji] at hservice
    exact .inl ⟨hji, powState, hservice, hseed⟩

omit [DecidableEq ι] in
theorem Remembered.scrub {cache : List NonceCacheEntry} {accepted : List (ι × Seed × Nonce)} {i : ι}
    {seed : Seed} {head : SeedHead} (h : Remembered cache accepted i seed)
    (hne : seedHead seed ≠ head) :
    Remembered (hsPowRemoveSeedFromCache head cache) accepted i seed := by
  intro nonce hmem
  exact List.mem_filter.mpr ⟨h nonce hmem, decide_eq_true hne⟩

theorem Guarded.step (hg : Guarded s) (hok : HeadsApart s a) (he : Effect s a s') : Guarded s' := by
  cases he with
  | rejected => exact hg
  | @accepted i _ _ solution seed use head new =>
    refine ⟨List.nodup_cons.mpr ⟨fun hmem => ?_, hg.nodup⟩, fun j seed' huse nonce hmem => ?_⟩
    · exact new (hg.remembered i seed use _ hmem)
    · rcases List.mem_cons.mp hmem with heq | hmem
      · cases heq
        exact List.mem_cons_self
      · exact List.mem_cons_of_mem _ (hg.remembered j seed' huse nonce hmem)
  | @initialized i seedCurrent seedPrevious none =>
    refine ⟨hg.nodup, fun j seed huse => ?_⟩
    rcases inUse_update huse with ⟨_, huse⟩ | ⟨rfl, powState, hnew, hseed⟩
    · exact hg.remembered j seed huse
    · cases hnew
      rcases hseed with rfl | rfl
      · exact hok.1
      · exact hok.2
  | @rotated i draws powState drawn some hdraw =>
    obtain ⟨hown, hothers, hnew⟩ := hok powState some
    refine ⟨hg.nodup, fun j seed huse => ?_⟩
    rcases inUse_update huse with ⟨hji, huse⟩ | ⟨rfl, powState', hstate, hseed⟩
    · exact (hg.remembered j seed huse).scrub (hothers j seed hji huse)
    · cases hstate
      rcases hseed with rfl | rfl
      · exact hnew _ hdraw
      · exact (hg.remembered j _ ⟨powState, some, .inl rfl⟩).scrub hown
  | @freed i =>
    refine ⟨hg.nodup, fun j seed huse => ?_⟩
    rcases inUse_update huse with ⟨_, huse⟩ | ⟨_, powState, hnew, _⟩
    · exact hg.remembered j seed huse
    · cases hnew

theorem guarded_inductive : Inductive (system (ι := ι) equix) HeadsApart Guarded where
  init := by
    rintro _ rfl
    exact ⟨List.nodup_nil, fun _ _ _ _ hmem => absurd hmem List.not_mem_nil⟩
  step _ _ _ hg hok hs := hg.step hok (effect_of_step hs)

/-- Nothing is accepted twice; what was accepted is refused while its seed is in use; a scrub
removes entries only that no seed in use then begins like; and a solution that is rejected leaves
the cache as it is. -/
theorem replay_refused (hr : Reached (system equix) HeadsApart s) :
    s.accepted.Nodup ∧
    (∀ i powState seed nonce, s.services i = some powState → (i, seed, nonce) ∈ s.accepted →
      seed = powState.seedCurrent ∨ seed = powState.seedPrevious →
      ∀ (ctx : Bool) (id : Block 32) (solution : Solution), solution.nonce = nonce →
        solution.seedHead = seedHead seed →
        (hsPowVerify equix ctx s.cache id powState solution).1 = false) ∧
    (∀ i draws s', HeadsApart s (.rotate i draws) → step equix s (.rotate i draws) = some s' →
      ∀ entry ∈ s.cache, entry ∉ s'.cache →
        ∃ powState, s.services i = some powState ∧ entry.seedHead = seedHead powState.seedPrevious ∧
          entry.seedHead ≠ seedHead powState.seedCurrent ∧
          ∀ j seed, j ≠ i → InUse s j seed → seedHead seed ≠ entry.seedHead) ∧
    ∀ ctx id powState solution, (hsPowVerify equix ctx s.cache id powState solution).1 = false →
      (hsPowVerify equix ctx s.cache id powState solution).2 = s.cache := by
  have hg : Guarded s := hr.invariant guarded_inductive
  refine ⟨hg.nodup, ?_, ?_, fun _ _ _ _ h => hsPowVerify_rejected h⟩
  · intro i powState seed nonce hservice hmem hseed ctx id solution hnonce hhead
    apply hsPowVerify_of_mem
    rw [hnonce, hhead]
    exact hg.remembered i seed ⟨powState, hservice, hseed⟩ nonce hmem
  · intro i draws s' hok hstep entry hentry hgone
    cases effect_of_step hstep with
    | @rotated _ _ powState drawn hservice hdraw =>
      obtain ⟨hown, hothers, _⟩ := hok powState hservice
      have hhead : entry.seedHead = seedHead powState.seedPrevious := by
        by_contra hne
        exact hgone (List.mem_filter.mpr ⟨hentry, decide_eq_true hne⟩)
      refine ⟨powState, hservice, hhead, ?_, fun j seed hji huse => ?_⟩
      · rw [hhead]
        exact hown.symm
      · rw [hhead]
        exact hothers j seed hji huse

/-! ### Two runs -/

def exampleEquix : Equix := ⟨fun _ => zeroFill 4 [], fun _ _ => true⟩

def exampleSolution (head : Bytes) : Solution :=
  ⟨zeroFill 16 [7], 0, zeroFill 4 head, zeroFill 16 []⟩

def verifyExample (head : Bytes) : Action ℕ := .verify 0 true (zeroFill 32 [1]) (exampleSolution head)

/-- A service that has taken a solution refuses it from then on. -/
theorem replay_refused_once : ∃ s powState,
    Reached (system exampleEquix) HeadsApart s ∧ s.services 0 = some powState ∧
      (0, zeroFill 32 [1, 2, 3, 4, 5], zeroFill 16 [7]) ∈ s.accepted ∧
      (hsPowVerify exampleEquix true s.cache (zeroFill 32 [2]) powState
        (exampleSolution [1, 2, 3, 4])).1 = false := by
  let powState : ServiceState := ⟨zeroFill 32 [1, 2, 3, 4, 5], zeroFill 32 [6]⟩
  let started : Process ℕ := ⟨Function.update (fun _ => none) 0 (some powState), [], []⟩
  let used : Process ℕ := { started with
    cache := [⟨zeroFill 16 [7], zeroFill 4 [1, 2, 3, 4]⟩]
    accepted := [(0, zeroFill 32 [1, 2, 3, 4, 5], zeroFill 16 [7])] }
  have hstarted : Reached (system exampleEquix) HeadsApart started := by
    have hs : step exampleEquix ⟨fun _ => none, [], []⟩
        (.initPow 0 (zeroFill 32 [1, 2, 3, 4, 5]) (zeroFill 32 [6])) = some started := rfl
    refine .step (.init rfl) ?_ hs
    exact ⟨fun _ hmem => absurd hmem List.not_mem_nil, fun _ hmem => absurd hmem List.not_mem_nil⟩
  have hused : Reached (system exampleEquix) HeadsApart used :=
    .step (a := verifyExample [1, 2, 3, 4]) hstarted trivial (by rfl)
  refine ⟨used, powState, hused, rfl, List.mem_singleton_self _, ?_⟩
  exact (replay_refused hused).2.1 0 powState _ _ rfl (List.mem_singleton_self _) (.inl rfl)
    true (zeroFill 32 [2]) (exampleSolution [1, 2, 3, 4]) rfl (by decide)

def after (actions : List (Action ℕ)) : Option (Process ℕ) :=
  actions.foldlM (step exampleEquix) ⟨fun _ => none, [], []⟩

theorem reached_after {actions : List (Action ℕ)} {s : Process ℕ} (h : after actions = some s) :
    Reached (system exampleEquix) (fun _ _ => True) s :=
  Reached.foldlM (fun _ _ _ hs => hs) actions (.init rfl) h

/-- A service whose two seeds begin alike takes a solution, rotates its seeds, and takes the
solution again. -/
theorem accepted_twice : ∃ s : Process ℕ,
    Reached (system exampleEquix) (fun _ _ => True) s ∧ ¬ s.accepted.Nodup := by
  let actions : List (Action ℕ) :=
    [.initPow 0 (zeroFill 32 [1, 2, 3, 4, 5]) (zeroFill 32 [1, 2, 3, 4, 6]),
      verifyExample [1, 2, 3, 4], .rotate 0 [zeroFill 32 [9]], verifyExample [1, 2, 3, 4]]
  obtain ⟨s, hs⟩ := Option.isSome_iff_exists.mp (by decide +kernel : (after actions).isSome = true)
  have htwice : (after actions).all (fun s => decide (¬ s.accepted.Nodup)) = true := by
    decide +kernel
  rw [hs] at htwice
  exact ⟨s, reached_after hs, of_decide_eq_true htwice⟩

end HsPow
