/-
Solving the proof of work (`hs_pow_solve`) and what becomes of the solution at the service.

The nonce is a little-endian counter of 128 bits that is kept beside the challenge it is part of; an
`equix_solution` is stored as bytes and read back by the verifier, which builds its challenge anew.
-/
import Mathlib.Data.Nat.Digits.Lemmas
import LibEltor.HsPow

open Bytes Transition

namespace HsPow

/-! ### Numbers of several bytes -/

abbrev EquixSolution := List.Vector UInt16 8

def indexBytes (idx : UInt16) : Bytes := [idx.toUInt8, (idx >>> 8).toUInt8]

theorem length_flatMap_indexBytes (l : List UInt16) :
    (l.flatMap indexBytes).length = 2 * l.length := by
  induction l with
  | nil => rfl
  | cons idx rest ih =>
    rw [List.flatMap_cons, List.length_append, ih, List.length_cons]
    show 2 + 2 * rest.length = 2 * (rest.length + 1)
    omega

def packEquixSolution (sol : EquixSolution) : Block 16 :=
  ⟨sol.toList.flatMap indexBytes, by rw [length_flatMap_indexBytes, sol.toList_length]⟩

def effortFits (r effort : UInt32) : Bool :=
  decide (r.toUInt64 * effort.toUInt64 ≤ 0xffffffff)

def incrementBytes : Bytes → Bytes
  | [] => []
  | b :: rest => if b + 1 > b then (b + 1) :: rest else (b + 1) :: incrementBytes rest

theorem length_incrementBytes (l : Bytes) : (incrementBytes l).length = l.length := by
  induction l with
  | nil => rfl
  | cons b rest ih =>
    rw [incrementBytes]
    by_cases hb : b + 1 > b
    · rw [if_pos hb]
      rfl
    · rw [if_neg hb, List.length_cons, ih]
      rfl

def incrementNonce (nonce : Nonce) : Nonce :=
  ⟨incrementBytes nonce.toList, by rw [length_incrementBytes, nonce.toList_length]⟩

/-! ### The solver -/

def nonceOffset : ℕ := 16 + 32 + 32

def setNonce (nonce : Nonce) (challenge : Bytes) : Bytes :=
  challenge.take nonceOffset ++ nonce.toList ++ challenge.drop (nonceOffset + 16)

def incrementAndSetNonce (nonce : Nonce) (challenge : Bytes) : Nonce × Bytes :=
  let nonce := incrementNonce nonce
  (nonce, setNonce nonce challenge)

/-- What `equix_solve` gives: `EQUIX_OK` with the solutions, `EQUIX_FAIL_CHALLENGE`, or an error
that ends the search. -/
inductive EquixResult
  | ok (sols : List EquixSolution)
  | failChallenge
  | fail

structure SolverInputs where
  serviceBlindedId : Block 32
  seed : Seed
  effort : UInt32

/-- The solutions that were found and fit the effort: the first of them. -/
def firstFitting (equix : Equix) (challenge : Bytes) (effort : UInt32) (sols : List EquixSolution) :
    Option EquixSolution :=
  sols.find? fun sol => validateEquixChallenge equix challenge (packEquixSolution sol) effort

/-- The search, for at most `retries` calls of the solver; none when it has not ended then, and
otherwise what is returned. -/
def solveLoop (equix : Equix) (solve : ℕ → Bytes → EquixResult) (powInputs : SolverInputs) :
    ℕ → ℕ → Nonce → Bytes → Option (Option Solution)
  | 0, _, _, _ => none
  | retries + 1, k, nonce, challenge =>
    let again :=
      let (nonce, challenge) := incrementAndSetNonce nonce challenge
      solveLoop equix solve powInputs retries (k + 1) nonce challenge
    match solve k challenge with
    | .ok sols =>
      match firstFitting equix challenge powInputs.effort sols with
      | some sol =>
        some (some
          { nonce := nonce
            effort := powInputs.effort
            seedHead := seedHead powInputs.seed
            equixSolution := packEquixSolution sol })
      | none => again
    | .failChallenge => again
    | .fail => some none

/-- `ctx` says whether `equix_alloc` gives a context; `nonce` is what `crypto_rand` gives. -/
def hsPowSolve (equix : Equix) (solve : ℕ → Bytes → EquixResult) (ctx : Bool)
    (powInputs : SolverInputs) (nonce : Nonce) (retries : ℕ) : Option (Option Solution) :=
  let challenge := buildEquixChallenge powInputs.serviceBlindedId powInputs.seed nonce powInputs.effort
  if ¬ ctx then some none
  else solveLoop equix solve powInputs retries 0 nonce challenge

/-! ### The counter -/

def nonceValue (l : Bytes) : ℕ := Nat.ofDigits 256 (l.map UInt8.toNat)

theorem nonceValue_cons (b : UInt8) (rest : Bytes) :
    nonceValue (b :: rest) = b.toNat + 256 * nonceValue rest := by
  rw [nonceValue, List.map_cons, Nat.ofDigits_cons]
  rfl

theorem digits_lt {l : Bytes} : ∀ d ∈ l.map UInt8.toNat, d < 256 := by
  intro d hd
  obtain ⟨b, -, rfl⟩ := List.mem_map.mp hd
  exact b.toNat_lt

theorem nonceValue_lt (l : Bytes) : nonceValue l < 256 ^ l.length := by
  have h := Nat.ofDigits_lt_base_pow_length (by decide : 1 < 256) (digits_lt (l := l))
  rwa [List.length_map] at h

theorem nonceValue_inj {l l' : Bytes} (hlen : l.length = l'.length)
    (h : nonceValue l = nonceValue l') : l = l' := by
  have hdigits := Nat.ofDigits_inj_of_len_eq (by decide : 1 < 256) (by simpa using hlen) digits_lt
    digits_lt h
  exact List.map_injective_iff.mpr (fun _ _ hbytes => UInt8.toNat_inj.mp hbytes) hdigits

theorem nonceValue_incrementBytes (l : Bytes) :
    nonceValue (incrementBytes l) = (nonceValue l + 1) % 256 ^ l.length := by
  induction l with
  | nil => rfl
  | cons b rest ih =>
    have hrest := nonceValue_lt rest
    rw [incrementBytes, List.length_cons, Nat.pow_succ', nonceValue_cons b rest]
    by_cases hb : b = 255
    · -- the byte wraps around and carries
      subst hb
      rw [if_neg (by decide), nonceValue_cons, ih]
      show 0 + 256 * ((nonceValue rest + 1) % 256 ^ rest.length) = _
      rw [Nat.zero_add, ← Nat.mul_mod_mul_left]
      congr 1
      show 256 * (nonceValue rest + 1) = 255 + 256 * nonceValue rest + 1
      omega
    · have hlt : b.toNat < 255 := by
        have := b.toNat_lt
        have hne : b.toNat ≠ 255 := fun h => hb (UInt8.toNat_inj.mp h)
        omega
      have hsucc : (b + 1).toNat = b.toNat + 1 := by
        rw [UInt8.toNat_add]
        exact Nat.mod_eq_of_lt (by show b.toNat + 1 < 256; omega)
      have hgt : b + 1 > b := by
        show b < b + 1
        rw [UInt8.lt_iff_toNat_lt, hsucc]
        omega
      rw [if_pos hgt, nonceValue_cons, hsucc, Nat.mod_eq_of_lt (by omega)]
      omega

theorem nonceValue_iterate (nonce : Nonce) (k : ℕ) :
    nonceValue (incrementNonce^[k] nonce).toList = (nonceValue nonce.toList + k) % 2 ^ 128 := by
  induction k with
  | zero =>
    have h := nonceValue_lt nonce.toList
    rw [nonce.toList_length] at h
    exact (Nat.mod_eq_of_lt h).symm
  | succ k ih =>
    rw [Function.iterate_succ_apply']
    show nonceValue (incrementBytes (incrementNonce^[k] nonce).toList) = _
    rw [nonceValue_incrementBytes, ih, List.Vector.toList_length, ← Nat.add_assoc]
    show _ % 2 ^ 128 = _
    rw [Nat.mod_add_mod]

theorem existsUnique_iterate (nonce target : Nonce) :
    ∃! k, k < 2 ^ 128 ∧ incrementNonce^[k] nonce = target := by
  have hnonce : nonceValue nonce.toList < 2 ^ 128 := by
    have h := nonceValue_lt nonce.toList
    rwa [nonce.toList_length] at h
  have htarget : nonceValue target.toList < 2 ^ 128 := by
    have h := nonceValue_lt target.toList
    rwa [target.toList_length] at h
  have hiff : ∀ k, incrementNonce^[k] nonce = target ↔
      (nonceValue nonce.toList + k) % 2 ^ 128 = nonceValue target.toList := by
    intro k
    rw [← nonceValue_iterate]
    constructor
    · rintro rfl
      rfl
    · intro h
      exact List.Vector.toList_injective (nonceValue_inj (by simp) h)
  refine ⟨(nonceValue target.toList + 2 ^ 128 - nonceValue nonce.toList) % 2 ^ 128, ⟨?_, ?_⟩, ?_⟩
  · exact Nat.mod_lt _ (by decide)
  · rw [hiff]
    omega
  · rintro k ⟨hk, hreach⟩
    rw [hiff] at hreach
    omega

theorem index_eq (idx : UInt16) :
    UInt16.ofNat (idx.toUInt8.toNat + 256 * (idx >>> 8).toUInt8.toNat) = idx := by
  apply UInt16.toNat_inj.mp
  have hlt := idx.toNat_lt
  have hlow : idx.toUInt8.toNat = idx.toNat % 256 := UInt16.toNat_toUInt8 idx
  have hhigh : (idx >>> 8).toUInt8.toNat = idx.toNat / 256 % 256 := by
    rw [UInt16.toNat_toUInt8, UInt16.toNat_shiftRight]
    show idx.toNat >>> 8 % 256 = _
    rw [Nat.shiftRight_eq_div_pow]
  rw [UInt16.toNat_ofNat', hlow, hhigh]
  omega

theorem getElem?_flatMap_indexBytes (l : List UInt16) (i : ℕ) :
    (l.flatMap indexBytes)[2 * i]? = l[i]?.map UInt16.toUInt8 ∧
      (l.flatMap indexBytes)[2 * i + 1]? = l[i]?.map fun idx : UInt16 => (idx >>> 8).toUInt8 := by
  induction l generalizing i with
  | nil => exact ⟨rfl, rfl⟩
  | cons idx rest ih =>
    cases i with
    | zero => exact ⟨rfl, rfl⟩
    | succ i => exact ih i

theorem unpackEquixSolution_pack (sol : EquixSolution) :
    unpackEquixSolution (packEquixSolution sol) = sol.toList := by
  apply List.ext_getElem?
  intro i
  rw [unpackEquixSolution, List.getElem?_map]
  by_cases hi : i < 8
  · have hlen : i < sol.toList.length := by rwa [sol.toList_length]
    obtain ⟨hlow, hhigh⟩ := getElem?_flatMap_indexBytes sol.toList i
    rw [List.getElem?_eq_getElem hlen] at hlow hhigh ⊢
    have hrange : (List.range 8)[i]? = some i := by
      rw [List.getElem?_range hi]
    rw [hrange]
    show some (UInt16.ofNat (((sol.toList.flatMap indexBytes)[2 * i]?.getD 0).toNat +
      256 * ((sol.toList.flatMap indexBytes)[2 * i + 1]?.getD 0).toNat)) = _
    rw [hlow, hhigh]
    exact congrArg some (index_eq _)
  · rw [List.getElem?_eq_none (by simp; omega), List.getElem?_eq_none (by simp; omega)]
    rfl

theorem effortFits_iff (r effort : UInt32) :
    effortFits r effort = true ↔ r.toNat * effort.toNat ≤ 2 ^ 32 - 1 := by
  have hr := r.toNat_lt
  have heffort := effort.toNat_lt
  have hmul : r.toNat * effort.toNat < 2 ^ 64 :=
    calc r.toNat * effort.toNat < 2 ^ 32 * 2 ^ 32 := Nat.mul_lt_mul'' hr heffort
      _ = 2 ^ 64 := by decide
  rw [effortFits, decide_eq_true_iff, UInt64.le_iff_toNat_le, UInt64.toNat_mul,
    UInt32.toNat_toUInt64, UInt32.toNat_toUInt64, Nat.mod_eq_of_lt hmul]
  rfl

theorem validateEquixChallenge_eq (equix : Equix) (challenge : Bytes) (solutionBytes : Block 16)
    (effort : UInt32) : validateEquixChallenge equix challenge solutionBytes effort =
      effortFits (getBe32 (equix.blake2b (challenge ++ solutionBytes.toList)).toList) effort := by
  rw [Bool.eq_iff_iff, effortFits_iff]
  exact decide_eq_true_iff

/-! ### The search -/

variable {equix : Equix} {solve : ℕ → Bytes → EquixResult} {powInputs : SolverInputs}
  {solution : Solution}

theorem setNonce_buildEquixChallenge (blindedId : Block 32) (seed : Seed) (nonce nonce' : Nonce)
    (effort : UInt32) : setNonce nonce' (buildEquixChallenge blindedId seed nonce effort) =
      buildEquixChallenge blindedId seed nonce' effort := by
  have hhead : (pstring ++ blindedId.toList ++ seed.toList).length = nonceOffset := by
    rw [List.length_append, List.length_append, blindedId.toList_length, seed.toList_length]
    rfl
  have hfront : (pstring ++ blindedId.toList ++ seed.toList ++ nonce.toList).length =
      nonceOffset + 16 := by
    rw [List.length_append, hhead, nonce.toList_length]
  rw [setNonce, buildEquixChallenge, List.drop_left' hfront, List.append_assoc _ nonce.toList,
    List.take_left' hhead]
  rfl

def nonceIn (challenge : Bytes) : Bytes := (challenge.drop nonceOffset).take 16

theorem nonceIn_buildEquixChallenge (blindedId : Block 32) (seed : Seed) (nonce : Nonce)
    (effort : UInt32) : nonceIn (buildEquixChallenge blindedId seed nonce effort) = nonce.toList := by
  have hhead : (pstring ++ blindedId.toList ++ seed.toList).length = nonceOffset := by
    rw [List.length_append, List.length_append, blindedId.toList_length, seed.toList_length]
    rfl
  rw [nonceIn, buildEquixChallenge, List.append_assoc _ nonce.toList, List.drop_left' hhead,
    List.take_left' nonce.toList_length]

def SolverInputs.challenge (powInputs : SolverInputs) (nonce : Nonce) : Bytes :=
  buildEquixChallenge powInputs.serviceBlindedId powInputs.seed nonce powInputs.effort

/-- What it means that a solution was found by call `k` of the solver. -/
structure Found (equix : Equix) (solve : ℕ → Bytes → EquixResult) (powInputs : SolverInputs)
    (nonce : Nonce) (k : ℕ) (solution : Solution) : Prop where
  nonce : solution.nonce = incrementNonce^[k] nonce
  effort : solution.effort = powInputs.effort
  seedHead : solution.seedHead = seedHead powInputs.seed
  solved : ∃ sols sol, solve k (powInputs.challenge solution.nonce) = .ok sols ∧ sol ∈ sols ∧
    solution.equixSolution = packEquixSolution sol
  fits : validateEquixChallenge equix (powInputs.challenge solution.nonce) solution.equixSolution
    powInputs.effort = true

theorem solveLoop_found {nonce : Nonce} {retries k : ℕ}
    (h : solveLoop equix solve powInputs retries k (incrementNonce^[k] nonce)
      (powInputs.challenge (incrementNonce^[k] nonce)) = some (some solution)) :
    ∃ j, j < k + retries ∧ Found equix solve powInputs nonce j solution := by
  induction retries generalizing k with
  | zero => cases h
  | succ retries ih =>
    have hagain : solveLoop equix solve powInputs retries (k + 1)
        (incrementNonce (incrementNonce^[k] nonce))
        (setNonce (incrementNonce (incrementNonce^[k] nonce))
          (powInputs.challenge (incrementNonce^[k] nonce))) = some (some solution) →
        ∃ j, j < k + (retries + 1) ∧ Found equix solve powInputs nonce j solution := by
      intro hrest
      rw [SolverInputs.challenge, setNonce_buildEquixChallenge,
        ← Function.iterate_succ_apply' incrementNonce] at hrest
      obtain ⟨j, hj, hfound⟩ := ih hrest
      exact ⟨j, by omega, hfound⟩
    rw [solveLoop] at h
    simp only [incrementAndSetNonce] at h
    cases hresult : solve k (powInputs.challenge (incrementNonce^[k] nonce)) with
    | fail =>
      rw [hresult] at h
      cases h
    | failChallenge =>
      rw [hresult] at h
      exact hagain h
    | ok sols =>
      rw [hresult] at h
      cases hfirst : firstFitting equix (powInputs.challenge (incrementNonce^[k] nonce))
          powInputs.effort sols with
      | none =>
        simp only [hfirst] at h
        exact hagain h
      | some sol =>
        simp only [hfirst, Option.some.injEq] at h
        subst h
        have hfits := List.find?_some hfirst
        exact ⟨k, by omega, rfl, rfl, rfl, ⟨sols, sol, hresult, List.mem_of_find?_eq_some hfirst, rfl⟩,
          hfits⟩

theorem hsPowSolve_found {ctx : Bool} {nonce : Nonce} {retries : ℕ}
    (h : hsPowSolve equix solve ctx powInputs nonce retries = some (some solution)) :
    ∃ k, k < retries ∧ Found equix solve powInputs nonce k solution := by
  rw [hsPowSolve] at h
  by_cases hctx : ¬ ctx = true
  · rw [if_pos hctx] at h
    cases h
  · rw [if_neg hctx] at h
    obtain ⟨k, hk, hfound⟩ := solveLoop_found (k := 0) h
    exact ⟨k, by omega, hfound⟩

/-! ### The verifier -/

theorem Found.verify {nonce : Nonce} {k : ℕ} (h : Found equix solve powInputs nonce k solution)
    (hsolver : ∀ k challenge sols, solve k challenge = .ok sols →
      ∀ sol ∈ sols, equix.verify challenge sol.toList = true)
    {cache : List NonceCacheEntry} {powState : ServiceState}
    (hseed : findSeed powState (HsPow.seedHead powInputs.seed) = some powInputs.seed)
    (hnew : ⟨solution.nonce, HsPow.seedHead powInputs.seed⟩ ∉ cache) :
    (hsPowVerify equix true cache powInputs.serviceBlindedId powState solution).1 = true := by
  obtain ⟨sols, sol, hsolve, hsol, hpacked⟩ := h.solved
  have hverify := hsolver k _ sols hsolve sol hsol
  have hfits := h.fits
  rw [SolverInputs.challenge] at hverify hfits
  rw [hpacked] at hfits
  rw [hsPowVerify, h.seedHead, hseed]
  simp only [if_neg hnew, h.effort, hfits, hpacked, unpackEquixSolution_pack, hverify]
  rfl

theorem findSeed_seedHead {powState : ServiceState} {seed : Seed}
    (h : powState.seedCurrent = seed ∨
      powState.seedPrevious = seed ∧ seedHead powState.seedCurrent ≠ seedHead seed) :
    findSeed powState (seedHead seed) = some seed := by
  rw [findSeed]
  rcases h with rfl | ⟨rfl, hne⟩
  · exact if_pos rfl
  · rw [if_neg hne, if_pos rfl]

variable {ι : Type*} [DecidableEq ι]

def CacheAccepted (s : Process ι) : Prop :=
  ∀ entry ∈ s.cache, ∃ i seed, (i, seed, entry.nonce) ∈ s.accepted ∧ seedHead seed = entry.seedHead

theorem CacheAccepted.step {s s' : Process ι} {a : Action ι} (h : CacheAccepted s)
    (he : Effect s a s') : CacheAccepted s' := by
  cases he with
  | rejected => exact h
  | @accepted i _ _ solution seed use head new =>
    intro entry hentry
    rcases List.mem_cons.mp hentry with rfl | hentry
    · exact ⟨i, seed, List.mem_cons_self, rfl⟩
    · obtain ⟨j, seed', hmem, hhead⟩ := h entry hentry
      exact ⟨j, seed', List.mem_cons_of_mem _ hmem, hhead⟩
  | initialized none => exact h
  | rotated some drawn =>
    intro entry hentry
    exact h entry (List.mem_of_mem_filter hentry)
  | freed => exact h

theorem cacheAccepted_inductive :
    Inductive (system (ι := ι) equix) (fun _ _ => True) CacheAccepted where
  init := by
    rintro _ rfl
    intro entry hentry
    exact absurd hentry List.not_mem_nil
  step _ _ _ h _ hs := h.step (effect_of_step hs)

/-- What was solved holds the nonce that was solved, and is accepted by a service with its seed, in
every run, unless something with its nonce was accepted before for a seed that begins alike.  The
counter meets every nonce once, solutions are read back as they were, and the effort is compared as
it is. -/
theorem hsPowSolve_accepted (equix : Equix) (solve : ℕ → Bytes → EquixResult)
    (hsolver : ∀ k challenge sols, solve k challenge = .ok sols →
      ∀ sol ∈ sols, equix.verify challenge sol.toList = true) :
    (∀ ctx powInputs nonce retries solution,
      hsPowSolve equix solve ctx powInputs nonce retries = some (some solution) →
      (∃ k challenge sols sol, k < retries ∧ solve k challenge = .ok sols ∧ sol ∈ sols ∧
          solution.equixSolution = packEquixSolution sol ∧
          nonceIn challenge = solution.nonce.toList ∧ solution.nonce = incrementNonce^[k] nonce) ∧
        ∀ (s : Process ι) i powState, Reached (system equix) (fun _ _ => True) s →
          s.services i = some powState →
          (powState.seedCurrent = powInputs.seed ∨ powState.seedPrevious = powInputs.seed ∧
            seedHead powState.seedCurrent ≠ seedHead powInputs.seed) →
          (∀ j seed, (j, seed, solution.nonce) ∈ s.accepted →
            seedHead seed ≠ seedHead powInputs.seed) →
          (hsPowVerify equix true s.cache powInputs.serviceBlindedId powState solution).1 = true) ∧
      (∀ nonce target : Nonce, ∃! k, k < 2 ^ 128 ∧ incrementNonce^[k] nonce = target) ∧
      (∀ sol, unpackEquixSolution (packEquixSolution sol) = sol.toList) ∧
      ∀ challenge solutionBytes effort,
        validateEquixChallenge equix challenge solutionBytes effort =
            effortFits (getBe32 (equix.blake2b (challenge ++ solutionBytes.toList)).toList) effort ∧
          ∀ r : UInt32, effortFits r effort = true ↔ r.toNat * effort.toNat ≤ 2 ^ 32 - 1 := by
  refine ⟨?_, existsUnique_iterate, unpackEquixSolution_pack, fun challenge bytes effort =>
    ⟨validateEquixChallenge_eq equix challenge bytes effort, fun r => effortFits_iff r effort⟩⟩
  intro ctx powInputs nonce retries solution hsolved
  obtain ⟨k, hk, hfound⟩ := hsPowSolve_found hsolved
  constructor
  · obtain ⟨sols, sol, hsolve, hsol, hpacked⟩ := hfound.solved
    exact ⟨k, _, sols, sol, hk, hsolve, hsol, hpacked, nonceIn_buildEquixChallenge _ _ _ _,
      hfound.nonce⟩
  · intro s i powState hreached hservice hseed hfirst
    refine hfound.verify hsolver (findSeed_seedHead hseed) ?_
    intro hmem
    obtain ⟨j, seed, hacc, hhead⟩ := hreached.invariant cacheAccepted_inductive _ hmem
    exact hfirst j seed hacc hhead

def exampleSolve : ℕ → Bytes → EquixResult :=
  fun _ _ => .ok [List.Vector.replicate 8 1]

def exampleInputs (effort : UInt32) : SolverInputs :=
  ⟨zeroFill 32 [1], zeroFill 32 [1, 2, 3, 4, 5], effort⟩

def exampleFound (effort : UInt32) : Solution :=
  ⟨zeroFill 16 [7], effort, zeroFill 4 [1, 2, 3, 4], packEquixSolution (List.Vector.replicate 8 1)⟩

/-- A service with the seed takes it. -/
theorem hsPowSolve_accepted_once :
    (hsPowVerify exampleEquix true [] (zeroFill 32 [1])
      ⟨zeroFill 32 [1, 2, 3, 4, 5], zeroFill 32 [6]⟩ (exampleFound 5)).1 = true := by
  let powState : ServiceState := ⟨zeroFill 32 [1, 2, 3, 4, 5], zeroFill 32 [6]⟩
  let started : Process ℕ := ⟨Function.update (fun _ => none) 0 (some powState), [], []⟩
  have hs : step exampleEquix ⟨fun _ => none, [], []⟩
      (.initPow 0 (zeroFill 32 [1, 2, 3, 4, 5]) (zeroFill 32 [6])) = some started := rfl
  have hstarted : Reached (system exampleEquix) (fun _ _ => True) started :=
    .step (.init rfl) trivial hs
  have hsolved : hsPowSolve exampleEquix exampleSolve true (exampleInputs 5) (zeroFill 16 [7]) 1 =
      some (some (exampleFound 5)) := rfl
  exact (((hsPowSolve_accepted (ι := ℕ) exampleEquix exampleSolve fun _ _ _ _ _ _ => rfl).1
    true (exampleInputs 5) (zeroFill 16 [7]) 1 (exampleFound 5) hsolved).2 started 0 powState
    hstarted rfl (Or.inl rfl) fun _ _ hmem => absurd hmem List.not_mem_nil)

/-- Two solutions are found with one nonce, and the service that took one of them refuses the other
when it sees it first. -/
theorem hsPowVerify_refuses_first : ∃ cache,
    exampleFound 5 ≠ exampleFound 6 ∧
      (∀ effort ∈ [(5 : UInt32), 6], hsPowSolve exampleEquix exampleSolve true (exampleInputs effort)
        (zeroFill 16 [7]) 1 = some (some (exampleFound effort))) ∧
      hsPowVerify exampleEquix true [] (zeroFill 32 [1])
        ⟨zeroFill 32 [1, 2, 3, 4, 5], zeroFill 32 [6]⟩ (exampleFound 5) = (true, cache) ∧
      (hsPowVerify exampleEquix true cache (zeroFill 32 [1])
        ⟨zeroFill 32 [1, 2, 3, 4, 5], zeroFill 32 [6]⟩ (exampleFound 6)).1 = false := by
  refine ⟨[⟨zeroFill 16 [7], zeroFill 4 [1, 2, 3, 4]⟩], ?_, ?_, by decide +kernel,
    by decide +kernel⟩
  · intro h
    have heffort := congrArg Solution.effort h
    exact absurd heffort (by decide)
  · intro effort hmem
    simp only [List.mem_cons, List.not_mem_nil, or_false] at hmem
    rcases hmem with rfl | rfl
    · rfl
    · rfl

end HsPow
