/-
Adding detached signatures to a consensus (`networkstatus_add_detached_signatures`).

A document is refused when its times or one of the digests it knows differ.  One that knows no digest
is noted as such and then goes on like one whose digests agree.
-/
import Mathlib
import LibEltor.Bytes
import LibEltor.IndexedList

open Bytes Smartlist

namespace DetachedSignatures

/-! ### The code -/

inductive DigestAlgorithm
  | sha1
  | sha256
  | sha512
  | sha3_256
  | sha3_512
  deriving DecidableEq

structure DocumentSignature where
  identityDigest : Bytes
  signingKeyDigest : Bytes
  alg : DigestAlgorithm
  signature : Bytes
  badSignature : Bool
  goodSignature : Bool
  deriving DecidableEq

structure NetworkstatusVoterInfo where
  identityDigest : Bytes
  sigs : List DocumentSignature

/-- `common_digests_t`: the digests that every document has, of 32 bytes each. -/
structure CommonDigests where
  sha1 : Bytes
  sha256 : Bytes
  deriving DecidableEq

structure Networkstatus where
  flavor : Bytes
  validAfter : ℤ
  freshUntil : ℤ
  validUntil : ℤ
  digests : CommonDigests
  voters : List NetworkstatusVoterInfo

structure NsDetachedSignatures where
  validAfter : ℤ
  freshUntil : ℤ
  validUntil : ℤ
  digests : Bytes → Option CommonDigests
  signatures : Bytes → Option (List DocumentSignature)

def networkstatusGetVoterById (voters : List NetworkstatusVoterInfo) (identity : Bytes) :
    Option NetworkstatusVoterInfo :=
  voters.find? fun voter => decide (voter.identityDigest = identity)

def networkstatusGetVoterSigByAlg (voter : NetworkstatusVoterInfo) (alg : DigestAlgorithm) :
    Option DocumentSignature :=
  voter.sigs.find? fun sig => decide (sig.alg = alg)

def fastMemIsZero (mem : Bytes) : Bool := mem.all fun b => decide (b = 0)

inductive DigestMatch
  | mismatched
  | agreed (n : ℕ)

/-- The loop over the digests of all documents: whether those that are known match, and how many. -/
def matchDigests : List (Bytes × Bytes) → ℕ → DigestMatch
  | [], nMatches => .agreed nMatches
  | (target, digest) :: rest, nMatches =>
    if !fastMemIsZero digest then
      if target = digest then matchDigests rest (nMatches + 1) else .mismatched
    else matchDigests rest nMatches

/-- What checking tells of a signature, if there is a certificate that fits: `check` stands for
`authority_cert_get_by_digests` and `networkstatus_check_document_signature`. -/
abbrev SignatureCheck := CommonDigests → DocumentSignature → Option Bool

variable (check : SignatureCheck)

def tryChecking (digests : CommonDigests) (sig : DocumentSignature) : DocumentSignature :=
  if !sig.goodSignature && !sig.badSignature then
    match check digests sig with
    | some true => { sig with goodSignature := true }
    | some false => { sig with badSignature := true }
    | none => sig
  else sig

def addSignature (digests : CommonDigests) (voter : NetworkstatusVoterInfo)
    (sig : DocumentSignature) : Option NetworkstatusVoterInfo :=
  let oldSig := networkstatusGetVoterSigByAlg voter sig.alg
  if oldSig.any (·.goodSignature) then none
  else
    let sig := tryChecking check digests sig
    if sig.goodSignature || oldSig.isNone || oldSig.any (·.badSignature) then
      let sigs :=
        match oldSig with
        | some old => smartlistRemove voter.sigs old
        | none => voter.sigs
      some { voter with sigs := sigs ++ [sig] }
    else none

def updateVoter (identity : Bytes) (f : NetworkstatusVoterInfo → NetworkstatusVoterInfo) :
    List NetworkstatusVoterInfo → List NetworkstatusVoterInfo
  | [] => []
  | voter :: voters =>
    if voter.identityDigest = identity then f voter :: voters
    else voter :: updateVoter identity f voters

/-- One turn of the loop: the voters, and the number of signatures added. -/
def addOne (digests : CommonDigests) (acc : List NetworkstatusVoterInfo × ℕ)
    (sig : DocumentSignature) : List NetworkstatusVoterInfo × ℕ :=
  match networkstatusGetVoterById acc.1 sig.identityDigest with
  | none => acc
  | some targetVoter =>
    match addSignature check digests targetVoter sig with
    | none => acc
    | some voter => (updateVoter sig.identityDigest (fun _ => voter) acc.1, acc.2 + 1)

structure Added where
  target : Networkstatus
  r : ℤ
  msgOut : Option String

def networkstatusAddDetachedSignatures (target : Networkstatus) (sigs : NsDetachedSignatures) :
    Added :=
  let fail (msg : String) : Added := { target := target, r := -1, msgOut := some msg }
  if target.validAfter ≠ sigs.validAfter then
    fail "Valid-After times do not match when adding detached signatures to consensus"
  else if target.freshUntil ≠ sigs.freshUntil then
    fail "Fresh-until times do not match when adding detached signatures to consensus"
  else if target.validUntil ≠ sigs.validUntil then
    fail "Valid-until times do not match when adding detached signatures to consensus"
  else
    match sigs.signatures target.flavor with
    | none => fail "No signatures for given consensus flavor"
    | some siglist =>
      match sigs.digests target.flavor with
      | none => fail "No digests for given consensus flavor"
      | some digests =>
        match matchDigests [(target.digests.sha1, digests.sha1),
          (target.digests.sha256, digests.sha256)] 0 with
        | .mismatched => fail "Mismatched digest."
        | .agreed nMatches =>
          -- what is noted here is not acted upon
          let msgOut :=
            if nMatches = 0 then some "No recognized digests for given consensus flavor" else none
          let added := siglist.foldl (addOne check target.digests) (target.voters, 0)
          { target := { target with voters := added.1 }, r := added.2, msgOut := msgOut }

/-! ### What is promised -/

/-- At least one digest that the document knows is that of the target, and none differs. -/
structure DigestsMatch (target : Networkstatus) (sigs : NsDetachedSignatures) : Prop where
  atLeastOne : ∃ digests, sigs.digests target.flavor = some digests ∧
    ((fastMemIsZero digests.sha1 = false ∧ digests.sha1 = target.digests.sha1) ∨
      (fastMemIsZero digests.sha256 = false ∧ digests.sha256 = target.digests.sha256))
  noneDiffers : ∀ digests, sigs.digests target.flavor = some digests →
    (fastMemIsZero digests.sha1 = false → digests.sha1 = target.digests.sha1) ∧
      (fastMemIsZero digests.sha256 = false → digests.sha256 = target.digests.sha256)

def OnePerAlgorithm (voters : List NetworkstatusVoterInfo) : Prop :=
  ∀ voter ∈ voters, (voter.sigs.map (·.alg)).Nodup

def SameSignatures : List NetworkstatusVoterInfo → List NetworkstatusVoterInfo → Prop :=
  List.Forall₂ fun voter voter' =>
    voter.identityDigest = voter'.identityDigest ∧ voter.sigs.Perm voter'.sigs

def HasSignature (voters : List NetworkstatusVoterInfo) (identity : Bytes)
    (sig : DocumentSignature) : Prop :=
  ∃ voter ∈ voters, voter.identityDigest = identity ∧ sig ∈ voter.sigs

def GoodPair (voters : List NetworkstatusVoterInfo) (identity : Bytes) (alg : DigestAlgorithm) :
    Prop :=
  ∃ sig, HasSignature voters identity sig ∧ sig.alg = alg ∧ sig.goodSignature = true

def addAll (target : Networkstatus) (docs : List NsDetachedSignatures) : Networkstatus :=
  docs.foldl (fun target sigs => (networkstatusAddDetachedSignatures check target sigs).target)
    target

structure Keeps (target : Networkstatus) (sigs : NsDetachedSignatures) : Prop where
  onlyMatching : 0 < (networkstatusAddDetachedSignatures check target sigs).r →
    DigestsMatch target sigs
  noneLost : ∀ identity sig, sig.goodSignature = true →
    HasSignature target.voters identity sig →
      HasSignature (networkstatusAddDetachedSignatures check target sigs).target.voters identity sig
  onePerAlgorithm :
    OnePerAlgorithm (networkstatusAddDetachedSignatures check target sigs).target.voters
  again : SameSignatures (addAll check target [sigs]).voters (addAll check target [sigs, sigs]).voters
  unchanged : (networkstatusAddDetachedSignatures check target sigs).r ≤ 0 →
    (networkstatusAddDetachedSignatures check target sigs).target = target
  anyOrder : ∀ docs docs' : List NsDetachedSignatures, docs.Perm docs' → ∀ identity alg,
    GoodPair (addAll check target docs).voters identity alg ↔
      GoodPair (addAll check target docs').voters identity alg

/-- The target has the voter, and no signature for the algorithm, or a bad one, or one that is not
known to be good where this one is. -/
def Addable (target : Networkstatus) (sig : DocumentSignature) : Prop :=
  ∃ voter, networkstatusGetVoterById target.voters sig.identityDigest = some voter ∧
    ∀ old, networkstatusGetVoterSigByAlg voter sig.alg = some old → old.goodSignature = false ∧
      (old.badSignature = true ∨ (tryChecking check target.digests sig).goodSignature = true)

/-- The document fits the target but knows no digest, and has a signature to add. -/
def AddsUnrecognized (target : Networkstatus) (sigs : NsDetachedSignatures) : Prop :=
  target.validAfter = sigs.validAfter ∧ target.freshUntil = sigs.freshUntil ∧
    target.validUntil = sigs.validUntil ∧
    (∃ digests, sigs.digests target.flavor = some digests ∧ fastMemIsZero digests.sha1 = true ∧
      fastMemIsZero digests.sha256 = true) ∧
    ∃ siglist, sigs.signatures target.flavor = some siglist ∧ ∃ sig ∈ siglist,
      Addable check target sig

/-! ### One voter -/

variable {check} {digests : CommonDigests} {voter voter' : NetworkstatusVoterInfo}
  {sig : DocumentSignature}

@[simp] theorem tryChecking_alg (digests : CommonDigests) (sig : DocumentSignature) :
    (tryChecking check digests sig).alg = sig.alg := by
  unfold tryChecking
  split_ifs
  · cases check digests sig with
    | none => rfl
    | some good => cases good <;> rfl
  · rfl

theorem sigOf_eq_some (h : (voter.sigs.map (·.alg)).Nodup) {alg : DigestAlgorithm} :
    networkstatusGetVoterSigByAlg voter alg = some sig ↔ sig ∈ voter.sigs ∧ sig.alg = alg := by
  unfold networkstatusGetVoterSigByAlg
  constructor
  · intro hfind
    exact ⟨List.mem_of_find?_eq_some hfind, by simpa using List.find?_some hfind⟩
  · rintro ⟨hmem, halg⟩
    cases hfound : voter.sigs.find? fun sig => decide (sig.alg = alg) with
    | none =>
      rw [List.find?_eq_none] at hfound
      exact absurd halg (by simpa using hfound sig hmem)
    | some found =>
      have hfoundAlg : found.alg = alg := by simpa using List.find?_some hfound
      rw [List.inj_on_of_nodup_map h (List.mem_of_find?_eq_some hfound) hmem
        (hfoundAlg.trans halg.symm)]

theorem addSignature_eq_none : addSignature check digests voter sig = none ↔
    ∃ old, networkstatusGetVoterSigByAlg voter sig.alg = some old ∧
      (old.goodSignature = true ∨ (old.badSignature = false ∧
        (tryChecking check digests sig).goodSignature = false)) := by
  unfold addSignature
  cases hold : networkstatusGetVoterSigByAlg voter sig.alg with
  | none => simp
  | some old =>
    cases hgood : old.goodSignature with
    | true => simp [hgood]
    | false =>
      simp only [Option.any_some, hgood, Option.isNone_some, Bool.or_false]
      cases hbad : old.badSignature <;>
        cases hsig : (tryChecking check digests sig).goodSignature <;> simp [hgood, hbad]

theorem addSignature_eq_some (h : addSignature check digests voter sig = some voter') :
    voter'.identityDigest = voter.identityDigest ∧
      (∀ s, s ∈ voter'.sigs ↔
        (s ∈ voter.sigs ∧ networkstatusGetVoterSigByAlg voter sig.alg ≠ some s) ∨
          s = tryChecking check digests sig) ∧
      (∀ old, networkstatusGetVoterSigByAlg voter sig.alg = some old → old.goodSignature = false ∧
        (old.badSignature = true ∨ (tryChecking check digests sig).goodSignature = true)) ∧
      ((voter.sigs.map (·.alg)).Nodup → (voter'.sigs.map (·.alg)).Nodup) := by
  have hnotNone : addSignature check digests voter sig ≠ none := by simp [h]
  rw [Ne, addSignature_eq_none] at hnotNone
  unfold addSignature at h
  dsimp only at h
  cases hold : networkstatusGetVoterSigByAlg voter sig.alg with
  | none =>
    simp only [hold, Option.any_none, Option.isNone_none, Bool.or_true, Bool.true_or] at h
    obtain rfl := Option.some.inj h
    refine ⟨rfl, fun s => by simp, fun old hnone => absurd hnone (by simp), fun hnodup => ?_⟩
    have hnew : sig.alg ∉ voter.sigs.map (·.alg) := by
      intro hmem
      obtain ⟨s, hs, halg⟩ := List.mem_map.mp hmem
      rw [(sigOf_eq_some hnodup).mpr ⟨hs, halg⟩] at hold
      cases hold
    rw [List.map_append, List.map_singleton, tryChecking_alg]
    exact List.nodup_append.mpr ⟨hnodup, List.nodup_singleton _, fun a ha b hb hab =>
      hnew (List.mem_singleton.mp hb ▸ hab ▸ ha)⟩
  | some old =>
    have hreplaced : old.goodSignature = false ∧
        (old.badSignature = true ∨ (tryChecking check digests sig).goodSignature = true) := by
      rw [hold] at hnotNone
      simp only [Option.some.injEq, exists_eq_left', not_or, not_and] at hnotNone
      refine ⟨by simpa using hnotNone.1, ?_⟩
      cases hbad : old.badSignature with
      | true => exact .inl rfl
      | false => exact .inr (by simpa using hnotNone.2 hbad)
    rw [hold] at h
    split_ifs at h
    obtain rfl := Option.some.inj h
    refine ⟨rfl, fun s => ?_, fun old' hsome => ?_, fun hnodup => ?_⟩
    · rw [List.mem_append, mem_smartlistRemove, List.mem_singleton]
      simp only [ne_eq, Option.some.injEq, eq_comm]
    · obtain rfl := Option.some.inj hsome
      exact hreplaced
    · have hsigs : voter.sigs.Nodup := List.Nodup.of_map _ hnodup
      have hperm : (smartlistRemove voter.sigs old).Perm (voter.sigs.erase old) := by
        refine (List.perm_ext_iff_of_nodup (nodup_smartlistRemove hsigs) (hsigs.erase old)).mpr ?_
        intro s
        rw [mem_smartlistRemove, hsigs.mem_erase_iff]
        exact and_comm
      obtain ⟨hmem, halg⟩ := (sigOf_eq_some hnodup).mp hold
      have hcons := (List.perm_cons_erase hmem).map (·.alg)
      rw [List.map_append, List.map_singleton, tryChecking_alg, ← halg]
      refine ((hperm.map (·.alg)).append_right _).nodup_iff.mpr ?_
      refine List.perm_append_comm.nodup_iff.mpr ?_
      rw [List.singleton_append]
      exact hcons.nodup_iff.mp hnodup

def merged (check : SignatureCheck) (digests : CommonDigests) (voter : NetworkstatusVoterInfo)
    (sig : DocumentSignature) : NetworkstatusVoterInfo :=
  (addSignature check digests voter sig).getD voter

@[simp] theorem merged_identityDigest (voter : NetworkstatusVoterInfo) (sig : DocumentSignature) :
    (merged check digests voter sig).identityDigest = voter.identityDigest := by
  unfold merged
  cases h : addSignature check digests voter sig with
  | none => rfl
  | some voter' => exact (addSignature_eq_some h).1

theorem nodup_merged (check : SignatureCheck) (digests : CommonDigests)
    (h : (voter.sigs.map (·.alg)).Nodup) (sig : DocumentSignature) :
    ((merged check digests voter sig).sigs.map (·.alg)).Nodup := by
  unfold merged
  cases hadd : addSignature check digests voter sig with
  | none => exact h
  | some voter' => exact (addSignature_eq_some hadd).2.2.2 h

/-- What is there for an algorithm after `sig` has come: a good one stays, a bad one goes, and one
that is not known to be good goes for a good one. -/
def replaceBy (old : Option DocumentSignature) (sig : DocumentSignature) : Option DocumentSignature :=
  if old.any (·.goodSignature) then old
  else if sig.goodSignature || old.isNone || old.any (·.badSignature) then some sig
  else old

theorem sigOf_merged (h : (voter.sigs.map (·.alg)).Nodup) (alg : DigestAlgorithm) :
    networkstatusGetVoterSigByAlg (merged check digests voter sig) alg =
      if alg = sig.alg then
        replaceBy (networkstatusGetVoterSigByAlg voter alg) (tryChecking check digests sig)
      else networkstatusGetVoterSigByAlg voter alg := by
  cases hadd : addSignature check digests voter sig with
  | none =>
    obtain ⟨old, hold, hkept⟩ := addSignature_eq_none.mp hadd
    rw [show merged check digests voter sig = voter by simp [merged, hadd]]
    split_ifs with halg
    · rw [halg, hold]
      rcases hkept with hgood | ⟨hbad, hsig⟩
      · simp [replaceBy, hgood]
      · simp [replaceBy, hbad, hsig]
    · rfl
  | some voter' =>
    obtain ⟨-, hmem, hold, hnodup⟩ := addSignature_eq_some hadd
    rw [show merged check digests voter sig = voter' by simp [merged, hadd]]
    refine Option.ext fun s => ?_
    rw [sigOf_eq_some (hnodup h), hmem]
    split_ifs with halg
    · subst halg
      have hreplaced : replaceBy (networkstatusGetVoterSigByAlg voter sig.alg)
          (tryChecking check digests sig) = some (tryChecking check digests sig) := by
        cases hsome : networkstatusGetVoterSigByAlg voter sig.alg with
        | none => simp [replaceBy]
        | some old =>
          obtain ⟨hgood, hbad | hsig⟩ := hold old hsome
          · simp [replaceBy, hgood, hbad]
          · simp [replaceBy, hgood, hsig]
      rw [hreplaced, Option.some.injEq]
      constructor
      · rintro ⟨⟨hs, hne⟩ | hs, halg⟩
        · exact absurd ((sigOf_eq_some h).mpr ⟨hs, halg⟩) hne
        · exact hs.symm
      · rintro rfl
        exact ⟨.inr rfl, tryChecking_alg digests sig⟩
    · rw [sigOf_eq_some h]
      constructor
      · rintro ⟨⟨hs, -⟩ | rfl, halg'⟩
        · exact ⟨hs, halg'⟩
        · exact absurd (halg'.symm.trans (tryChecking_alg digests sig)) halg
      · rintro ⟨hs, halg'⟩
        refine ⟨.inl ⟨hs, fun hsame => halg ?_⟩, halg'⟩
        exact halg'.symm.trans ((sigOf_eq_some h).mp hsame).2

theorem mem_merged_of_good {s : DocumentSignature} (hs : s ∈ voter.sigs)
    (hgood : s.goodSignature = true) : s ∈ (merged check digests voter sig).sigs := by
  unfold merged
  cases hadd : addSignature check digests voter sig with
  | none => exact hs
  | some voter' =>
    obtain ⟨-, hmem, hold, -⟩ := addSignature_eq_some hadd
    refine (hmem s).mpr (.inl ⟨hs, fun hsome => ?_⟩)
    rw [(hold s hsome).1] at hgood
    cases hgood

theorem good_merged (alg : DigestAlgorithm) :
    (∃ s ∈ (merged check digests voter sig).sigs, s.alg = alg ∧ s.goodSignature = true) ↔
      (∃ s ∈ voter.sigs, s.alg = alg ∧ s.goodSignature = true) ∨
        (sig.alg = alg ∧ (tryChecking check digests sig).goodSignature = true) := by
  constructor
  · rintro ⟨s, hs, halg, hgood⟩
    unfold merged at hs
    cases hadd : addSignature check digests voter sig with
    | none =>
      rw [hadd] at hs
      exact .inl ⟨s, hs, halg, hgood⟩
    | some voter' =>
      rw [hadd] at hs
      obtain ⟨hs, -⟩ | rfl := ((addSignature_eq_some hadd).2.1 s).mp hs
      · exact .inl ⟨s, hs, halg, hgood⟩
      · exact .inr ⟨(tryChecking_alg digests sig).symm.trans halg, hgood⟩
  · rintro (⟨s, hs, halg, hgood⟩ | ⟨halg, hgood⟩)
    · exact ⟨s, mem_merged_of_good hs hgood, halg, hgood⟩
    · cases hadd : addSignature check digests voter sig with
      | none =>
        -- only a good one is in the way of a good one
        obtain ⟨old, hold, hkept⟩ := addSignature_eq_none.mp hadd
        have holdGood : old.goodSignature = true := hkept.resolve_right fun h => by
          rw [h.2] at hgood
          cases hgood
        have holdAlg : old.alg = sig.alg := by simpa using List.find?_some hold
        exact ⟨old, mem_merged_of_good (List.mem_of_find?_eq_some hold) holdGood,
          holdAlg.trans halg, holdGood⟩
      | some voter' =>
        refine ⟨tryChecking check digests sig, ?_, (tryChecking_alg digests sig).trans halg, hgood⟩
        unfold merged
        rw [hadd]
        exact ((addSignature_eq_some hadd).2.1 _).mpr (.inr rfl)

/-! ### A second time -/

/-- None or bad, not known to be either, good. -/
def rank (sig : Option DocumentSignature) : ℕ :=
  if sig.any (·.goodSignature) then 2 else if sig.isNone || sig.any (·.badSignature) then 0 else 1

theorem replaceBy_eq (old : Option DocumentSignature) (sig : DocumentSignature) :
    replaceBy old sig =
      if rank old = 0 ∨ (rank old = 1 ∧ rank (some sig) = 2) then some sig else old := by
  unfold replaceBy rank
  cases old with
  | none => simp
  | some old =>
    cases hgood : old.goodSignature <;> cases hbad : old.badSignature <;>
      cases hsig : sig.goodSignature <;> simp [hgood, hbad, hsig]
    all_goals split_ifs <;> simp

theorem rank_le_two (sig : Option DocumentSignature) : rank sig ≤ 2 := by
  unfold rank
  split_ifs <;> omega

theorem rank_replaceBy (old : Option DocumentSignature) (sig : DocumentSignature) :
    rank (replaceBy old sig) = max (rank old) (rank (some sig)) := by
  have hold := rank_le_two old
  have hsig := rank_le_two (some sig)
  rw [replaceBy_eq]
  split_ifs <;> omega

theorem le_rank_foldl (l : List DocumentSignature) (old : Option DocumentSignature) :
    rank old ≤ rank (l.foldl replaceBy old) ∧
      ∀ sig ∈ l, rank (some sig) ≤ rank (l.foldl replaceBy old) := by
  induction l generalizing old with
  | nil => exact ⟨le_rfl, fun sig hsig => absurd hsig List.not_mem_nil⟩
  | cons sig l ih =>
    obtain ⟨hold, hl⟩ := ih (replaceBy old sig)
    rw [rank_replaceBy] at hold
    exact ⟨(le_max_left _ _).trans hold,
      List.forall_mem_cons.mpr ⟨(le_max_right _ _).trans hold, hl⟩⟩

theorem foldl_replaceBy_of_le {l : List DocumentSignature} {old : Option DocumentSignature}
    (hpos : 0 < rank old) (h : ∀ sig ∈ l, rank (some sig) ≤ rank old) :
    l.foldl replaceBy old = old := by
  induction l with
  | nil => rfl
  | cons sig l ih =>
    obtain ⟨hsig, hl⟩ := List.forall_mem_cons.mp h
    rw [List.foldl_cons, replaceBy_eq, if_neg (by omega)]
    exact ih hl

theorem foldl_replaceBy_of_zero {l : List DocumentSignature} {old : Option DocumentSignature}
    (hzero : rank old = 0) (h : ∀ sig ∈ l, rank (some sig) = 0) :
    l.foldl replaceBy old = l.getLast?.or old := by
  induction l generalizing old with
  | nil => rfl
  | cons sig l ih =>
    obtain ⟨hsig, hl⟩ := List.forall_mem_cons.mp h
    rw [List.foldl_cons, replaceBy_eq, if_pos (.inl hzero), ih hsig hl, List.getLast?_cons]
    cases l.getLast? <;> rfl

theorem foldl_replaceBy_again (l : List DocumentSignature) (old : Option DocumentSignature) :
    l.foldl replaceBy (l.foldl replaceBy old) = l.foldl replaceBy old := by
  obtain ⟨hold, hl⟩ := le_rank_foldl l old
  by_cases hpos : 0 < rank (l.foldl replaceBy old)
  · exact foldl_replaceBy_of_le hpos hl
  · have hzero : rank (l.foldl replaceBy old) = 0 := by omega
    have hbad : ∀ sig ∈ l, rank (some sig) = 0 := fun sig hsig => by
      have hle := hl sig hsig
      omega
    rw [foldl_replaceBy_of_zero hzero hbad, foldl_replaceBy_of_zero (by omega) hbad]
    cases l.getLast? <;> rfl

def mergeAll (check : SignatureCheck) (digests : CommonDigests) (l : List DocumentSignature)
    (voter : NetworkstatusVoterInfo) : NetworkstatusVoterInfo :=
  l.foldl (merged check digests) voter

theorem nodup_mergeAll (check : SignatureCheck) (digests : CommonDigests)
    (h : (voter.sigs.map (·.alg)).Nodup) (l : List DocumentSignature) :
    ((mergeAll check digests l voter).sigs.map (·.alg)).Nodup := by
  induction l generalizing voter with
  | nil => exact h
  | cons sig l ih => exact ih (nodup_merged check digests h sig)

theorem sigOf_mergeAll (h : (voter.sigs.map (·.alg)).Nodup) (l : List DocumentSignature)
    (alg : DigestAlgorithm) :
    networkstatusGetVoterSigByAlg (mergeAll check digests l voter) alg =
      ((l.filter fun sig => decide (sig.alg = alg)).map (tryChecking check digests)).foldl replaceBy
        (networkstatusGetVoterSigByAlg voter alg) := by
  induction l generalizing voter with
  | nil => rfl
  | cons sig l ih =>
    have hrest := ih (nodup_merged check digests h sig)
    rw [sigOf_merged h] at hrest
    unfold mergeAll at hrest ⊢
    rw [List.foldl_cons, hrest]
    by_cases halg : sig.alg = alg
    · rw [if_pos halg.symm, List.filter_cons_of_pos (by simpa using halg), List.map_cons,
        List.foldl_cons]
    · rw [if_neg (Ne.symm halg), List.filter_cons_of_neg (by simpa using halg)]

theorem mergeAll_again (h : (voter.sigs.map (·.alg)).Nodup) (l : List DocumentSignature) :
    (mergeAll check digests l voter).sigs.Perm
      (mergeAll check digests l (mergeAll check digests l voter)).sigs := by
  have honce := nodup_mergeAll check digests h l
  have htwice := nodup_mergeAll check digests honce l
  refine (List.perm_ext_iff_of_nodup (List.Nodup.of_map _ honce) (List.Nodup.of_map _ htwice)).mpr
    fun s => ?_
  have hsame : networkstatusGetVoterSigByAlg
      (mergeAll check digests l (mergeAll check digests l voter)) s.alg =
        networkstatusGetVoterSigByAlg (mergeAll check digests l voter) s.alg := by
    rw [sigOf_mergeAll honce, sigOf_mergeAll h, foldl_replaceBy_again]
  constructor
  · intro hs
    have hfound := (sigOf_eq_some honce).mpr ⟨hs, rfl⟩
    rw [← hsame] at hfound
    exact ((sigOf_eq_some htwice).mp hfound).1
  · intro hs
    have hfound := (sigOf_eq_some htwice).mpr ⟨hs, rfl⟩
    rw [hsame] at hfound
    exact ((sigOf_eq_some honce).mp hfound).1

theorem mergeAll_identityDigest (l : List DocumentSignature) (voter : NetworkstatusVoterInfo) :
    (mergeAll check digests l voter).identityDigest = voter.identityDigest := by
  induction l generalizing voter with
  | nil => rfl
  | cons sig l ih => exact (ih _).trans (merged_identityDigest voter sig)

/-! ### The list of voters -/

/-- Change the first voter of each identity; those of `seen` have been passed. -/
def onFirsts (f : NetworkstatusVoterInfo → NetworkstatusVoterInfo) :
    List Bytes → List NetworkstatusVoterInfo → List NetworkstatusVoterInfo
  | _, [] => []
  | seen, voter :: voters =>
    (if seen.contains voter.identityDigest then voter else f voter) ::
      onFirsts f (voter.identityDigest :: seen) voters

theorem onFirsts_comp {f g : NetworkstatusVoterInfo → NetworkstatusVoterInfo}
    (hg : ∀ voter, (g voter).identityDigest = voter.identityDigest) (seen : List Bytes)
    (voters : List NetworkstatusVoterInfo) :
    onFirsts f seen (onFirsts g seen voters) = onFirsts (fun voter => f (g voter)) seen voters := by
  induction voters generalizing seen with
  | nil => rfl
  | cons voter voters ih =>
    have hid : (if seen.contains voter.identityDigest then voter else g voter).identityDigest =
        voter.identityDigest := by
      split_ifs
      · rfl
      · exact hg voter
    simp only [onFirsts, hid, ih]
    congr 1
    split_ifs <;> rfl

theorem onFirsts_id (seen : List Bytes) (voters : List NetworkstatusVoterInfo) :
    onFirsts (fun voter => voter) seen voters = voters := by
  induction voters generalizing seen with
  | nil => rfl
  | cons voter voters ih => rw [onFirsts, ih, ite_self]

theorem sameSignatures_onFirsts {f g : NetworkstatusVoterInfo → NetworkstatusVoterInfo}
    {voters : List NetworkstatusVoterInfo} (hone : OnePerAlgorithm voters)
    (h : ∀ voter, (voter.sigs.map (·.alg)).Nodup →
      (f voter).identityDigest = (g voter).identityDigest ∧ (f voter).sigs.Perm (g voter).sigs)
    (seen : List Bytes) : SameSignatures (onFirsts f seen voters) (onFirsts g seen voters) := by
  induction voters generalizing seen with
  | nil => exact .nil
  | cons voter voters ih =>
    obtain ⟨hvoter, hvoters⟩ := List.forall_mem_cons.mp hone
    refine .cons ?_ (ih hvoters _)
    split_ifs
    · exact ⟨rfl, List.Perm.refl _⟩
    · exact h voter hvoter

theorem onFirsts_of_mem {identity : Bytes} {seen : List Bytes} (h : identity ∈ seen)
    (f : NetworkstatusVoterInfo → NetworkstatusVoterInfo) (voters : List NetworkstatusVoterInfo) :
    onFirsts (fun voter => if voter.identityDigest = identity then f voter else voter) seen voters =
      voters := by
  induction voters generalizing seen with
  | nil => rfl
  | cons voter voters ih =>
    rw [onFirsts, ih (List.mem_cons_of_mem _ h)]
    congr 1
    split_ifs with hseen hid
    · rfl
    · exact absurd (List.contains_iff_mem.mpr (hid ▸ h)) hseen
    · rfl

theorem updateVoter_eq {identity : Bytes} {seen : List Bytes} (h : identity ∉ seen)
    (f : NetworkstatusVoterInfo → NetworkstatusVoterInfo) (voters : List NetworkstatusVoterInfo) :
    updateVoter identity f voters =
      onFirsts (fun voter => if voter.identityDigest = identity then f voter else voter) seen
        voters := by
  induction voters generalizing seen with
  | nil => rfl
  | cons voter voters ih =>
    unfold updateVoter onFirsts
    by_cases hid : voter.identityDigest = identity
    · have hseen : ¬ seen.contains voter.identityDigest = true := fun hmem =>
        h (hid ▸ List.contains_iff_mem.mp hmem)
      rw [if_pos hid, if_pos hid, if_neg hseen, hid, onFirsts_of_mem List.mem_cons_self]
    · have hnot : identity ∉ voter.identityDigest :: seen := fun hmem =>
        (List.mem_cons.mp hmem).elim (fun heq => hid heq.symm) h
      rw [if_neg hid, if_neg hid, ite_self, ih hnot]

theorem updateVoter_const {identity : Bytes} {voters : List NetworkstatusVoterInfo}
    (h : networkstatusGetVoterById voters identity = some voter)
    (f : NetworkstatusVoterInfo → NetworkstatusVoterInfo) :
    updateVoter identity (fun _ => f voter) voters = updateVoter identity f voters := by
  induction voters with
  | nil => rfl
  | cons first voters ih =>
    unfold updateVoter
    unfold networkstatusGetVoterById at h
    by_cases hid : first.identityDigest = identity
    · rw [List.find?_cons_of_pos (by simpa using hid)] at h
      rw [if_pos hid, if_pos hid, Option.some.inj h]
    · rw [List.find?_cons_of_neg (by simpa using hid)] at h
      rw [if_neg hid, if_neg hid, ih h]

theorem updateVoter_unchanged {identity : Bytes} {voters : List NetworkstatusVoterInfo}
    {f : NetworkstatusVoterInfo → NetworkstatusVoterInfo}
    (h : ∀ voter, networkstatusGetVoterById voters identity = some voter → f voter = voter) :
    updateVoter identity f voters = voters := by
  induction voters with
  | nil => rfl
  | cons first voters ih =>
    unfold updateVoter
    unfold networkstatusGetVoterById at h
    by_cases hid : first.identityDigest = identity
    · rw [if_pos hid, h first (List.find?_cons_of_pos (by simpa using hid))]
    · rw [if_neg hid]
      rw [List.find?_cons_of_neg (by simpa using hid)] at h
      rw [ih h]

theorem addOne_voters (voters : List NetworkstatusVoterInfo) (r : ℕ) (sig : DocumentSignature) :
    (addOne check digests (voters, r) sig).1 =
      updateVoter sig.identityDigest (fun voter => merged check digests voter sig) voters := by
  unfold addOne
  cases hvoter : networkstatusGetVoterById voters sig.identityDigest with
  | none => exact (updateVoter_unchanged fun voter h => by simp [hvoter] at h).symm
  | some voter =>
    cases hadd : addSignature check digests voter sig with
    | none =>
      simp only [hadd]
      refine (updateVoter_unchanged fun voter' h => ?_).symm
      rw [hvoter] at h
      obtain rfl := Option.some.inj h
      simp [merged, hadd]
    | some voter' =>
      rw [← updateVoter_const hvoter]
      simp [merged, hadd]

theorem foldl_addOne_voters (siglist : List DocumentSignature)
    (acc : List NetworkstatusVoterInfo × ℕ) :
    (siglist.foldl (addOne check digests) acc).1 =
      onFirsts (fun voter => mergeAll check digests
        (siglist.filter fun sig => decide (voter.identityDigest = sig.identityDigest)) voter) []
        acc.1 := by
  induction siglist generalizing acc with
  | nil => exact (onFirsts_id [] acc.1).symm
  | cons sig siglist ih =>
    rw [List.foldl_cons, ih, addOne_voters, updateVoter_eq List.not_mem_nil, onFirsts_comp]
    · congr 1
      funext voter
      by_cases hid : voter.identityDigest = sig.identityDigest
      · rw [if_pos hid, merged_identityDigest, List.filter_cons_of_pos (by simpa using hid)]
        rfl
      · rw [if_neg hid, List.filter_cons_of_neg (by simpa using hid)]
    · intro voter
      split_ifs
      · exact merged_identityDigest voter sig
      · rfl

theorem map_identityDigest_updateVoter {f : NetworkstatusVoterInfo → NetworkstatusVoterInfo}
    (hf : ∀ voter, (f voter).identityDigest = voter.identityDigest) (identity : Bytes)
    (voters : List NetworkstatusVoterInfo) :
    (updateVoter identity f voters).map (·.identityDigest) = voters.map (·.identityDigest) := by
  induction voters with
  | nil => rfl
  | cons voter voters ih =>
    unfold updateVoter
    split_ifs
    · rw [List.map_cons, List.map_cons, hf]
    · rw [List.map_cons, List.map_cons, ih]

theorem forall_mem_updateVoter {f : NetworkstatusVoterInfo → NetworkstatusVoterInfo}
    {P : NetworkstatusVoterInfo → Prop} (hf : ∀ voter, P voter → P (f voter)) (identity : Bytes)
    {voters : List NetworkstatusVoterInfo} (h : ∀ voter ∈ voters, P voter) :
    ∀ voter ∈ updateVoter identity f voters, P voter := by
  induction voters with
  | nil => exact h
  | cons voter voters ih =>
    obtain ⟨hvoter, hvoters⟩ := List.forall_mem_cons.mp h
    unfold updateVoter
    split_ifs
    · exact List.forall_mem_cons.mpr ⟨hf voter hvoter, hvoters⟩
    · exact List.forall_mem_cons.mpr ⟨hvoter, ih hvoters⟩

theorem hasSignature_cons {voters : List NetworkstatusVoterInfo} {identity : Bytes} :
    HasSignature (voter :: voters) identity sig ↔
      (voter.identityDigest = identity ∧ sig ∈ voter.sigs) ∨ HasSignature voters identity sig := by
  simp [HasSignature]

theorem hasSignature_updateVoter {f : NetworkstatusVoterInfo → NetworkstatusVoterInfo}
    (hf : ∀ voter, (f voter).identityDigest = voter.identityDigest ∧
      (sig ∈ voter.sigs → sig ∈ (f voter).sigs)) (identity : Bytes)
    {voters : List NetworkstatusVoterInfo} {identity' : Bytes}
    (h : HasSignature voters identity' sig) :
    HasSignature (updateVoter identity f voters) identity' sig := by
  induction voters with
  | nil => exact h
  | cons voter voters ih =>
    unfold updateVoter
    split_ifs <;> rw [hasSignature_cons] at h ⊢
    · exact h.imp_left fun hvoter => ⟨(hf voter).1.trans hvoter.1, (hf voter).2 hvoter.2⟩
    · exact h.imp_right ih

theorem goodPair_cons {voters : List NetworkstatusVoterInfo} {identity : Bytes}
    {alg : DigestAlgorithm} : GoodPair (voter :: voters) identity alg ↔
      (voter.identityDigest = identity ∧ ∃ s ∈ voter.sigs, s.alg = alg ∧ s.goodSignature = true) ∨
        GoodPair voters identity alg := by
  constructor
  · rintro ⟨s, hs, halg, hgood⟩
    obtain ⟨hid, hs⟩ | hs := hasSignature_cons.mp hs
    · exact .inl ⟨hid, s, hs, halg, hgood⟩
    · exact .inr ⟨s, hs, halg, hgood⟩
  · rintro (⟨hid, s, hs, halg, hgood⟩ | ⟨s, hs, halg, hgood⟩)
    · exact ⟨s, hasSignature_cons.mpr (.inl ⟨hid, hs⟩), halg, hgood⟩
    · exact ⟨s, hasSignature_cons.mpr (.inr hs), halg, hgood⟩

def AddsGood (check : SignatureCheck) (digests : CommonDigests) (known : List Bytes)
    (identity : Bytes) (alg : DigestAlgorithm) (sig : DocumentSignature) : Prop :=
  sig.identityDigest = identity ∧ identity ∈ known ∧ sig.alg = alg ∧
    (tryChecking check digests sig).goodSignature = true

theorem goodPair_updateVoter (voters : List NetworkstatusVoterInfo) (identity : Bytes)
    (alg : DigestAlgorithm) :
    GoodPair (updateVoter sig.identityDigest (fun voter => merged check digests voter sig) voters)
        identity alg ↔
      GoodPair voters identity alg ∨
        AddsGood check digests (voters.map (·.identityDigest)) identity alg sig := by
  induction voters with
  | nil => simp [updateVoter, AddsGood]
  | cons voter voters ih =>
    unfold updateVoter
    by_cases hid : voter.identityDigest = sig.identityDigest
    · rw [if_pos hid, goodPair_cons, goodPair_cons, good_merged, merged_identityDigest]
      unfold AddsGood
      rw [List.map_cons, List.mem_cons, hid]
      constructor
      · rintro (⟨rfl, hgood | ⟨halg, hgood⟩⟩ | hrest)
        · exact .inl (.inl ⟨rfl, hgood⟩)
        · exact .inr ⟨rfl, .inl rfl, halg, hgood⟩
        · exact .inl (.inr hrest)
      · rintro ((⟨rfl, hgood⟩ | hrest) | ⟨rfl, -, halg, hgood⟩)
        · exact .inl ⟨rfl, .inl hgood⟩
        · exact .inr hrest
        · exact .inl ⟨rfl, .inr ⟨halg, hgood⟩⟩
    · rw [if_neg hid, goodPair_cons, goodPair_cons, ih, or_assoc]
      have hadds : AddsGood check digests (voters.map (·.identityDigest)) identity alg sig ↔
          AddsGood check digests ((voter :: voters).map (·.identityDigest)) identity alg sig := by
        unfold AddsGood
        rw [List.map_cons, List.mem_cons]
        constructor
        · rintro ⟨hidentity, hknown, hrest⟩
          exact ⟨hidentity, .inr hknown, hrest⟩
        · rintro ⟨hidentity, hknown, hrest⟩
          exact ⟨hidentity, hknown.resolve_left fun heq => hid (heq.symm.trans hidentity.symm),
            hrest⟩
      rw [hadds]

/-! ### The loop -/

variable {voters : List NetworkstatusVoterInfo}

theorem addOne_invariants (check : SignatureCheck) (digests : CommonDigests)
    (voters : List NetworkstatusVoterInfo) (r : ℕ) (sig : DocumentSignature) :
    (addOne check digests (voters, r) sig).1.map (·.identityDigest) =
        voters.map (·.identityDigest) ∧
      (OnePerAlgorithm voters → OnePerAlgorithm (addOne check digests (voters, r) sig).1) ∧
      (∀ identity s, s.goodSignature = true → HasSignature voters identity s →
        HasSignature (addOne check digests (voters, r) sig).1 identity s) ∧
      ∀ identity alg, GoodPair (addOne check digests (voters, r) sig).1 identity alg ↔
        GoodPair voters identity alg ∨
          AddsGood check digests (voters.map (·.identityDigest)) identity alg sig := by
  rw [addOne_voters]
  refine ⟨map_identityDigest_updateVoter (fun voter => merged_identityDigest voter sig) _ _,
    fun h => forall_mem_updateVoter (fun voter hvoter => nodup_merged check digests hvoter sig) _ h,
    fun identity s hgood h => ?_, goodPair_updateVoter voters⟩
  exact hasSignature_updateVoter (fun voter => ⟨merged_identityDigest voter sig,
    fun hs => mem_merged_of_good hs hgood⟩) _ h

theorem foldl_addOne_invariants (check : SignatureCheck) (digests : CommonDigests)
    (siglist : List DocumentSignature)
    (acc : List NetworkstatusVoterInfo × ℕ) :
    (siglist.foldl (addOne check digests) acc).1.map (·.identityDigest) =
        acc.1.map (·.identityDigest) ∧
      (OnePerAlgorithm acc.1 → OnePerAlgorithm (siglist.foldl (addOne check digests) acc).1) ∧
      (∀ identity s, s.goodSignature = true → HasSignature acc.1 identity s →
        HasSignature (siglist.foldl (addOne check digests) acc).1 identity s) ∧
      ∀ identity alg, GoodPair (siglist.foldl (addOne check digests) acc).1 identity alg ↔
        GoodPair acc.1 identity alg ∨ ∃ sig ∈ siglist,
          AddsGood check digests (acc.1.map (·.identityDigest)) identity alg sig := by
  induction siglist generalizing acc with
  | nil => exact ⟨rfl, fun h => h, fun _ _ _ h => h, fun identity alg => by simp⟩
  | cons sig siglist ih =>
    obtain ⟨hids, hone, hlost, hgood⟩ :=
      addOne_invariants check digests acc.1 acc.2 sig
    obtain ⟨hids', hone', hlost', hgood'⟩ := ih (addOne check digests acc sig)
    rw [List.foldl_cons]
    refine ⟨hids'.trans hids, fun h => hone' (hone h),
      fun identity s hs h => hlost' identity s hs (hlost identity s hs h), fun identity alg => ?_⟩
    rw [hgood', hgood, hids, or_assoc]
    simp [List.mem_cons]

variable {target : Networkstatus} {sigs : NsDetachedSignatures}

theorem addable_iff : Addable check target sig ↔
    ∃ voter voter', networkstatusGetVoterById target.voters sig.identityDigest = some voter ∧
      addSignature check target.digests voter sig = some voter' := by
  constructor
  · rintro ⟨voter, hvoter, hold⟩
    cases hadd : addSignature check target.digests voter sig with
    | some voter' => exact ⟨voter, voter', hvoter, hadd⟩
    | none =>
      obtain ⟨old, hsome, hkept⟩ := addSignature_eq_none.mp hadd
      obtain ⟨hgood, hbad⟩ := hold old hsome
      simp_all
  · rintro ⟨voter, voter', hvoter, hadd⟩
    exact ⟨voter, hvoter, (addSignature_eq_some hadd).2.2.1⟩

theorem addOne_of_addable (h : Addable check target sig) (r : ℕ) :
    (addOne check target.digests (target.voters, r) sig).2 = r + 1 := by
  obtain ⟨voter, voter', hvoter, hadd⟩ := addable_iff.mp h
  simp [addOne, hvoter, hadd]

theorem addOne_of_not_addable (h : ¬ Addable check target sig) (r : ℕ) :
    addOne check target.digests (target.voters, r) sig = (target.voters, r) := by
  unfold addOne
  cases hvoter : networkstatusGetVoterById target.voters sig.identityDigest with
  | none => rfl
  | some voter =>
    cases hadd : addSignature check target.digests voter sig with
    | none => simp [hadd]
    | some voter' => exact absurd (addable_iff.mpr ⟨voter, voter', hvoter, hadd⟩) h

theorem le_addOne (acc : List NetworkstatusVoterInfo × ℕ) (sig : DocumentSignature) :
    acc.2 ≤ (addOne check digests acc sig).2 := by
  unfold addOne
  split
  · exact le_rfl
  · split
    · exact le_rfl
    · exact Nat.le_succ _

theorem le_foldl_addOne (check : SignatureCheck) (digests : CommonDigests)
    (siglist : List DocumentSignature)
    (acc : List NetworkstatusVoterInfo × ℕ) :
    acc.2 ≤ (siglist.foldl (addOne check digests) acc).2 := by
  induction siglist generalizing acc with
  | nil => exact le_rfl
  | cons sig siglist ih => exact (le_addOne acc sig).trans (ih _)

theorem foldl_addOne_count (siglist : List DocumentSignature) :
    ((∃ sig ∈ siglist, Addable check target sig) →
        0 < (siglist.foldl (addOne check target.digests) (target.voters, 0)).2) ∧
      ((¬ ∃ sig ∈ siglist, Addable check target sig) →
        siglist.foldl (addOne check target.digests) (target.voters, 0) = (target.voters, 0)) := by
  induction siglist with
  | nil => exact ⟨fun ⟨sig, hsig, _⟩ => absurd hsig List.not_mem_nil, fun _ => rfl⟩
  | cons sig siglist ih =>
    rw [List.foldl_cons]
    by_cases hsig : Addable check target sig
    · refine ⟨fun _ => ?_, fun hnone => absurd ⟨sig, List.mem_cons_self, hsig⟩ hnone⟩
      have hone := addOne_of_addable hsig 0
      have hrest := le_foldl_addOne check target.digests siglist
        (addOne check target.digests (target.voters, 0) sig)
      omega
    · -- nothing has changed, so what can be added is still to come
      rw [addOne_of_not_addable hsig 0]
      refine ⟨fun ⟨s, hs, hadd⟩ => ih.1 ?_, fun hnone => ih.2 fun ⟨s, hs, hadd⟩ =>
        hnone ⟨s, List.mem_cons_of_mem sig hs, hadd⟩⟩
      obtain rfl | hs := List.mem_cons.mp hs
      · exact absurd hadd hsig
      · exact ⟨s, hs, hadd⟩

/-! ### The document -/

/-- The document gets to the loop, over `siglist`. -/
def Accepts (target : Networkstatus) (sigs : NsDetachedSignatures)
    (siglist : List DocumentSignature) : Prop :=
  target.validAfter = sigs.validAfter ∧ target.freshUntil = sigs.freshUntil ∧
    target.validUntil = sigs.validUntil ∧ sigs.signatures target.flavor = some siglist ∧
    ∃ digests, sigs.digests target.flavor = some digests ∧
      (fastMemIsZero digests.sha1 = false → digests.sha1 = target.digests.sha1) ∧
      (fastMemIsZero digests.sha256 = false → digests.sha256 = target.digests.sha256)

theorem matchDigests_two (target digests : CommonDigests) :
    match matchDigests [(target.sha1, digests.sha1), (target.sha256, digests.sha256)] 0 with
    | .mismatched => ¬ ((fastMemIsZero digests.sha1 = false → digests.sha1 = target.sha1) ∧
        (fastMemIsZero digests.sha256 = false → digests.sha256 = target.sha256))
    | .agreed _ => (fastMemIsZero digests.sha1 = false → digests.sha1 = target.sha1) ∧
        (fastMemIsZero digests.sha256 = false → digests.sha256 = target.sha256) := by
  have hsymm : ∀ a b : Bytes, a = b ↔ b = a := fun a b => eq_comm
  cases hsha1 : fastMemIsZero digests.sha1 <;> cases hsha256 : fastMemIsZero digests.sha256 <;>
    simp only [matchDigests, hsha1, hsha256, Bool.not_false, Bool.not_true, if_true,
      Bool.false_eq_true, if_false]
  · by_cases h1 : target.sha1 = digests.sha1
    · by_cases h2 : target.sha256 = digests.sha256
      · simp [h1, h2]
      · simp [h1, h2, hsymm digests.sha256]
    · simp [h1, hsymm digests.sha1]
  · by_cases h1 : target.sha1 = digests.sha1
    · simp [h1]
    · simp [h1, hsymm digests.sha1]
  · by_cases h2 : target.sha256 = digests.sha256
    · simp [h2]
    · simp [h2, hsymm digests.sha256]
  · simp

theorem addDetachedSignatures_cases (check : SignatureCheck) (target : Networkstatus)
    (sigs : NsDetachedSignatures) :
    ((∀ siglist, ¬ Accepts target sigs siglist) ∧
      (networkstatusAddDetachedSignatures check target sigs).target = target ∧
      (networkstatusAddDetachedSignatures check target sigs).r = -1) ∨
    ∃ siglist, Accepts target sigs siglist ∧
      (networkstatusAddDetachedSignatures check target sigs).target =
        { target with
          voters := (siglist.foldl (addOne check target.digests) (target.voters, 0)).1 } ∧
      (networkstatusAddDetachedSignatures check target sigs).r =
        (siglist.foldl (addOne check target.digests) (target.voters, 0)).2 := by
  unfold networkstatusAddDetachedSignatures
  dsimp only
  by_cases hafter : target.validAfter = sigs.validAfter
  swap
  · rw [if_pos hafter]
    exact .inl ⟨fun siglist h => hafter h.1, rfl, rfl⟩
  rw [if_neg (not_not.mpr hafter)]
  by_cases hfresh : target.freshUntil = sigs.freshUntil
  swap
  · rw [if_pos hfresh]
    exact .inl ⟨fun siglist h => hfresh h.2.1, rfl, rfl⟩
  rw [if_neg (not_not.mpr hfresh)]
  by_cases huntil : target.validUntil = sigs.validUntil
  swap
  · rw [if_pos huntil]
    exact .inl ⟨fun siglist h => huntil h.2.2.1, rfl, rfl⟩
  rw [if_neg (not_not.mpr huntil)]
  cases hlist : sigs.signatures target.flavor with
  | none => exact .inl ⟨fun siglist h => by simp [Accepts, hlist] at h, rfl, rfl⟩
  | some siglist =>
    cases hdigests : sigs.digests target.flavor with
    | none => exact .inl ⟨fun siglist h => by simp [Accepts, hdigests] at h, rfl, rfl⟩
    | some digests =>
      have hmatch := matchDigests_two target.digests digests
      dsimp only
      cases hloop : matchDigests [(target.digests.sha1, digests.sha1),
          (target.digests.sha256, digests.sha256)] 0 with
      | mismatched =>
        rw [hloop] at hmatch
        refine .inl ⟨fun siglist' h => hmatch ?_, rfl, rfl⟩
        obtain ⟨digests', hdigests', hknown⟩ := h.2.2.2.2
        rw [hdigests] at hdigests'
        exact Option.some.inj hdigests' ▸ hknown
      | agreed n =>
        rw [hloop] at hmatch
        exact .inr ⟨siglist, ⟨hafter, hfresh, huntil, hlist, digests, hdigests, hmatch⟩, rfl, rfl⟩

theorem goodPair_addAll (docs : List NsDetachedSignatures) (target : Networkstatus)
    (identity : Bytes) (alg : DigestAlgorithm) :
    GoodPair (addAll check target docs).voters identity alg ↔
      GoodPair target.voters identity alg ∨
        ∃ sigs ∈ docs, ∃ siglist, Accepts target sigs siglist ∧ ∃ sig ∈ siglist,
          AddsGood check target.digests (target.voters.map (·.identityDigest)) identity alg sig := by
  induction docs generalizing target with
  | nil => simp [addAll]
  | cons sigs docs ih =>
    have hrest := ih (networkstatusAddDetachedSignatures check target sigs).target
    change GoodPair (addAll check target (sigs :: docs)).voters identity alg ↔ _ at hrest
    rw [hrest]
    simp only [List.mem_cons, exists_eq_or_imp]
    obtain ⟨hrefused, htarget, -⟩ | ⟨siglist, haccepts, htarget, -⟩ :=
      addDetachedSignatures_cases check target sigs
    · rw [htarget]
      have hnone : ¬ ∃ siglist, Accepts target sigs siglist ∧ ∃ sig ∈ siglist,
          AddsGood check target.digests (target.voters.map (·.identityDigest)) identity alg sig :=
        fun ⟨siglist, h, _⟩ => hrefused siglist h
      simp only [hnone, false_or]
    · obtain ⟨hids, -, -, hgood⟩ := foldl_addOne_invariants check
        target.digests siglist (target.voters, 0)
      rw [htarget]
      dsimp only at hids hgood ⊢
      rw [hgood, hids, or_assoc]
      -- what is accepted does not depend on the signatures that are there
      have hsame : ∀ sigs' siglist',
          Accepts { target with
            voters := (siglist.foldl (addOne check target.digests) (target.voters, 0)).1 } sigs'
              siglist' ↔ Accepts target sigs' siglist' := fun _ _ => Iff.rfl
      have honly : (∃ sig ∈ siglist, AddsGood check target.digests
            (target.voters.map (·.identityDigest)) identity alg sig) ↔
          ∃ siglist', Accepts target sigs siglist' ∧ ∃ sig ∈ siglist', AddsGood check target.digests
            (target.voters.map (·.identityDigest)) identity alg sig := by
        constructor
        · exact fun h => ⟨siglist, haccepts, h⟩
        · rintro ⟨siglist', haccepts', h⟩
          obtain rfl : siglist = siglist' :=
            Option.some.inj (haccepts.2.2.2.1.symm.trans haccepts'.2.2.2.1)
          exact h
      simp only [hsame, honly]

theorem onlyMatching_iff (check : SignatureCheck) (target : Networkstatus)
    (sigs : NsDetachedSignatures) :
    (0 < (networkstatusAddDetachedSignatures check target sigs).r → DigestsMatch target sigs) ↔
      ¬ AddsUnrecognized check target sigs := by
  constructor
  · rintro hmatch ⟨hafter, hfresh, huntil, ⟨digests, hdigests, hsha1, hsha256⟩, siglist, hlist,
      hadds⟩
    have haccepts : Accepts target sigs siglist :=
      ⟨hafter, hfresh, huntil, hlist, digests, hdigests, by simp [hsha1], by simp [hsha256]⟩
    obtain ⟨hrefused, -⟩ | ⟨siglist', haccepts', -, hr⟩ :=
      addDetachedSignatures_cases check target sigs
    · exact hrefused siglist haccepts
    · obtain rfl : siglist = siglist' := Option.some.inj (hlist.symm.trans haccepts'.2.2.2.1)
      have hpos := (foldl_addOne_count siglist).1 hadds
      obtain ⟨digests', hdigests', hknown⟩ := (hmatch (by rw [hr]; exact_mod_cast hpos)).atLeastOne
      obtain rfl : digests = digests' := Option.some.inj (hdigests.symm.trans hdigests')
      simp [hsha1, hsha256] at hknown
  · intro hnot hadded
    obtain ⟨-, -, hr⟩ | ⟨siglist, haccepts, -, hr⟩ := addDetachedSignatures_cases check target sigs
    · rw [hr] at hadded
      exact absurd hadded (by decide)
    · obtain ⟨hafter, hfresh, huntil, hlist, digests, hdigests, hsha1, hsha256⟩ := haccepts
      have hadds : ∃ sig ∈ siglist, Addable check target sig := by
        by_contra hnone
        rw [hr, (foldl_addOne_count siglist).2 hnone] at hadded
        exact absurd hadded (by simp)
      refine ⟨⟨digests, hdigests, ?_⟩, fun digests' hdigests' => ?_⟩
      · by_contra hneither
        refine hnot ⟨hafter, hfresh, huntil, ⟨digests, hdigests, ?_, ?_⟩, siglist, hlist, hadds⟩
        · by_contra hknown
          rw [Bool.not_eq_true] at hknown
          exact hneither (.inl ⟨hknown, hsha1 hknown⟩)
        · by_contra hknown
          rw [Bool.not_eq_true] at hknown
          exact hneither (.inr ⟨hknown, hsha256 hknown⟩)
      · obtain rfl : digests = digests' := Option.some.inj (hdigests.symm.trans hdigests')
        exact ⟨hsha1, hsha256⟩

theorem addAll_again (hone : OnePerAlgorithm target.voters) (sigs : NsDetachedSignatures) :
    SameSignatures (addAll check target [sigs]).voters
      (addAll check target [sigs, sigs]).voters := by
  have hrefl : ∀ voters, SameSignatures voters voters := fun voters =>
    List.forall₂_same.mpr fun voter _ => ⟨rfl, List.Perm.refl _⟩
  change SameSignatures (networkstatusAddDetachedSignatures check target sigs).target.voters
    (networkstatusAddDetachedSignatures check
      (networkstatusAddDetachedSignatures check target sigs).target sigs).target.voters
  obtain ⟨-, htarget, -⟩ | ⟨siglist, haccepts, htarget, -⟩ :=
    addDetachedSignatures_cases check target sigs
  · rw [htarget, htarget]
    exact hrefl _
  · rw [htarget]
    set target' : Networkstatus := { target with
      voters := (siglist.foldl (addOne check target.digests) (target.voters, 0)).1 } with htarget'
    obtain ⟨hrefused, -⟩ | ⟨siglist', haccepts', htwice, -⟩ :=
      addDetachedSignatures_cases check target' sigs
    · exact absurd haccepts (hrefused siglist)
    · obtain rfl : siglist = siglist' :=
        Option.some.inj (haccepts.2.2.2.1.symm.trans haccepts'.2.2.2.1)
      rw [htwice]
      change SameSignatures target'.voters
        (siglist.foldl (addOne check target.digests) (target'.voters, 0)).1
      rw [foldl_addOne_voters, show target'.voters = _ from foldl_addOne_voters _ _,
        onFirsts_comp (fun voter => mergeAll_identityDigest _ _)]
      -- voter by voter, what came to it the first time comes to it again
      refine sameSignatures_onFirsts hone (fun voter hvoter => ?_) []
      simpa only [mergeAll_identityDigest, true_and] using mergeAll_again hvoter _

theorem addDetachedSignatures_kept (check : SignatureCheck) (hone : OnePerAlgorithm target.voters)
    (sigs : NsDetachedSignatures) :
    (∀ identity sig, sig.goodSignature = true → HasSignature target.voters identity sig →
        HasSignature (networkstatusAddDetachedSignatures check target sigs).target.voters identity
          sig) ∧
      OnePerAlgorithm (networkstatusAddDetachedSignatures check target sigs).target.voters ∧
      ((networkstatusAddDetachedSignatures check target sigs).r ≤ 0 →
        (networkstatusAddDetachedSignatures check target sigs).target = target) := by
  obtain ⟨-, htarget, -⟩ | ⟨siglist, -, htarget, hr⟩ := addDetachedSignatures_cases check target sigs
  · rw [htarget]
    exact ⟨fun _ _ _ h => h, hone, fun _ => rfl⟩
  · obtain ⟨-, hone', hlost, -⟩ := foldl_addOne_invariants check
      target.digests siglist (target.voters, 0)
    rw [htarget, hr]
    refine ⟨hlost, hone' hone, fun hnothing => ?_⟩
    have hnone : ¬ ∃ sig ∈ siglist, Addable check target sig := fun hadds => by
      have hpos := (foldl_addOne_count siglist).1 hadds
      omega
    rw [(foldl_addOne_count siglist).2 hnone]

def zeros : Bytes := List.replicate 32 0

def oneVoter : Networkstatus where
  flavor := ascii "ns"
  validAfter := 0
  freshUntil := 3600
  validUntil := 10800
  digests := ⟨[1], [2]⟩
  voters := [⟨ascii "A", []⟩]

def unchecked : DocumentSignature where
  identityDigest := ascii "A"
  signingKeyDigest := ascii "K"
  alg := .sha1
  signature := []
  badSignature := false
  goodSignature := false

def document (sha1 : Bytes) : NsDetachedSignatures where
  validAfter := 0
  freshUntil := 3600
  validUntil := 10800
  digests := fun _ => some ⟨sha1, zeros⟩
  signatures := fun _ => some [unchecked]

/-- A document whose only digest is all zero adds a signature, for which there is no certificate. -/
theorem zero_digest_added :
    (networkstatusAddDetachedSignatures (fun _ _ => none) oneVoter (document zeros)).r = 1 ∧
      ¬ Keeps (fun _ _ => none) oneVoter (document zeros) := by
  have hadded : (networkstatusAddDetachedSignatures (fun _ _ => none) oneVoter
      (document zeros)).r = 1 := by rfl
  refine ⟨hadded, fun hkeeps => ?_⟩
  obtain ⟨digests, hdigests, hknown⟩ :=
    (hkeeps.onlyMatching (by rw [hadded]; decide)).atLeastOne
  obtain rfl := Option.some.inj hdigests
  exact absurd hknown (by decide)

/-- For every target and document, what is promised holds exactly unless the document fits the
target, knows no digest, and has a signature to add. -/
theorem keeps_iff (hone : OnePerAlgorithm target.voters) (sigs : NsDetachedSignatures) :
    Keeps check target sigs ↔ ¬ AddsUnrecognized check target sigs := by
  rw [← onlyMatching_iff]
  constructor
  · exact fun hkeeps => hkeeps.onlyMatching
  · intro hmatching
    obtain ⟨hlost, hone', hunchanged⟩ :=
      addDetachedSignatures_kept check hone sigs
    refine ⟨hmatching, hlost, hone', addAll_again hone sigs, hunchanged, ?_⟩
    intro docs docs' hperm identity alg
    rw [goodPair_addAll, goodPair_addAll]
    simp only [hperm.mem_iff]

theorem matching_document_kept : Keeps (fun _ _ => some true) oneVoter (document [1]) := by
  have hone : OnePerAlgorithm oneVoter.voters := by
    intro voter hvoter
    obtain rfl := List.mem_singleton.mp hvoter
    exact List.nodup_nil
  refine (keeps_iff hone (document [1])).mpr ?_
  rintro ⟨-, -, -, ⟨digests, hdigests, hzero, -⟩, -⟩
  obtain rfl := Option.some.inj hdigests
  exact absurd hzero (by decide)

end DetachedSignatures
