/-
The state machine of the shared random protocol (`feature/dirauth/shared_random_state.c`).

A state is prepared for the voting period of a valid-after time (`srStateUpdate`) and takes the
commits of votes (`srHandleReceivedCommits`).  A new protocol run is seen by the phase going from
reveal to commit; an authority that skips rounds may find itself in the same phase of a later run.
-/
import LibEltor.SharedRandom
import LibEltor.Transition

open Bytes Transition

namespace SharedRandom

/-! ### The state -/

/-- `commits` in the order the map is iterated. -/
structure SrState where
  validAfter : ℕ
  phase : SrPhase
  nProtocolRuns : UInt64
  nCommitRounds : UInt32
  nRevealRounds : UInt32
  commits : List SrCommit
  previousSrv : Option SrSrv
  currentSrv : Option SrSrv
  isSrvFresh : Bool

/-- What the protocol does not decide: the hash, the sort, the interval and our key. -/
structure SrEnv where
  digest256 : Bytes → Digest256
  smartlistSort : List SrCommit → List SrCommit
  votingInterval : ℕ
  ourIdentity : Digest

def sharedRandomNRounds : ℕ := 12

def sharedRandomNPhases : ℕ := 2

def getSrProtocolPhase (env : SrEnv) (validAfter : ℕ) : SrPhase :=
  let totalPeriods := sharedRandomNRounds * sharedRandomNPhases
  let currentSlot := validAfter / env.votingInterval % totalPeriods
  if currentSlot < sharedRandomNRounds then .commit else .reveal

def stateNew (env : SrEnv) (now : ℕ) : SrState where
  validAfter := 0
  phase := getSrProtocolPhase env now
  nProtocolRuns := 0
  nCommitRounds := 0
  nRevealRounds := 0
  commits := []
  previousSrv := none
  currentSrv := none
  isSrvFresh := false

def srStateGetCommit (s : SrState) (rsaIdentity : Digest) : Option SrCommit :=
  s.commits.find? fun c => c.rsaIdentity = rsaIdentity

/-- `digestmap_set` -/
def commitAddToState (commit : SrCommit) (s : SrState) : SrState :=
  { s with commits := s.commits.filter (fun c => c.rsaIdentity ≠ commit.rsaIdentity) ++ [commit] }

def shouldKeepCommit (env : SrEnv) (known : Digest → Bool) (s : SrState) (commit : SrCommit)
    (voterKey : Digest) : Bool :=
  if !commitIsAuthoritative commit voterKey then false
  else if !known commit.rsaIdentity then false
  else
    match s.phase, srStateGetCommit s commit.rsaIdentity with
    | .commit, some _ => false
    | .commit, none => !commitHasRevealValue commit
    | .reveal, none => false
    | .reveal, some saved =>
      if !commitmentsAreTheSame commit saved then false
      else if commitHasRevealValue saved then false
      else if !commitHasRevealValue commit then false
      else verifyCommitAndReveal env.digest256 commit

def saveCommitDuringRevealPhase (commit : SrCommit) (s : SrState) : SrState :=
  { s with commits := s.commits.map fun saved =>
      if saved.rsaIdentity = commit.rsaIdentity then srStateCopyRevealInfo saved commit else saved }

def saveCommitToState (commit : SrCommit) (s : SrState) : SrState :=
  match s.phase with
  | .commit => commitAddToState commit s
  | .reveal => saveCommitDuringRevealPhase commit s

def handleCommit (env : SrEnv) (known : Digest → Bool) (voterKey : Digest) (s : SrState)
    (commit : SrCommit) : SrState :=
  if shouldKeepCommit env known s commit voterKey then
    saveCommitToState { commit with valid := true } s
  else s

/-- The order of `SMARTLIST_FOREACH` when each element is deleted: the last takes its place. -/
def foreachDelCurrent {α : Type*} : List α → List α
  | [] => []
  | x :: rest => x :: rest.reverse

def srHandleReceivedCommits (env : SrEnv) (known : Digest → Bool) (commits : List SrCommit)
    (voterKey : Digest) (s : SrState) : SrState :=
  (foreachDelCurrent commits).foldl (handleCommit env known voterKey) s

/-! ### The next round -/

def stateRotateSrv (s : SrState) : SrState :=
  { s with previousSrv := s.currentSrv, currentSrv := none }

def knownCommits (known : Digest → Bool) (s : SrState) : List SrCommit :=
  s.commits.filter fun c => known c.rsaIdentity

def srComputeSrv (digest256 : Bytes → Digest256) (smartlistSort : List SrCommit → List SrCommit)
    (known : Digest → Bool) (s : SrState) : SrState :=
  if s.phase ≠ .reveal then s
  else
    { s with
      currentSrv := some
        (srvOfSorted digest256 (smartlistSort (knownCommits known s)) s.previousSrv)
      isSrvFresh := true }

def resetStateForNewProtocolRun (validAfter : ℕ) (s : SrState) : SrState :=
  { s with
    nRevealRounds := 0
    nCommitRounds := 0
    nProtocolRuns := s.nProtocolRuns + 1
    validAfter := validAfter
    commits := [] }

/-- Add our commitment, from a random number; there is none where making it fails. -/
def addOurCommit (env : SrEnv) (validAfter : ℕ) (random : Option Digest256) (s : SrState) : SrState :=
  match random with
  | none => s
  | some randomNumber =>
    commitAddToState
      (srGenerateOurCommit env.digest256 env.ourIdentity (UInt64.ofNat validAfter) randomNumber) s

def newProtocolRun (env : SrEnv) (known : Digest → Bool) (validAfter : ℕ)
    (random : Option Digest256) (s : SrState) : SrState :=
  let s :=
    if s.phase = .reveal then srComputeSrv env.digest256 env.smartlistSort known (stateRotateSrv s)
    else s
  addOurCommit env validAfter random (resetStateForNewProtocolRun validAfter s)

def isPhaseTransition (s : SrState) (nextPhase : SrPhase) : Bool := decide (s.phase ≠ nextPhase)

/-- The first half of `sr_state_update`. -/
def prepareStage (env : SrEnv) (known : Digest → Bool) (validAfter : ℕ)
    (random : Option Digest256) (s : SrState) : SrState :=
  let nextPhase := getSrProtocolPhase env validAfter
  if isPhaseTransition s nextPhase then
    let s := if nextPhase = .commit then newProtocolRun env known validAfter random s else s
    { s with phase := nextPhase }
  else if s.phase = .commit ∧ s.commits.length = 0 then addOurCommit env validAfter random s
  else s

def countRound (s : SrState) : SrState × Bool :=
  if s.phase = .commit then
    if s.nRevealRounds ≠ 0 then (s, true)
    else ({ s with nCommitRounds := s.nCommitRounds + 1 }, false)
  else ({ s with nRevealRounds := s.nRevealRounds + 1 }, false)

def srStateUpdate (env : SrEnv) (known : Digest → Bool) (validAfter : ℕ)
    (random : Option Digest256) (s : SrState) : SrState × Bool :=
  if validAfter ≤ s.validAfter then (s, false)
  else
    countRound { prepareStage env known validAfter random s with validAfter := validAfter }

/-! ### Runs -/

def protocolRun (env : SrEnv) (validAfter : ℕ) : ℕ :=
  validAfter / env.votingInterval / (sharedRandomNRounds * sharedRandomNPhases)

/-- A state, and for each authority the valid-after of the state its commit was added to. -/
structure SrRun where
  state : SrState
  addedIn : Digest → ℕ

inductive SrAction
  | update (known : Digest → Bool) (validAfter : ℕ) (random : Option Digest256)
  | vote (known : Digest → Bool) (commits : List SrCommit) (voterKey : Digest)

/-- `validAfter` is that of the state commits are added to. -/
def noteAdded (N : SrRun) (validAfter : ℕ) (id : Digest) : ℕ :=
  if id ∈ N.state.commits.map (·.rsaIdentity) then N.addedIn id else validAfter

inductive SrStep (env : SrEnv) : SrRun → SrAction → SrRun → Prop
  | update {N : SrRun} {known : Digest → Bool} {validAfter : ℕ} {random : Option Digest256}
      (hnew : N.state.validAfter < validAfter) :
      SrStep env N (.update known validAfter random)
        { state := (srStateUpdate env known validAfter random N.state).1
          addedIn :=
            if isPhaseTransition N.state (getSrProtocolPhase env validAfter) ∧
                getSrProtocolPhase env validAfter = .commit then
              fun _ => validAfter
            else noteAdded N validAfter }
  | vote {N : SrRun} {known : Digest → Bool} {commits : List SrCommit} {voterKey : Digest}
      (hparsed : ∀ c ∈ commits, ∃ value reveal,
        srParseCommit c.rsaIdentity value reveal = some c) :
      SrStep env N (.vote known commits voterKey)
        { state := srHandleReceivedCommits env known commits voterKey N.state
          addedIn := noteAdded N N.state.validAfter }

/-- A state that was just made has been updated once. -/
inductive SrInit (env : SrEnv) : SrRun → Prop
  | mk (now validAfter : ℕ) (known : Digest → Bool) (random : Option Digest256)
      (hpos : 0 < validAfter) :
      SrInit env
        { state := (srStateUpdate env known validAfter random (stateNew env now)).1
          addedIn := fun _ => validAfter }

def srSystem (env : SrEnv) : System SrRun SrAction where
  init := SrInit env
  step := SrStep env

/-- No commits are carried into another run: it is the same, or it is seen to be new. -/
def RunSeen (env : SrEnv) (N : SrRun) : SrAction → Prop
  | .update _ validAfter _ =>
    N.state.commits = [] ∨ protocolRun env validAfter = protocolRun env N.state.validAfter ∨
      (N.state.phase = .reveal ∧ getSrProtocolPhase env validAfter = .commit)
  | .vote _ _ _ => True

/-! ### What a commit in the state is -/

structure CommitsInv (env : SrEnv) (s : SrState) : Prop where
  nodup : (s.commits.map (·.rsaIdentity)).Nodup
  decoded : ∀ c ∈ s.commits, Decoded c
  verified : ∀ c ∈ s.commits, commitHasRevealValue c = true →
    verifyCommitAndReveal env.digest256 c = true
  noRevealRounds : s.phase = .commit → s.nRevealRounds = 0

variable {env : SrEnv} {s : SrState}

theorem mem_commitAddToState {commit c : SrCommit} (h : c ∈ (commitAddToState commit s).commits) :
    c ∈ s.commits ∨ c = commit := by
  simp only [commitAddToState, List.mem_append, List.mem_filter, List.mem_singleton] at h
  exact h.imp_left And.left

theorem commitsInv_commitAddToState {commit : SrCommit} (h : CommitsInv env s) (hdec : Decoded commit)
    (hverify : commitHasRevealValue commit = true →
      verifyCommitAndReveal env.digest256 commit = true) :
    CommitsInv env (commitAddToState commit s) where
  nodup := by
    simp only [commitAddToState, List.map_append, List.map_cons, List.map_nil]
    rw [List.nodup_append]
    refine ⟨(List.filter_sublist.map _).nodup h.nodup, List.nodup_singleton _, ?_⟩
    intro id hid id' hid' heq
    obtain ⟨c, hc, rfl⟩ := List.mem_map.mp hid
    have hne := (List.mem_filter.mp hc).2
    simp only [List.mem_singleton] at hid'
    simp [heq, hid'] at hne
  decoded c hc := by
    obtain hc | rfl := mem_commitAddToState hc
    · exact h.decoded c hc
    · exact hdec
  verified c hc hreveal := by
    obtain hc | rfl := mem_commitAddToState hc
    · exact h.verified c hc hreveal
    · exact hverify hreveal
  noRevealRounds := h.noRevealRounds

theorem identity_copied (saved commit : SrCommit) :
    (if saved.rsaIdentity = commit.rsaIdentity then srStateCopyRevealInfo saved commit
      else saved).rsaIdentity = saved.rsaIdentity := by
  split_ifs <;> rfl

theorem identities_saveCommitDuringRevealPhase (commit : SrCommit) :
    (saveCommitDuringRevealPhase commit s).commits.map (·.rsaIdentity) =
      s.commits.map (·.rsaIdentity) := by
  simp only [saveCommitDuringRevealPhase, List.map_map]
  exact List.map_congr_left fun saved _ => identity_copied saved commit

theorem srStateGetCommit_eq (h : (s.commits.map (·.rsaIdentity)).Nodup) {c : SrCommit}
    (hc : c ∈ s.commits) : srStateGetCommit s c.rsaIdentity = some c := by
  cases hfind : srStateGetCommit s c.rsaIdentity with
  | none =>
    have hnone := List.find?_eq_none.mp hfind c hc
    simp at hnone
  | some c' =>
    have hid := List.find?_some hfind
    have hmem := List.mem_of_find?_eq_some hfind
    simp only [decide_eq_true_eq] at hid
    rw [List.inj_on_of_nodup_map h hmem hc hid]

theorem shouldKeepCommit_cases {known : Digest → Bool} {commit : SrCommit} {voterKey : Digest}
    (h : shouldKeepCommit env known s commit voterKey = true) :
    (s.phase = .commit ∧ srStateGetCommit s commit.rsaIdentity = none ∧
        commitHasRevealValue commit = false) ∨
      ∃ saved, s.phase = .reveal ∧ srStateGetCommit s commit.rsaIdentity = some saved ∧
        commitmentsAreTheSame commit saved = true ∧
        verifyCommitAndReveal env.digest256 commit = true := by
  unfold shouldKeepCommit at h
  cases hphase : s.phase <;> cases hget : srStateGetCommit s commit.rsaIdentity <;>
    simp only [hphase, hget] at h
  · exact .inl ⟨rfl, rfl, by simp_all⟩
  · simp_all
  · simp_all
  · rename_i saved
    exact .inr ⟨saved, rfl, rfl, by simp_all, by simp_all⟩

/-! ### Commits of votes -/

structure Extends (s s' : SrState) : Prop where
  validAfter : s'.validAfter = s.validAfter
  phase : s'.phase = s.phase
  kept : ∀ c ∈ s.commits, ∃ c' ∈ s'.commits, c'.rsaIdentity = c.rsaIdentity ∧
    c'.encodedCommit = c.encodedCommit
  added : ∀ c' ∈ s'.commits, c'.rsaIdentity ∈ s.commits.map (·.rsaIdentity) ∨ s.phase = .commit

theorem extends_refl (s : SrState) : Extends s s where
  validAfter := rfl
  phase := rfl
  kept c hc := ⟨c, hc, rfl, rfl⟩
  added _ hc := .inl (List.mem_map_of_mem hc)

theorem Extends.trans {s s' s'' : SrState} (h : Extends s s') (h' : Extends s' s'') :
    Extends s s'' where
  validAfter := h'.validAfter.trans h.validAfter
  phase := h'.phase.trans h.phase
  kept c hc := by
    obtain ⟨c', hc', hid', hcommit'⟩ := h.kept c hc
    obtain ⟨c'', hc'', hid'', hcommit''⟩ := h'.kept c' hc'
    exact ⟨c'', hc'', hid''.trans hid', hcommit''.trans hcommit'⟩
  added c hc := by
    obtain hmem | hphase := h'.added c hc
    · obtain ⟨c', hc', hid'⟩ := List.mem_map.mp hmem
      rw [← hid']
      exact h.added c' hc'
    · exact .inr (h.phase ▸ hphase)

theorem extends_commitAddToState {commit : SrCommit} (hphase : s.phase = .commit)
    (hnone : srStateGetCommit s commit.rsaIdentity = none) :
    Extends s (commitAddToState commit s) where
  validAfter := rfl
  phase := rfl
  kept c hc := by
    have hne := List.find?_eq_none.mp hnone c hc
    refine ⟨c, ?_, rfl, rfl⟩
    simp only [commitAddToState, List.mem_append, List.mem_filter]
    exact .inl ⟨hc, by simpa using hne⟩
  added _ _ := .inr hphase

theorem extends_saveCommitDuringRevealPhase (commit : SrCommit) :
    Extends s (saveCommitDuringRevealPhase commit s) where
  validAfter := rfl
  phase := rfl
  kept c hc := by
    refine ⟨_, List.mem_map_of_mem hc, identity_copied c commit, ?_⟩
    split_ifs <;> rfl
  added c hc := by
    have hmem := List.mem_map_of_mem (f := (·.rsaIdentity)) hc
    rw [identities_saveCommitDuringRevealPhase] at hmem
    exact .inl hmem

theorem commitsInv_saveCommitDuringRevealPhase {commit saved : SrCommit} (h : CommitsInv env s)
    (hdec : Decoded commit) (hget : srStateGetCommit s commit.rsaIdentity = some saved)
    (hsame : commitmentsAreTheSame commit saved = true)
    (hverify : verifyCommitAndReveal env.digest256 commit = true) :
    CommitsInv env (saveCommitDuringRevealPhase commit s) where
  nodup := by
    rw [identities_saveCommitDuringRevealPhase]
    exact h.nodup
  decoded c hc := by
    obtain ⟨old, hold, rfl⟩ := List.mem_map.mp hc
    split_ifs
    · exact h.decoded old hold
    · exact h.decoded old hold
  verified c hc hreveal := by
    obtain ⟨old, hold, rfl⟩ := List.mem_map.mp hc
    by_cases hid : old.rsaIdentity = commit.rsaIdentity
    · -- the commit that was found is the one that is changed
      have hfound := srStateGetCommit_eq h.nodup hold
      rw [hid, hget] at hfound
      obtain rfl := Option.some.inj hfound
      rw [if_pos hid]
      exact verify_copy (h.decoded _ hold) hdec hsame hverify
    · rw [if_neg hid] at hreveal ⊢
      exact h.verified old hold hreveal
  noRevealRounds := h.noRevealRounds

theorem handleCommit_spec (known : Digest → Bool) (voterKey : Digest) {commit : SrCommit}
    (h : CommitsInv env s) (hdec : Decoded commit) :
    CommitsInv env (handleCommit env known voterKey s commit) ∧
      Extends s (handleCommit env known voterKey s commit) := by
  unfold handleCommit
  split_ifs with hkeep
  · obtain ⟨hphase, hnone, hreveal⟩ | ⟨saved, hphase, hget, hsame, hverify⟩ :=
      shouldKeepCommit_cases hkeep
    · rw [saveCommitToState, hphase]
      refine ⟨commitsInv_commitAddToState h hdec fun hrev => ?_,
        extends_commitAddToState hphase hnone⟩
      have hrev' : commitHasRevealValue commit = true := hrev
      rw [hreveal] at hrev'
      cases hrev'
    · rw [saveCommitToState, hphase]
      exact ⟨commitsInv_saveCommitDuringRevealPhase h hdec hget hsame hverify,
        extends_saveCommitDuringRevealPhase _⟩
  · exact ⟨h, extends_refl s⟩

theorem mem_foreachDelCurrent {α : Type*} {l : List α} {x : α} (h : x ∈ foreachDelCurrent l) :
    x ∈ l := by
  cases l with
  | nil => exact h
  | cons y rest => simpa [foreachDelCurrent] using h

theorem srHandleReceivedCommits_spec (known : Digest → Bool) (voterKey : Digest)
    {commits : List SrCommit} (h : CommitsInv env s) (hdec : ∀ c ∈ commits, Decoded c) :
    CommitsInv env (srHandleReceivedCommits env known commits voterKey s) ∧
      Extends s (srHandleReceivedCommits env known commits voterKey s) := by
  have hrun : ∀ (l : List SrCommit) (s : SrState), (∀ c ∈ l, Decoded c) → CommitsInv env s →
      CommitsInv env (l.foldl (handleCommit env known voterKey) s) ∧
        Extends s (l.foldl (handleCommit env known voterKey) s) := by
    intro l
    induction l with
    | nil => exact fun s _ hs => ⟨hs, extends_refl s⟩
    | cons c l ih =>
      intro s hl hs
      obtain ⟨hinv, hext⟩ := handleCommit_spec known voterKey hs
        (hl c List.mem_cons_self)
      obtain ⟨hinv', hext'⟩ := ih _ (fun c hc => hl c (List.mem_cons_of_mem _ hc)) hinv
      exact ⟨hinv', hext.trans hext'⟩
  exact hrun _ s (fun c hc => hdec c (mem_foreachDelCurrent hc)) h

/-! ### Updates -/

theorem getSrProtocolPhase_commit_iff {validAfter : ℕ} :
    getSrProtocolPhase env validAfter = .commit ↔ validAfter / env.votingInterval % 24 < 12 := by
  simp only [getSrProtocolPhase, sharedRandomNRounds, sharedRandomNPhases, Nat.reduceMul]
  split_ifs with h <;> simp [h]

theorem reveal_of_le {now next : ℕ} (hle : now ≤ next)
    (hrun : protocolRun env next = protocolRun env now)
    (hreveal : getSrProtocolPhase env now = .reveal) : getSrProtocolPhase env next = .reveal := by
  have hmono : now / env.votingInterval ≤ next / env.votingInterval := Nat.div_le_div_right hle
  simp only [protocolRun, sharedRandomNRounds, sharedRandomNPhases, Nat.reduceMul] at hrun
  have hnow : ¬ now / env.votingInterval % 24 < 12 := fun h => by
    rw [getSrProtocolPhase_commit_iff.mpr h] at hreveal
    cases hreveal
  cases hnext : getSrProtocolPhase env next with
  | reveal => rfl
  | commit =>
    have := getSrProtocolPhase_commit_iff.mp hnext
    omega

theorem commitsInv_addOurCommit (validAfter : ℕ) (random : Option Digest256) (h : CommitsInv env s) :
    CommitsInv env (addOurCommit env validAfter random s) := by
  cases random with
  | none => exact h
  | some randomNumber =>
    exact commitsInv_commitAddToState h (decoded_srGenerateOurCommit _ _ _ _)
      fun _ => verify_srGenerateOurCommit _ _ _ _

theorem newProtocolRun_eq (env : SrEnv) (s : SrState) (known : Digest → Bool) (validAfter : ℕ) (random : Option Digest256) :
    ∃ fresh : SrState, fresh.commits = [] ∧ fresh.nRevealRounds = 0 ∧
      newProtocolRun env known validAfter random s = addOurCommit env validAfter random fresh :=
  ⟨_, rfl, rfl, rfl⟩

theorem prepareStage_cases (env : SrEnv) (known : Digest → Bool) (validAfter : ℕ)
    (random : Option Digest256) (s : SrState) :
    (s.phase = .reveal ∧ getSrProtocolPhase env validAfter = .commit ∧
      ∃ fresh : SrState, fresh.commits = [] ∧ fresh.nRevealRounds = 0 ∧
        prepareStage env known validAfter random s =
          { addOurCommit env validAfter random fresh with phase := .commit }) ∨
    (s.phase = .commit ∧ getSrProtocolPhase env validAfter = .reveal ∧
      prepareStage env known validAfter random s = { s with phase := .reveal }) ∨
    (s.phase = .commit ∧ getSrProtocolPhase env validAfter = .commit ∧ s.commits = [] ∧
      prepareStage env known validAfter random s = addOurCommit env validAfter random s) ∨
    (s.phase = getSrProtocolPhase env validAfter ∧
      prepareStage env known validAfter random s = s) := by
  cases hphase : s.phase with
  | commit =>
    cases hnext : getSrProtocolPhase env validAfter with
    | commit =>
      by_cases hempty : s.commits = []
      · refine .inr (.inr (.inl ⟨rfl, rfl, hempty, ?_⟩))
        simp [prepareStage, isPhaseTransition, hphase, hnext, hempty]
      · refine .inr (.inr (.inr ⟨rfl, ?_⟩))
        simp [prepareStage, isPhaseTransition, hphase, hnext, hempty]
    | reveal =>
      refine .inr (.inl ⟨rfl, rfl, ?_⟩)
      simp [prepareStage, isPhaseTransition, hphase, hnext]
  | reveal =>
    cases hnext : getSrProtocolPhase env validAfter with
    | commit =>
      obtain ⟨fresh, hcommits, hrounds, heq⟩ := newProtocolRun_eq env s known
        validAfter random
      refine .inl ⟨rfl, rfl, fresh, hcommits, hrounds, ?_⟩
      rw [← heq]
      simp [prepareStage, isPhaseTransition, hphase, hnext]
    | reveal =>
      refine .inr (.inr (.inr ⟨rfl, ?_⟩))
      simp [prepareStage, isPhaseTransition, hphase, hnext]

theorem phase_addOurCommit (validAfter : ℕ) (random : Option Digest256) :
    (addOurCommit env validAfter random s).phase = s.phase := by
  cases random <;> rfl

theorem phase_prepareStage (known : Digest → Bool) (validAfter : ℕ) (random : Option Digest256) :
    (prepareStage env known validAfter random s).phase = getSrProtocolPhase env validAfter := by
  obtain ⟨-, hnext, fresh, -, -, heq⟩ | ⟨-, hnext, heq⟩ | ⟨hphase, hnext, -, heq⟩ | ⟨hphase, heq⟩ :=
    prepareStage_cases env known validAfter random s
  · rw [heq, hnext]
  · rw [heq, hnext]
  · rw [heq, phase_addOurCommit, hphase, hnext]
  · rw [heq, hphase]

theorem commitsInv_of_commits_nil {s : SrState} (hcommits : s.commits = [])
    (hrounds : s.nRevealRounds = 0) : CommitsInv env s where
  nodup := by simp [hcommits]
  decoded := by simp [hcommits]
  verified := by simp [hcommits]
  noRevealRounds _ := hrounds

theorem commitsInv_prepareStage (known : Digest → Bool) (validAfter : ℕ)
    (random : Option Digest256) (h : CommitsInv env s) :
    CommitsInv env (prepareStage env known validAfter random s) := by
  obtain ⟨-, -, fresh, hcommits, hrounds, heq⟩ | ⟨-, -, heq⟩ | ⟨-, -, -, heq⟩ | ⟨-, heq⟩ :=
    prepareStage_cases env known validAfter random s
  · rw [heq]
    have hfresh := commitsInv_addOurCommit validAfter random
      (commitsInv_of_commits_nil hcommits hrounds : CommitsInv env fresh)
    refine ⟨hfresh.nodup, hfresh.decoded, hfresh.verified, fun _ => ?_⟩
    cases random <;> exact hrounds
  · rw [heq]
    refine ⟨h.nodup, h.decoded, h.verified, fun hphase => ?_⟩
    cases hphase
  · rw [heq]
    exact commitsInv_addOurCommit _ _ h
  · rw [heq]
    exact h

theorem countRound_spec (h : CommitsInv env s) :
    (countRound s).2 = false ∧ (countRound s).1.commits = s.commits ∧
      (countRound s).1.phase = s.phase ∧ (countRound s).1.validAfter = s.validAfter ∧
      CommitsInv env (countRound s).1 := by
  unfold countRound
  split_ifs with hcommit hrounds
  · exact absurd (h.noRevealRounds hcommit) hrounds
  · exact ⟨rfl, rfl, rfl, rfl, h.nodup, h.decoded, h.verified, h.noRevealRounds⟩
  · exact ⟨rfl, rfl, rfl, rfl, h.nodup, h.decoded, h.verified, fun hphase => absurd hphase hcommit⟩

theorem srStateUpdate_spec (known : Digest → Bool) {validAfter : ℕ} (random : Option Digest256)
    (h : CommitsInv env s) (hnew : s.validAfter < validAfter) :
    (srStateUpdate env known validAfter random s).2 = false ∧
      (srStateUpdate env known validAfter random s).1.commits =
        (prepareStage env known validAfter random s).commits ∧
      (srStateUpdate env known validAfter random s).1.phase = getSrProtocolPhase env validAfter ∧
      (srStateUpdate env known validAfter random s).1.validAfter = validAfter ∧
      CommitsInv env (srStateUpdate env known validAfter random s).1 := by
  have hprepared := commitsInv_prepareStage known validAfter random h
  have hinv : CommitsInv env
      { prepareStage env known validAfter random s with validAfter := validAfter } :=
    ⟨hprepared.nodup, hprepared.decoded, hprepared.verified, hprepared.noRevealRounds⟩
  obtain ⟨hbug, hcommits, hphase, hvalid, hcounted⟩ := countRound_spec hinv
  rw [srStateUpdate, if_neg (by omega)]
  exact ⟨hbug, hcommits, hphase.trans (phase_prepareStage known validAfter random), hvalid, hcounted⟩

/-! ### Runs of the state machine -/

/-- The commits are those of the protocol run of the voting period. -/
structure RunInv (env : SrEnv) (N : SrRun) : Prop where
  commits : CommitsInv env N.state
  phase : N.state.phase = getSrProtocolPhase env N.state.validAfter
  added : ∀ c ∈ N.state.commits, getSrProtocolPhase env (N.addedIn c.rsaIdentity) = .commit ∧
    protocolRun env (N.addedIn c.rsaIdentity) = protocolRun env N.state.validAfter

variable {N N' : SrRun}

theorem decoded_of_parsed {commits : List SrCommit}
    (h : ∀ c ∈ commits, ∃ value reveal, srParseCommit c.rsaIdentity value reveal = some c) :
    ∀ c ∈ commits, Decoded c := by
  intro c hc
  obtain ⟨value, reveal, hparse⟩ := h c hc
  exact decoded_srParseCommit hparse

theorem runInv_update {known : Digest → Bool} {validAfter : ℕ} {random : Option Digest256}
    (h : RunInv env N) (hnew : N.state.validAfter < validAfter)
    (hseen : RunSeen env N (.update known validAfter random)) :
    RunInv env
      { state := (srStateUpdate env known validAfter random N.state).1
        addedIn :=
          if isPhaseTransition N.state (getSrProtocolPhase env validAfter) ∧
              getSrProtocolPhase env validAfter = .commit then
            fun _ => validAfter
          else noteAdded N validAfter } := by
  obtain ⟨-, hcommits, hphase, hvalid, hinv⟩ :=
    srStateUpdate_spec known random h.commits hnew
  refine ⟨hinv, ?_, ?_⟩
  · rw [hphase, hvalid]
  intro c hc
  rw [hcommits] at hc
  rw [hvalid]
  obtain ⟨hold, hnext, fresh, -, -, heq⟩ | ⟨hold, hnext, heq⟩ | ⟨hold, hnext, hnil, heq⟩ |
    ⟨hold, heq⟩ := prepareStage_cases env known validAfter random N.state
  · -- a new run
    have htransition : isPhaseTransition N.state (getSrProtocolPhase env validAfter) ∧
        getSrProtocolPhase env validAfter = .commit := by
      simp [isPhaseTransition, hold, hnext]
    dsimp only
    rw [if_pos htransition]
    exact ⟨hnext, rfl⟩
  · -- the reveal phase, of the same run
    rw [heq] at hc
    dsimp only at hc ⊢
    rw [if_neg (by simp [hnext]), noteAdded, if_pos (List.mem_map_of_mem hc)]
    obtain hnil | hrun | ⟨hreveal, -⟩ := hseen
    · simp [hnil] at hc
    · rw [hrun]
      exact h.added c hc
    · rw [hold] at hreveal
      cases hreveal
  · -- our commitment is the first
    dsimp only
    rw [if_neg (by simp [isPhaseTransition, hold, hnext]), noteAdded, if_neg (by simp [hnil])]
    exact ⟨hnext, rfl⟩
  · rw [heq] at hc
    dsimp only
    rw [if_neg (by simp [isPhaseTransition, hold]), noteAdded, if_pos (List.mem_map_of_mem hc)]
    obtain hnil | hrun | ⟨hreveal, hcommit⟩ := hseen
    · simp [hnil] at hc
    · rw [hrun]
      exact h.added c hc
    · rw [hold, hcommit] at hreveal
      cases hreveal

theorem runInv_vote {known : Digest → Bool} {voterKey : Digest} {commits : List SrCommit}
    (h : RunInv env N) (hdec : ∀ c ∈ commits, Decoded c) :
    RunInv env
      { state := srHandleReceivedCommits env known commits voterKey N.state
        addedIn := noteAdded N N.state.validAfter } := by
  obtain ⟨hinv, hext⟩ := srHandleReceivedCommits_spec known voterKey
    h.commits hdec
  refine ⟨hinv, ?_, ?_⟩
  · rw [hext.phase, hext.validAfter]
    exact h.phase
  intro c hc
  rw [hext.validAfter]
  dsimp only
  by_cases hmem : c.rsaIdentity ∈ N.state.commits.map (·.rsaIdentity)
  · rw [noteAdded, if_pos hmem]
    obtain ⟨old, hold, hid⟩ := List.mem_map.mp hmem
    rw [← hid]
    exact h.added old hold
  · rw [noteAdded, if_neg hmem]
    have hcommit := (hext.added c hc).resolve_left hmem
    exact ⟨h.phase ▸ hcommit, rfl⟩

theorem runInv_step {a : SrAction} (h : RunInv env N) (hseen : RunSeen env N a)
    (hstep : SrStep env N a N') : RunInv env N' := by
  cases hstep with
  | update hnew => exact runInv_update h hnew hseen
  | vote hparsed => exact runInv_vote h (decoded_of_parsed hparsed)

theorem runInv_init (h : SrInit env N) : RunInv env N := by
  obtain ⟨now, validAfter, known, random, hpos⟩ := h
  have hnew : CommitsInv env (stateNew env now) := commitsInv_of_commits_nil rfl rfl
  obtain ⟨-, hcommits, hphase, hvalid, hinv⟩ :=
    srStateUpdate_spec known random hnew hpos
  refine ⟨hinv, ?_, ?_⟩
  · rw [hphase, hvalid]
  intro c hc
  rw [hcommits] at hc
  rw [hvalid]
  refine ⟨?_, rfl⟩
  obtain ⟨-, hnext, -⟩ | ⟨-, -, heq⟩ | ⟨-, hnext, -⟩ | ⟨-, heq⟩ :=
    prepareStage_cases env known validAfter random (stateNew env now)
  · exact hnext
  · rw [heq] at hc
    cases hc
  · exact hnext
  · rw [heq] at hc
    cases hc

theorem commitments_kept {a : SrAction} (h : RunInv env N) (hstep : SrStep env N a N')
    (hrun : protocolRun env N'.state.validAfter = protocolRun env N.state.validAfter) :
    ∀ c ∈ N.state.commits, ∃ c' ∈ N'.state.commits, c'.rsaIdentity = c.rsaIdentity ∧
      c'.encodedCommit = c.encodedCommit := by
  intro c hc
  cases hstep with
  | @update known validAfter random hnew =>
    obtain ⟨-, hcommits, -, hvalid, -⟩ :=
      srStateUpdate_spec known random h.commits hnew
    dsimp only at hrun ⊢
    rw [hvalid] at hrun
    rw [hcommits]
    obtain ⟨hold, hnext, -⟩ | ⟨-, -, heq⟩ | ⟨-, -, hnil, -⟩ | ⟨-, heq⟩ :=
      prepareStage_cases env known validAfter random N.state
    · rw [reveal_of_le hnew.le hrun (h.phase ▸ hold)] at hnext
      cases hnext
    · rw [heq]
      exact ⟨c, hc, rfl, rfl⟩
    · simp [hnil] at hc
    · rw [heq]
      exact ⟨c, hc, rfl, rfl⟩
  | vote hparsed =>
    exact (srHandleReceivedCommits_spec _ _ h.commits (decoded_of_parsed hparsed)).2.kept c hc

theorem unseen_run {a : SrAction} (h : RunInv env N) (hseen : ¬ RunSeen env N a)
    (hstep : SrStep env N a N') :
    ∃ c ∈ N'.state.commits,
      protocolRun env (N'.addedIn c.rsaIdentity) ≠ protocolRun env N'.state.validAfter := by
  cases hstep with
  | vote => exact absurd trivial hseen
  | @update known validAfter random hnew =>
    obtain ⟨-, hcommits, -, hvalid, -⟩ :=
      srStateUpdate_spec known random h.commits hnew
    simp only [RunSeen, not_or, not_and] at hseen
    obtain ⟨hne, hrun, hphase⟩ := hseen
    obtain ⟨c, hc⟩ := List.exists_mem_of_ne_nil _ hne
    have hkept : (prepareStage env known validAfter random N.state).commits = N.state.commits := by
      obtain ⟨hold, hnext, -⟩ | ⟨-, -, heq⟩ | ⟨-, -, hnil, -⟩ | ⟨-, heq⟩ :=
        prepareStage_cases env known validAfter random N.state
      · exact absurd hnext (hphase hold)
      · rw [heq]
      · exact absurd hnil hne
      · rw [heq]
    refine ⟨c, ?_, ?_⟩
    · dsimp only
      rw [hcommits, hkept]
      exact hc
    · have hsame : ¬ (isPhaseTransition N.state (getSrProtocolPhase env validAfter) = true ∧
          getSrProtocolPhase env validAfter = .commit) := by
        rintro ⟨htransition, hnext⟩
        cases hold : N.state.phase with
        | commit => simp [isPhaseTransition, hold, hnext] at htransition
        | reveal => exact hphase hold hnext
      dsimp only
      rw [hvalid, if_neg hsame, noteAdded, if_pos (List.mem_map_of_mem hc), (h.added c hc).2]
      exact Ne.symm hrun

def hourly : SrEnv where
  digest256 := fun _ => zeroFill 32 []
  smartlistSort := id
  votingInterval := 3600
  ourIdentity := zeroFill 20 []

def started : SrRun where
  state := (srStateUpdate hourly (fun _ => true) 7200 (some (zeroFill 32 [])) (stateNew hourly 3600)).1
  addedIn := fun _ => 7200

theorem srInit_started : SrInit hourly started := .mk 3600 7200 _ _ (by decide)

theorem commits_started : started.state.commits =
    [srGenerateOurCommit hourly.digest256 hourly.ourIdentity 7200 (zeroFill 32 [])] := rfl

theorem validAfter_started : started.state.validAfter = 7200 := rfl

end SharedRandom
