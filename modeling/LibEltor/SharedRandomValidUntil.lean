/-
How long the saved state of the shared random protocol is valid
(`feature/dirauth/shared_random_state.c`).

A state is made at boot and prepared for each voting period that the schedule gives.  It is to be
accepted from disk until the next protocol run begins.
-/
import LibEltor.SharedRandomDisk
import LibEltor.VotingSchedule

open Bytes Binascii Transition VotingSchedule

namespace SharedRandom

def curValidAfter (env : SrEnv) (now : ℕ) : ℤ := getCurValidAfterTime env.votingInterval now

def nextValidAfter (env : SrEnv) (now : ℕ) : ℕ :=
  (getNextValidAfterTime env.votingInterval now).toNat

/-- `cur` is what `dirauth_sched_get_cur_valid_after_time` returns. -/
def getStateValidUntilTime (env : SrEnv) (cur : ℤ) (now : ℕ) : ℤ :=
  let totalRounds := sharedRandomNRounds * sharedRandomNPhases
  let currentRound := now / env.votingInterval % totalRounds
  let roundsLeft := totalRounds - currentRound
  cur + (roundsLeft * env.votingInterval : ℕ)

def nextRunStart (env : SrEnv) (validAfter : ℕ) : ℤ :=
  ((protocolRun env validAfter + 1) * (sharedRandomNRounds * sharedRandomNPhases) *
    env.votingInterval : ℕ)

def slotStart (env : SrEnv) (now : ℕ) : ℤ := (now / env.votingInterval * env.votingInterval : ℕ)

/-! ### The system -/

/-- Whether preparing for `validAfter` makes a new protocol run of it. -/
def StartsRun (env : SrEnv) (s : SrState) (validAfter : ℕ) : Prop :=
  isPhaseTransition s (getSrProtocolPhase env validAfter) = true ∧
    getSrProtocolPhase env validAfter = .commit

instance (env : SrEnv) (s : SrState) (validAfter : ℕ) : Decidable (StartsRun env s validAfter) :=
  inferInstanceAs (Decidable (_ ∧ _))

def savedNew (env : SrEnv) (now : ℕ) : SavedState where
  state := stateNew env now
  version := srProtoVersion.toNat
  validUntil := getStateValidUntilTime env (curValidAfter env now) now

/-- `sr_state_update` with the valid-after time of the schedule; a new protocol run resets the time
until which the state is valid. -/
def savedUpdate (env : SrEnv) (known : Digest → Bool) (now : ℕ) (random : Option Digest256)
    (N : SavedState) : SavedState :=
  let validAfter := nextValidAfter env now
  { N with
    state := (srStateUpdate env known validAfter random N.state).1
    validUntil :=
      if N.state.validAfter < validAfter ∧ StartsRun env N.state validAfter then
        getStateValidUntilTime env (curValidAfter env now) validAfter
      else N.validUntil }

inductive SavedAction
  | update (known : Digest → Bool) (now : ℕ) (random : Option Digest256)
  | vote (known : Digest → Bool) (commits : List SrCommit) (voterKey : Digest)
  | consensus (previousSrv currentSrv : Option SrSrv)

inductive SavedStep (env : SrEnv) : SavedState → SavedAction → SavedState → Prop
  | update {N : SavedState} {known : Digest → Bool} {now : ℕ} {random : Option Digest256} :
      SavedStep env N (.update known now random) (savedUpdate env known now random N)
  | vote {N : SavedState} {known : Digest → Bool} {commits : List SrCommit} {voterKey : Digest}
      (hparsed : ∀ c ∈ commits, ∃ value reveal,
        srParseCommit c.rsaIdentity value reveal = some c) :
      SavedStep env N (.vote known commits voterKey)
        { N with state := srHandleReceivedCommits env known commits voterKey N.state }
  | consensus {N : SavedState} {previousSrv currentSrv : Option SrSrv} :
      SavedStep env N (.consensus previousSrv currentSrv)
        { N with state := { N.state with
          previousSrv := previousSrv, currentSrv := currentSrv, isSrvFresh := false } }

/-- An authority boots without a state on disk, at a time that `boot` allows. -/
def savedSystem (env : SrEnv) (boot : ℕ → Prop) : System SavedState SavedAction where
  init := fun N => ∃ now known random, boot now ∧
    N = savedUpdate env known now random (savedNew env now)
  step := SavedStep env

/-! ### Conditions -/

/-- An update stays in the protocol run, or makes a new one while the round that is current is the
slot of its valid-after time. -/
def UpdateOk (env : SrEnv) (N : SavedState) (now : ℕ) : Prop :=
  N.state.validAfter < nextValidAfter env now →
    if StartsRun env N.state (nextValidAfter env now) then
      curValidAfter env now = slotStart env (nextValidAfter env now)
    else
      protocolRun env (nextValidAfter env now) = protocolRun env N.state.validAfter

def BootOk (env : SrEnv) (now : ℕ) : Prop :=
  if StartsRun env (stateNew env now) (nextValidAfter env now) then
    curValidAfter env now = slotStart env (nextValidAfter env now)
  else
    curValidAfter env now = slotStart env now ∧
      protocolRun env (nextValidAfter env now) = protocolRun env now

def SavedOk (env : SrEnv) (N : SavedState) : SavedAction → Prop
  | .update _ now _ => UpdateOk env N now
  | .vote _ commits _ => ∀ c ∈ commits, IsWord c.encodedCommit ∧
      (c.encodedReveal = [] ∨ IsWord c.encodedReveal)
  | .consensus _ _ => True

variable {env : SrEnv} {N N' : SavedState}

theorem getStateValidUntilTime_eq (env : SrEnv) (cur : ℤ) (now : ℕ) :
    getStateValidUntilTime env cur now = nextRunStart env now + (cur - slotStart env now) := by
  have hslot : now / env.votingInterval % 24 + 24 * (now / env.votingInterval / 24) =
      now / env.votingInterval := Nat.mod_add_div _ _
  have hlt : now / env.votingInterval % 24 < 24 := Nat.mod_lt _ (by decide)
  simp only [getStateValidUntilTime, nextRunStart, slotStart, protocolRun, sharedRandomNRounds,
    sharedRandomNPhases, Nat.reduceMul]
  have hrounds : 24 - now / env.votingInterval % 24 + now / env.votingInterval =
      (now / env.votingInterval / 24 + 1) * 24 := by omega
  rw [← hrounds, Nat.add_mul]
  push_cast
  ring

theorem nextRunStart_eq_iff (hpos : 0 < env.votingInterval) {a b : ℕ} :
    nextRunStart env a = nextRunStart env b ↔ protocolRun env a = protocolRun env b := by
  have hrounds : 0 < sharedRandomNRounds * sharedRandomNPhases := by decide
  rw [nextRunStart, nextRunStart, Nat.cast_inj, Nat.mul_left_inj hpos.ne',
    Nat.mul_left_inj hrounds.ne', Nat.add_right_cancel_iff]

theorem lt_nextRunStart (hpos : 0 < env.votingInterval) (validAfter : ℕ) :
    (validAfter : ℤ) < nextRunStart env validAfter := by
  have hslot : validAfter / env.votingInterval < (validAfter / env.votingInterval / 24 + 1) * 24 := by
    omega
  have hlt : validAfter < (validAfter / env.votingInterval / 24 + 1) * 24 * env.votingInterval :=
    (Nat.div_lt_iff_lt_mul hpos).mp hslot
  exact Nat.cast_lt.mpr hlt

theorem validUntil_savedUpdate_iff (h : N.validUntil = nextRunStart env N.state.validAfter)
    (hpos : 0 < env.votingInterval) (known : Digest → Bool) (now : ℕ)
    (random : Option Digest256)
    (hvalid : N.state.validAfter < nextValidAfter env now →
      (srStateUpdate env known (nextValidAfter env now) random N.state).1.validAfter =
        nextValidAfter env now) :
    (savedUpdate env known now random N).validUntil =
        nextRunStart env (savedUpdate env known now random N).state.validAfter ↔
      UpdateOk env N now := by
  simp only [savedUpdate, UpdateOk]
  by_cases hnew : N.state.validAfter < nextValidAfter env now
  · rw [hvalid hnew]
    by_cases hstarts : StartsRun env N.state (nextValidAfter env now)
    · simp only [hnew, hstarts, and_self, if_true, true_imp_iff]
      rw [getStateValidUntilTime_eq]
      constructor <;> intro h <;> linarith
    · simp only [hnew, hstarts, and_false, if_false, true_imp_iff, h]
      rw [nextRunStart_eq_iff hpos]
      exact eq_comm
  · have hsame : (srStateUpdate env known (nextValidAfter env now) random N.state).1 = N.state := by
      rw [srStateUpdate, if_pos (Nat.le_of_not_lt hnew)]
    simp only [hnew, false_and, if_false, hsame, h, false_imp_iff]

theorem revealDecode_revealEncode (commit other : SrCommit) :
    revealDecode (revealEncode commit) other = some { other with
      revealTs := commit.revealTs
      randomNumber := commit.randomNumber
      encodedReveal := revealEncode commit } := by
  have hlen : (be64 commit.revealTs ++ commit.randomNumber.toList).length = 40 := by simp
  have hdrop : (be64 commit.revealTs ++ commit.randomNumber.toList).drop 8 =
      commit.randomNumber.toList := List.drop_left' (length_be64 _)
  have hshort : ¬ (revealEncode commit).length > srRevealBase64Len := by
    rw [revealEncode, length_base64Encode, hlen]
    decide
  have hdecode := base64Decode_base64Encode 40 hlen.le
  rw [revealDecode, if_neg hshort]
  nth_rewrite 1 [revealEncode]
  rw [hdecode]
  simp only [hlen, if_true, hdrop, getBe64_be64, zeroFill_toList_self]

theorem be64_append_ne_nil (ts : UInt64) (b : Digest256) : be64 ts ++ b.toList ≠ [] := by
  intro hnil
  have hlen := congrArg List.length hnil
  rw [List.length_append, length_be64] at hlen
  exact absurd hlen (by simp)

theorem restorable_srGenerateOurCommit (digest256 : Bytes → Digest256) (rsaIdentity : Digest)
    (timestamp : UInt64) (randomNumber : Digest256) :
    Restorable (srGenerateOurCommit digest256 rsaIdentity timestamp randomNumber) where
  decoded := decoded_srGenerateOurCommit digest256 rsaIdentity timestamp randomNumber
  valid := rfl
  commitWord := isWord_base64Encode (be64_append_ne_nil _ _)
  reveal := .inr ⟨isWord_base64Encode (be64_append_ne_nil _ _),
    fun other => revealDecode_revealEncode { commitNew rsaIdentity with
      randomNumber := randomNumber, commitTs := timestamp, revealTs := timestamp } other⟩

theorem revealDecode_congr {encoded : Bytes} {commit commit' : SrCommit}
    (h : revealDecode encoded commit = some commit') (other : SrCommit) :
    revealDecode encoded other = some { other with
      revealTs := commit'.revealTs
      randomNumber := commit'.randomNumber
      encodedReveal := encoded } ∧ commit'.encodedReveal = encoded ∧
      commit'.encodedCommit = commit.encodedCommit := by
  unfold revealDecode at h ⊢
  split_ifs at h ⊢ with hlong
  cases hdecode : base64Decode 40 encoded with
  | none =>
    rw [hdecode] at h
    cases h
  | some decoded =>
    rw [hdecode] at h
    simp only at h ⊢
    split_ifs at h ⊢ with hlen
    obtain rfl := Option.some.inj h
    exact ⟨rfl, rfl, rfl⟩

theorem restorable_parsed {commit : SrCommit} {digest : Digest} {value : Bytes}
    {reveal : Option Bytes} (h : srParseCommit digest value reveal = some commit)
    (hcommit : IsWord commit.encodedCommit)
    (hreveal : commit.encodedReveal = [] ∨ IsWord commit.encodedReveal) :
    Restorable { commit with valid := true } := by
  have hdec := decoded_srParseCommit h
  refine ⟨hdec, rfl, hcommit, ?_⟩
  obtain ⟨parsed, hparsed, hrest⟩ := Option.bind_eq_some_iff.mp h
  cases reveal with
  | none =>
    obtain rfl := Option.some.inj hrest
    unfold commitDecode at hparsed
    split at hparsed
    · cases hparsed
    · obtain rfl := Option.some.inj hparsed
      exact .inl ⟨rfl, rfl, rfl⟩
  | some encoded =>
    obtain ⟨-, hencoded, -⟩ := revealDecode_congr hrest commit
    refine .inr ⟨hreveal.resolve_left fun hnil => ?_, fun other => ?_⟩
    · -- the empty string is no reveal
      rw [hencoded] at hnil
      subst hnil
      cases hrest
    · rw [show ({ commit with valid := true } : SrCommit).encodedReveal = encoded from hencoded]
      exact (revealDecode_congr hrest other).1

theorem restorable_copy {saved commit : SrCommit} (hsaved : Restorable saved)
    (hcommit : Restorable commit) : Restorable (srStateCopyRevealInfo saved commit) where
  decoded := hsaved.decoded
  valid := hsaved.valid
  commitWord := hsaved.commitWord
  reveal := hcommit.reveal

/-! ### Runs -/

structure SavedInv (env : SrEnv) (N : SavedState) : Prop where
  commits : CommitsInv env N.state
  restorable : ∀ c ∈ N.state.commits, Restorable c
  phase : N.state.phase = getSrProtocolPhase env N.state.validAfter
  version : N.version = srProtoVersion.toNat
  validUntil : N.validUntil = nextRunStart env N.state.validAfter

theorem restorable_addOurCommit {s : SrState} (validAfter : ℕ) (random : Option Digest256)
    (h : ∀ c ∈ s.commits, Restorable c) :
    ∀ c ∈ (addOurCommit env validAfter random s).commits, Restorable c := by
  cases random with
  | none => exact h
  | some randomNumber =>
    intro c hc
    obtain hc | rfl := mem_commitAddToState hc
    · exact h c hc
    · exact restorable_srGenerateOurCommit _ _ _ _

theorem restorable_prepareStage {s : SrState} (known : Digest → Bool) (validAfter : ℕ)
    (random : Option Digest256) (h : ∀ c ∈ s.commits, Restorable c) :
    ∀ c ∈ (prepareStage env known validAfter random s).commits, Restorable c := by
  obtain ⟨-, -, fresh, hnil, -, heq⟩ | ⟨-, -, heq⟩ | ⟨-, -, -, heq⟩ | ⟨-, heq⟩ :=
    prepareStage_cases env known validAfter random s
  · rw [heq]
    exact restorable_addOurCommit validAfter random (by rw [hnil]; intro c hc; cases hc)
  · rw [heq]
    exact h
  · rw [heq]
    exact restorable_addOurCommit validAfter random h
  · rw [heq]
    exact h

theorem restorable_handleCommit {s : SrState} (known : Digest → Bool) (voterKey : Digest)
    {commit : SrCommit} (h : ∀ c ∈ s.commits, Restorable c)
    (hcommit : Restorable { commit with valid := true }) :
    ∀ c ∈ (handleCommit env known voterKey s commit).commits, Restorable c := by
  rw [handleCommit]
  split_ifs
  · rw [saveCommitToState]
    cases s.phase with
    | commit =>
      intro c hc
      obtain hc | rfl := mem_commitAddToState hc
      · exact h c hc
      · exact hcommit
    | reveal =>
      intro c hc
      obtain ⟨saved, hsaved, rfl⟩ := List.mem_map.mp hc
      split_ifs
      · exact restorable_copy (h saved hsaved) hcommit
      · exact h saved hsaved
  · exact h

theorem restorable_srHandleReceivedCommits {s : SrState} (known : Digest → Bool)
    (voterKey : Digest) {commits : List SrCommit} (h : ∀ c ∈ s.commits, Restorable c)
    (hcommits : ∀ c ∈ commits, Restorable { c with valid := true }) :
    ∀ c ∈ (srHandleReceivedCommits env known commits voterKey s).commits, Restorable c := by
  have hrun : ∀ (l : List SrCommit) (s : SrState),
      (∀ c ∈ l, Restorable { c with valid := true }) → (∀ c ∈ s.commits, Restorable c) →
        ∀ c ∈ (l.foldl (handleCommit env known voterKey) s).commits, Restorable c := by
    intro l
    induction l with
    | nil => exact fun s _ hs => hs
    | cons c l ih =>
      intro s hl hs
      exact ih _ (fun c hc => hl c (List.mem_cons_of_mem _ hc))
        (restorable_handleCommit known voterKey hs (hl c List.mem_cons_self))
  exact hrun _ s (fun c hc => hcommits c (mem_foreachDelCurrent hc)) h

theorem validAfter_srStateUpdate {s : SrState} (h : CommitsInv env s) (known : Digest → Bool)
    {validAfter : ℕ} (random : Option Digest256) (hnew : s.validAfter < validAfter) :
    (srStateUpdate env known validAfter random s).1.validAfter = validAfter :=
  (srStateUpdate_spec known random h hnew).2.2.2.1

theorem savedInv_update (hpos : 0 < env.votingInterval) (h : SavedInv env N)
    (known : Digest → Bool) {now : ℕ} (random : Option Digest256) (hok : UpdateOk env N now) :
    SavedInv env (savedUpdate env known now random N) := by
  have huntil := (validUntil_savedUpdate_iff h.validUntil hpos known now random
    (validAfter_srStateUpdate h.commits known random)).mpr hok
  by_cases hnew : N.state.validAfter < nextValidAfter env now
  · obtain ⟨-, hcommits, hphase, hvalid, hinv⟩ :=
      srStateUpdate_spec known random h.commits hnew
    refine ⟨hinv, ?_, ?_, h.version, huntil⟩
    · intro c hc
      rw [savedUpdate] at hc
      simp only [hcommits] at hc
      exact restorable_prepareStage known _ random h.restorable c hc
    · rw [savedUpdate]
      simp only [hphase, hvalid]
  · have hsame : (srStateUpdate env known (nextValidAfter env now) random N.state).1 = N.state := by
      rw [srStateUpdate, if_pos (Nat.le_of_not_lt hnew)]
    refine ⟨?_, ?_, ?_, h.version, huntil⟩
    · rw [savedUpdate, hsame]
      exact h.commits
    · rw [savedUpdate, hsame]
      exact h.restorable
    · rw [savedUpdate, hsame]
      exact h.phase

theorem nextValidAfter_pos (hpos : 0 < env.votingInterval) (now : ℕ) :
    0 < nextValidAfter env now := by
  have hlt : (now : ℤ) < getNextValidAfterTime env.votingInterval now :=
    lt_startOfIntervalAfter (by exact_mod_cast hpos) now
  rw [nextValidAfter]
  omega

theorem savedInv_boot (hpos : 0 < env.votingInterval) (known : Digest → Bool) {now : ℕ}
    (random : Option Digest256) (hok : BootOk env now) :
    SavedInv env (savedUpdate env known now random (savedNew env now)) := by
  have hnew : (stateNew env now).validAfter < nextValidAfter env now := nextValidAfter_pos hpos now
  have hempty : CommitsInv env (stateNew env now) := commitsInv_of_commits_nil rfl rfl
  obtain ⟨-, hcommits, hphase, hvalid, hinv⟩ := srStateUpdate_spec known random hempty hnew
  refine ⟨hinv, ?_, ?_, rfl, ?_⟩
  · intro c hc
    rw [savedUpdate] at hc
    simp only [savedNew, hcommits] at hc
    refine restorable_prepareStage known _ random ?_ c hc
    intro c hc
    cases hc
  · rw [savedUpdate]
    simp only [savedNew, hphase, hvalid]
  · simp only [savedUpdate, savedNew, hvalid, hnew, true_and]
    rw [BootOk] at hok
    split_ifs at hok ⊢
    · rw [getStateValidUntilTime_eq, hok, sub_self, add_zero]
    · rw [getStateValidUntilTime_eq, hok.1, sub_self, add_zero, nextRunStart_eq_iff hpos, hok.2]

theorem savedInv_step (hpos : 0 < env.votingInterval) {a : SavedAction} (h : SavedInv env N)
    (hok : SavedOk env N a) (hstep : SavedStep env N a N') : SavedInv env N' := by
  cases hstep with
  | update => exact savedInv_update hpos h _ _ hok
  | @vote known commits voterKey hparsed =>
    obtain ⟨hinv, hext⟩ := srHandleReceivedCommits_spec known voterKey h.commits
      (decoded_of_parsed hparsed)
    refine ⟨hinv, ?_, ?_, h.version, ?_⟩
    · refine restorable_srHandleReceivedCommits known voterKey h.restorable fun c hc => ?_
      obtain ⟨value, reveal, hparse⟩ := hparsed c hc
      exact restorable_parsed hparse (hok c hc).1 (hok c hc).2
    · simp only [hext.phase, hext.validAfter]
      exact h.phase
    · simp only [hext.validAfter]
      exact h.validUntil
  | consensus =>
    exact ⟨⟨h.commits.nodup, h.commits.decoded, h.commits.verified, h.commits.noRevealRounds⟩,
      h.restorable, h.phase, h.version, h.validUntil⟩

theorem savedInv_reached (hpos : 0 < env.votingInterval)
    (hr : Reached (savedSystem env (BootOk env)) (SavedOk env) N) : SavedInv env N := by
  refine hr.invariant ⟨?_, fun N a N' h hok hstep => savedInv_step hpos h hok hstep⟩
  rintro N ⟨now, known, random, hboot, rfl⟩
  exact savedInv_boot hpos known random hboot

/-- The state is valid until the next protocol run begins; it is accepted from disk up to this second
and then holds the same phase, commits and values (the number of reveals is a `uint64_t`). -/
structure SavedWell (env : SrEnv) (N : SavedState) : Prop where
  validUntil : N.validUntil = nextRunStart env N.state.validAfter
  accepted : ∀ now : ℤ, diskStateValidate now (diskStateUpdate N) = true ↔
    now ≤ nextRunStart env N.state.validAfter
  restored : (∀ srv, N.state.previousSrv = some srv → SrvFits srv) →
    (∀ srv, N.state.currentSrv = some srv → SrvFits srv) →
    ∀ now, ∃ loaded, diskStateParse env now (diskStateUpdate N) = some loaded ∧
      loaded.validUntil = N.validUntil ∧ loaded.state.validAfter = N.state.validAfter ∧
      loaded.state.phase = N.state.phase ∧ loaded.state.commits = N.state.commits ∧
      loaded.state.previousSrv = N.state.previousSrv ∧
      loaded.state.currentSrv = N.state.currentSrv

theorem SavedInv.well (hpos : 0 < env.votingInterval) (h : SavedInv env N) : SavedWell env N where
  validUntil := h.validUntil
  accepted now := by
    have hlt := lt_nextRunStart hpos N.state.validAfter
    have hversion : ¬ (N.version = 0 ∨ N.version > srProtoVersion.toNat) := by
      rw [h.version]
      decide
    simp only [diskStateValidate, diskStateUpdate, h.validUntil]
    rw [if_neg hversion, if_neg (not_le.mpr hlt)]
    split_ifs with hexpired
    · exact iff_of_false (by decide) (not_le.mpr hexpired)
    · exact iff_of_true rfl (not_lt.mp hexpired)
  restored hprevious hcurrent now :=
    ⟨_, diskStateParse_update env now N hprevious hcurrent h.restorable h.commits.nodup,
      rfl, rfl, h.phase.symm, rfl, rfl, rfl⟩

def hourlyEnv : SrEnv where
  digest256 := fun _ => zeroFill 32 []
  smartlistSort := id
  votingInterval := 3600
  ourIdentity := zeroFill 20 []

end SharedRandom
