/-
Entry guards (`entrynodes.c`).

A guard is a record in memory, and the sampled, confirmed and primary guards of a selection are
lists of addresses of guards.  What an operation learns from outside (the time, the consensus and
the options, which relays or bridges there are, what is chosen at random) is an `Env`, and each
operation has one of its own.  `primaryLimit` records, for the reader only, how many primary guards
there could be when the primary list was last made.
-/
import LibEltor.Transition
import Mathlib

open Transition

namespace EntryGuards

/-! ### Guards and selections -/

inductive Reachable
  | no
  | yes
  | maybe
deriving DecidableEq

/-- A relay or bridge, by its digest (`none` when it is not known) and bridge address. -/
structure Candidate (D A : Type) where
  identity : Option D
  bridgeAddr : Option A

/-- `entry_guard_t`, without names, versions and path bias counts. -/
structure Guard (D A : Type) extends Candidate D A where
  isPersistent : Bool
  sampledIdx : ℕ
  confirmedIdx : ℤ
  sampledOnDate : ℤ
  confirmedOnDate : ℤ
  unlistedSinceDate : ℤ
  currentlyListed : Bool
  isReachable : Reachable
  isFilteredGuard : Bool
  isUsableFilteredGuard : Bool
  isPrimary : Bool
  isPending : Bool
  failingSince : ℤ
  lastTriedToConnect : ℤ

/-- `guard_selection_t`, with the memory of its guards. -/
structure Selection (D A : Type) where
  isBridges : Bool
  mem : ℕ → Guard D A
  fresh : ℕ
  sampledEntryGuards : List ℕ
  confirmedEntryGuards : List ℕ
  primaryEntryGuards : List ℕ
  nextSampledIdx : ℕ
  nextConfirmedIdx : ℤ
  primaryGuardsUpToDate : Bool
  lastTimeOnInternet : ℤ
  primaryLimit : ℕ

structure Env (D A : Type) where
  now : ℤ
  consensusIsMissing : Bool
  isListed : Candidate D A → Bool
  passesFilter : Candidate D A → Bool
  hasDescriptor : Candidate D A → Bool
  /-- The relays that can be guards, or the bridges. -/
  guards : List (Candidate D A)
  /-- What a bloom filter takes for sampled without reason. -/
  falsePositive : Candidate D A → Bool
  /-- The choice made for the guard that gets this index in the sample. -/
  choose : ℕ → ℕ
  randomTime : ℕ → ℤ
  nPrimaryGuards : ℕ
  minFilteredSampleSize : ℕ
  maxSampleByPct : ℕ → ℕ
  maxSampleSizeAbsolute : ℕ
  removeIfUnlistedSince : ℤ
  maybeRemoveIfSampledBefore : ℤ
  removeIfConfirmedBefore : ℤ
  internetLikelyDownInterval : ℤ

variable {D A : Type} [DecidableEq D] [DecidableEq A]

def Selection.update (s : Selection D A) (p : ℕ) (f : Guard D A → Guard D A) : Selection D A :=
  { s with mem := Function.update s.mem p (f (s.mem p)) }

def Selection.updateAll (s : Selection D A) (f : Guard D A → Guard D A) (ps : List ℕ) :
    Selection D A :=
  ps.foldl (fun s p => s.update p f) s

/-! ### Flags -/

def getRetrySchedule (failingSince now : ℤ) (isPrimary : Bool) : ℤ :=
  let tdiff := if failingSince < now then now - failingSince else 0
  if tdiff ≤ 6 * 3600 then if isPrimary then 10 * 60 else 1 * 60 * 60
  else if tdiff ≤ 4 * 86400 then if isPrimary then 90 * 60 else 4 * 60 * 60
  else if tdiff ≤ 7 * 86400 then if isPrimary then 4 * 60 * 60 else 18 * 60 * 60
  else if isPrimary then 9 * 60 * 60 else 36 * 60 * 60

def Guard.maybeReachable (g : Guard D A) : Guard D A :=
  { g with
    isReachable := .maybe
    isUsableFilteredGuard := g.isFilteredGuard || g.isUsableFilteredGuard }

def considerRetry (env : Env D A) (g : Guard D A) : Guard D A :=
  if g.isReachable ≠ .no then g
  else if g.bridgeAddr.isSome && !env.hasDescriptor g.toCandidate then g
  else if g.lastTriedToConnect = 0 ∨
      g.lastTriedToConnect + getRetrySchedule g.failingSince env.now g.isPrimary ≤ env.now then
    g.maybeReachable
  else g

def markGuardMaybeReachable (g : Guard D A) : Guard D A :=
  if g.isReachable ≠ .no then g else g.maybeReachable

def setFilteredFlags (env : Env D A) (g : Guard D A) : Guard D A :=
  if env.passesFilter g.toCandidate then
    considerRetry env { g with
      isFilteredGuard := true
      isUsableFilteredGuard := decide (g.isReachable ≠ .no) }
  else { g with
    isFilteredGuard := false
    isUsableFilteredGuard := false }

def entryGuardSetFilteredFlags (env : Env D A) (s : Selection D A) (p : ℕ) : Selection D A :=
  let wasFiltered := (s.mem p).isFilteredGuard
  let s := s.update p (setFilteredFlags env)
  { s with
    primaryGuardsUpToDate :=
      s.primaryGuardsUpToDate && decide (wasFiltered = (s.mem p).isFilteredGuard) }

def entryGuardsUpdateFilteredSets (env : Env D A) (s : Selection D A) : Selection D A :=
  s.sampledEntryGuards.foldl (entryGuardSetFilteredFlags env) s

/-! ### The sample -/

def numReachableFilteredGuards (env : Env D A) (obeys : Guard D A → Bool) (s : Selection D A) :
    Selection D A × ℕ :=
  let s := s.updateAll (considerRetry env) s.sampledEntryGuards
  (s, s.sampledEntryGuards.countP fun p => obeys (s.mem p) && (s.mem p).isUsableFilteredGuard)

/-- `have_sampled_guard_with_id`, and `get_sampled_guard_for_bridge` for bridges. -/
def alreadySampled (s : Selection D A) (c : Candidate D A) : Bool :=
  if s.isBridges then
    match s.sampledEntryGuards.find? fun p => decide ((s.mem p).bridgeAddr = c.bridgeAddr) with
    | none => false
    | some p => c.identity.all fun id => decide ((s.mem p).identity = some id)
  else s.sampledEntryGuards.any fun p => decide ((s.mem p).identity = c.identity)

def newGuard (env : Env D A) (s : Selection D A) (c : Candidate D A) : Guard D A :=
  { toCandidate := c
    isPersistent := c.identity.isSome
    sampledIdx := s.nextSampledIdx
    confirmedIdx := -1
    sampledOnDate := env.randomTime s.fresh
    confirmedOnDate := 0
    unlistedSinceDate := 0
    currentlyListed := true
    isReachable := .maybe
    isFilteredGuard := false
    isUsableFilteredGuard := false
    isPrimary := false
    isPending := false
    failingSince := 0
    lastTriedToConnect := 0 }

def addToSampleImpl (env : Env D A) (s : Selection D A) (c : Candidate D A) : Selection D A :=
  entryGuardSetFilteredFlags env
    { s with
      mem := Function.update s.mem s.fresh (newGuard env s c)
      fresh := s.fresh + 1
      sampledEntryGuards := s.sampledEntryGuards ++ [s.fresh]
      nextSampledIdx := s.nextSampledIdx + 1 } s.fresh

/-- `entry_guard_add_to_sample` and `entry_guard_add_bridge_to_sample`. -/
def addToSample (env : Env D A) (s : Selection D A) (c : Candidate D A) : Option (Selection D A) :=
  if alreadySampled s c then none else some (addToSampleImpl env s c)

def getMaxSampleSize (env : Env D A) (isBridges : Bool) (nGuards : ℕ) : ℕ :=
  if isBridges then 2 ^ 31 - 1
  else max (min (env.maxSampleByPct nGuards) env.maxSampleSizeAbsolute) env.minFilteredSampleSize

def getEligibleGuards (env : Env D A) (s : Selection D A) : List (Candidate D A) :=
  env.guards.filter fun c => !alreadySampled s c && !(!s.isBridges && env.falsePositive c)

/-- The loop of `entry_guards_expand_sample`; the first argument is the number of rounds that the
eligible guards are enough for. -/
def expandLoop (env : Env D A) (maxSample : ℕ) :
    ℕ → List (Candidate D A) → ℕ → Selection D A → Selection D A
  | 0, _, _, s => s
  | n + 1, eligible, usable, s =>
    if env.minFilteredSampleSize ≤ usable then s
    else if maxSample ≤ s.sampledEntryGuards.length then s
    else
      let k := env.choose s.nextSampledIdx % eligible.length
      match eligible[k]? with
      | none => s
      | some c =>
        match addToSample env s c with
        | none => s
        | some s' =>
          expandLoop env maxSample n (eligible.eraseIdx k)
            (usable + if (s'.mem s.fresh).isUsableFilteredGuard then 1 else 0) s'

def entryGuardsExpandSample (env : Env D A) (s : Selection D A) : Selection D A :=
  if !s.isBridges && env.consensusIsMissing then s
  else
    let (s, usable) := numReachableFilteredGuards env (fun _ => true) s
    let eligible := getEligibleGuards env s
    expandLoop env (getMaxSampleSize env s.isBridges env.guards.length) eligible.length eligible
      usable s

/-! ### Consensus -/

def removeKeeporder (l : List ℕ) (p : ℕ) : List ℕ := l.filter fun q => decide (q ≠ p)

def removeGuardFromConfirmedAndPrimaryLists (s : Selection D A) (p : ℕ) : Selection D A :=
  let wasPrimary := (s.mem p).isPrimary
  let wasConfirmed := decide (0 ≤ (s.mem p).confirmedIdx)
  let s := { s with primaryEntryGuards := removeKeeporder s.primaryEntryGuards p }
  let s := if wasPrimary then s.update p fun g => { g with isPrimary := false } else s
  let s := { s with confirmedEntryGuards := removeKeeporder s.confirmedEntryGuards p }
  if wasConfirmed then s.update p fun g => { g with confirmedIdx := -1, confirmedOnDate := 0 }
  else s

def updatePresence (env : Env D A) (p : ℕ) (g : Guard D A) : Guard D A :=
  let isListed := env.isListed g.toCandidate
  let g :=
    if isListed && !g.currentlyListed then
      { g with currentlyListed := true, unlistedSinceDate := 0 }
    else if !isListed && g.currentlyListed then
      { g with currentlyListed := false, unlistedSinceDate := env.randomTime p }
    else g
  if g.currentlyListed && decide (g.unlistedSinceDate ≠ 0) then { g with unlistedSinceDate := 0 }
  else if !g.currentlyListed && decide (g.unlistedSinceDate = 0) then
    { g with unlistedSinceDate := env.randomTime p }
  else g

def presenceChanges (env : Env D A) (p : ℕ) (g : Guard D A) : Bool :=
  decide (g.currentlyListed ≠ (updatePresence env p g).currentlyListed) ||
    (g.currentlyListed && decide (g.unlistedSinceDate ≠ 0)) ||
    (!g.currentlyListed && decide (g.unlistedSinceDate = 0))

def sampledGuardsUpdateConsensusPresence (env : Env D A) (s : Selection D A) :
    Selection D A × Bool :=
  (s.sampledEntryGuards.foldl (fun s p => s.update p (updatePresence env p)) s,
    s.sampledEntryGuards.any fun p => presenceChanges env p (s.mem p))

def isObsolete (env : Env D A) (g : Guard D A) : Bool :=
  (!g.currentlyListed && decide (g.unlistedSinceDate < env.removeIfUnlistedSince)) ||
    (decide (g.sampledOnDate < env.maybeRemoveIfSampledBefore) &&
      (decide (g.confirmedOnDate = 0) || decide (g.confirmedOnDate < env.removeIfConfirmedBefore)))

def pruneGuard (env : Env D A) (s : Selection D A) (p : ℕ) : Selection D A :=
  if isObsolete env (s.mem p) then
    removeGuardFromConfirmedAndPrimaryLists
      { s with sampledEntryGuards := removeKeeporder s.sampledEntryGuards p } p
  else s

def sampledGuardsPruneObsoleteEntries (env : Env D A) (s : Selection D A) : Selection D A × Bool :=
  (s.sampledEntryGuards.foldl (pruneGuard env) s,
    s.sampledEntryGuards.any fun p => isObsolete env (s.mem p))

def sampledGuardsUpdateFromConsensus (env : Env D A) (s : Selection D A) : Selection D A :=
  if !s.isBridges && env.consensusIsMissing then s
  else
    let (s, presence) := sampledGuardsUpdateConsensusPresence env s
    let (s, pruned) := sampledGuardsPruneObsoleteEntries env s
    if presence || pruned then
      entryGuardsUpdateFilteredSets env { s with primaryGuardsUpToDate := false }
    else s

def sortSampled (mem : ℕ → Guard D A) (l : List ℕ) : List ℕ :=
  l.insertionSort fun p q => (mem p).sampledIdx ≤ (mem q).sampledIdx

def sortConfirmed (mem : ℕ → Guard D A) (l : List ℕ) : List ℕ :=
  l.insertionSort fun p q => (mem p).confirmedIdx ≤ (mem q).confirmedIdx

/-- The guards get the numbers from `n` on. -/
def numberConfirmed (s : Selection D A) : List ℕ → ℤ → Selection D A
  | [], _ => s
  | p :: ps, n => numberConfirmed (s.update p fun g => { g with confirmedIdx := n }) ps (n + 1)

def isConfirmed (mem : ℕ → Guard D A) (p : ℕ) : Bool := decide (0 ≤ (mem p).confirmedIdx)

def entryGuardsUpdateConfirmed (s : Selection D A) : Selection D A :=
  let confirmed := sortConfirmed s.mem (s.sampledEntryGuards.filter (isConfirmed s.mem))
  let s := numberConfirmed s confirmed 0
  { s with
    nextConfirmedIdx := confirmed.length
    confirmedEntryGuards := sortSampled s.mem confirmed }

def makeGuardConfirmed (env : Env D A) (s : Selection D A) (p : ℕ) : Selection D A :=
  if (decide ((s.mem p).confirmedOnDate ≠ 0) && isConfirmed s.mem p) ||
      s.confirmedEntryGuards.contains p then s
  else
    let n := s.nextConfirmedIdx
    let s := s.update p fun g => { g with confirmedOnDate := env.randomTime p, confirmedIdx := n }
    { s with
      nextConfirmedIdx := n + 1
      confirmedEntryGuards := sortSampled s.mem (s.confirmedEntryGuards ++ [p])
      primaryGuardsUpToDate := false }

/-! ### Primary guards -/

structure SampleFlags where
  excludeConfirmed : Bool
  excludePrimary : Bool
  excludePending : Bool
  noUpdatePrimary : Bool
  excludeNoDescriptor : Bool

def isCandidate (env : Env D A) (obeys : Guard D A → Bool) (flags : SampleFlags) (g : Guard D A) :
    Bool :=
  obeys g && g.isUsableFilteredGuard && !(flags.excludeConfirmed && decide (0 ≤ g.confirmedIdx)) &&
    !(flags.excludePrimary && g.isPrimary) && !(flags.excludePending && g.isPending) &&
    !(flags.excludeNoDescriptor && !env.hasDescriptor g.toCandidate)

/-- `first_reachable_filtered_entry_guard`; the first argument is what a call of
`entry_guards_update_primary` does. -/
def firstReachableFilteredEntryGuard (updatePrimary : Selection D A → Option (Selection D A))
    (env : Env D A) (obeys : Guard D A → Bool) (flags : SampleFlags) (s : Selection D A) :
    Option (Selection D A × Option ℕ) :=
  let s := s.updateAll (considerRetry env) s.sampledEntryGuards
  let (s, n) := numReachableFilteredGuards env obeys s
  let s := if n < env.minFilteredSampleSize then entryGuardsExpandSample env s else s
  let s? := if flags.excludePrimary && !s.primaryGuardsUpToDate && !flags.noUpdatePrimary then
    updatePrimary s else some s
  s?.map fun s =>
    let s := s.updateAll (considerRetry env) s.sampledEntryGuards
    (s, s.sampledEntryGuards.find? fun p => isCandidate env obeys flags (s.mem p))

def setPrimary (isPrimary : Bool) (g : Guard D A) : Guard D A := { g with isPrimary }

def addConfirmedPrimary (nPrimary : ℕ) : List ℕ → Selection D A → List ℕ → Selection D A × List ℕ
  | [], s, new => (s, new)
  | p :: ps, s, new =>
    if nPrimary ≤ new.length then (s, new)
    else if !(s.mem p).isFilteredGuard then addConfirmedPrimary nPrimary ps s new
    else addConfirmedPrimary nPrimary ps (s.update p (setPrimary true)) (new ++ [p])

def keepOldPrimary (nPrimary : ℕ) : List ℕ → Selection D A → List ℕ → Selection D A × List ℕ
  | [], s, new => (s, new)
  | p :: ps, s, new =>
    if p ∈ new then keepOldPrimary nPrimary ps s new
    else if new.length < nPrimary ∧ (s.mem p).isFilteredGuard = true then
      keepOldPrimary nPrimary ps (s.update p (setPrimary true)) (new ++ [p])
    else keepOldPrimary nPrimary ps (s.update p (setPrimary false)) new

/-- The sampled guards that become primary, at most so many.  A call of
`entry_guards_update_primary` would find `running` set, and its assertion fails. -/
def fillPrimary (env : Env D A) : ℕ → Selection D A → List ℕ → Option (Selection D A × List ℕ)
  | 0, s, new => some (s, new)
  | n + 1, s, new =>
    match firstReachableFilteredEntryGuard (fun _ => none) env (fun _ => true)
      ⟨true, true, false, true, false⟩ s with
    | none => none
    | some (s, none) => some (s, new)
    | some (s, some p) => fillPrimary env n (s.update p (setPrimary true)) (new ++ [p])

/-- `none` if the assertion that `running` is not set fails. -/
def entryGuardsUpdatePrimary (env : Env D A) (s : Selection D A) : Option (Selection D A) :=
  let old := s.primaryEntryGuards
  let s := { s with primaryGuardsUpToDate := true }
  let (s, new) := addConfirmedPrimary env.nPrimaryGuards s.confirmedEntryGuards s []
  let (s, new) := keepOldPrimary env.nPrimaryGuards old s new
  (fillPrimary env (env.nPrimaryGuards - new.length) s new).map fun (s, new) =>
    { s with
      primaryEntryGuards := if s.primaryEntryGuards = new then new else sortSampled s.mem new
      primaryGuardsUpToDate := true
      primaryLimit := env.nPrimaryGuards }

def updatePrimaryIfNeeded (env : Env D A) (s : Selection D A) : Option (Selection D A) :=
  if s.primaryGuardsUpToDate then some s else entryGuardsUpdatePrimary env s

def entryGuardsUpdateAll (env : Env D A) (s : Selection D A) : Option (Selection D A) :=
  entryGuardsUpdatePrimary env (entryGuardsUpdateConfirmed (entryGuardsUpdateFilteredSets env
    (sampledGuardsUpdateFromConsensus env s)))

/-! ### Guards for circuits -/

/-- What the choice of a guard for a circuit depends on besides the selection. -/
structure Usage (D A : Type) where
  obeys : Guard D A → Bool
  restrictionIsReachability : Bool
  needDescriptor : Bool
  nPrimaryToUse : ℕ

def setTried (env : Env D A) (g : Guard D A) : Guard D A := { g with lastTriedToConnect := env.now }

def setPending (env : Env D A) (g : Guard D A) : Guard D A :=
  { g with isPending := true, lastTriedToConnect := env.now }

/-- The loop of `select_primary_guard_for_circuit`, with the usable guards so far and the number of
guards considered. -/
def primaryLoop (env : Env D A) (u : Usage D A) :
    List ℕ → Selection D A → List ℕ → ℕ → Selection D A × List ℕ
  | [], s, usable, _ => (s, usable)
  | p :: ps, s, usable, considered =>
    let s := s.update p (considerRetry env)
    if !u.obeys (s.mem p) then
      if u.restrictionIsReachability then primaryLoop env u ps s usable considered
      else if u.nPrimaryToUse ≤ considered + 1 ∧ usable ≠ [] then (s, usable)
      else primaryLoop env u ps s usable (considered + 1)
    else if (s.mem p).isReachable = .no ∨
        (u.needDescriptor && !env.hasDescriptor (s.mem p).toCandidate) = true then
      primaryLoop env u ps s usable considered
    else
      let s := s.update p (setTried env)
      if u.nPrimaryToUse ≤ considered + 1 then (s, usable ++ [p])
      else primaryLoop env u ps s (usable ++ [p]) (considered + 1)

def selectPrimaryGuardForCircuit (env : Env D A) (u : Usage D A) (s : Selection D A) :
    Selection D A × Option ℕ :=
  let (s, usable) := primaryLoop env u s.primaryEntryGuards s [] 0
  (s, usable[env.choose 0 % usable.length]?)

def confirmedLoop (env : Env D A) (u : Usage D A) :
    List ℕ → Selection D A → Selection D A × Option ℕ
  | [], s => (s, none)
  | p :: ps, s =>
    if (s.mem p).isPrimary then confirmedLoop env u ps s
    else if !u.obeys (s.mem p) then confirmedLoop env u ps s
    else
      let s := s.update p (considerRetry env)
      if (s.mem p).isUsableFilteredGuard && !(s.mem p).isPending &&
          !(u.needDescriptor && !env.hasDescriptor (s.mem p).toCandidate) then
        (s.update p (setPending env), some p)
      else confirmedLoop env u ps s

def selectFilteredGuardForCircuit (env : Env D A) (u : Usage D A) (s : Selection D A) :
    Option (Selection D A × Option ℕ) :=
  (firstReachableFilteredEntryGuard (entryGuardsUpdatePrimary env) env u.obeys
    ⟨true, true, true, false, u.needDescriptor⟩ s).map fun (s, chosen) =>
      match chosen with
      | none => (s, none)
      | some p => (s.update p (setPending env), some p)

def selectEntryGuardForCircuit (env : Env D A) (u : Usage D A) (s : Selection D A) :
    Option (Selection D A × Option ℕ) :=
  (updatePrimaryIfNeeded env s).bind fun s =>
    match selectPrimaryGuardForCircuit env u s with
    | (s, some p) => some (s, some p)
    | (s, none) =>
      match confirmedLoop env u s.confirmedEntryGuards s with
      | (s, some p) => some (s, some p)
      | (s, none) =>
        (selectFilteredGuardForCircuit env u s).map fun (s, chosen) =>
          match chosen with
          | some p => (s, some p)
          | none => (s.updateAll markGuardMaybeReachable s.sampledEntryGuards, none)

def noteGuardFailure (env : Env D A) (g : Guard D A) : Guard D A :=
  { g with
    isReachable := .no
    isUsableFilteredGuard := false
    isPending := false
    failingSince := if g.failingSince = 0 then env.now else g.failingSince }

def reached (g : Guard D A) : Guard D A :=
  { g with
    isReachable := .yes
    isUsableFilteredGuard := g.isFilteredGuard || g.isUsableFilteredGuard
    isPending := false
    failingSince := 0 }

def markPrimaryGuardsMaybeReachable (env : Env D A) (s : Selection D A) : Option (Selection D A) :=
  (updatePrimaryIfNeeded env s).map fun s =>
    s.updateAll markGuardMaybeReachable s.primaryEntryGuards

def entryGuardsNoteGuardSuccess (env : Env D A) (s : Selection D A) (p : ℕ) :
    Option (Selection D A) :=
  let lastTimeOnInternet := s.lastTimeOnInternet
  let s : Selection D A := { s.update p reached with lastTimeOnInternet := env.now }
  (if (s.mem p).confirmedIdx < 0 then updatePrimaryIfNeeded env (makeGuardConfirmed env s p)
    else some s).bind fun s =>
      if !(s.mem p).isPrimary &&
        decide (lastTimeOnInternet + env.internetLikelyDownInterval < env.now) then markPrimaryGuardsMaybeReachable env s else some s

def retryUntilUp (env : Env D A) : List ℕ → Selection D A → Selection D A
  | [], s => s
  | p :: ps, s =>
    let s := s.update p (considerRetry env)
    if (s.mem p).isReachable ≠ .no then s else retryUntilUp env ps s

def learnIdentity (id : D) (g : Guard D A) : Guard D A :=
  if g.identity = none then { g with identity := some id, isPersistent := true }
  else if g.identity = some id then { g with isPersistent := true }
  else g

def entryGuardLearnedBridgeIdentity (s : Selection D A) (addr : A) (id : D) : Selection D A :=
  if s.isBridges then
    match s.sampledEntryGuards.find? fun p => decide ((s.mem p).bridgeAddr = some addr) with
    | none => s
    | some p => s.update p (learnIdentity id)
  else s

/-! ### State file -/

structure GuardLine (D A : Type) extends Candidate D A where
  sampledOn : ℤ
  sampledIdx : ℕ
  unlistedSince : Option ℤ
  listed : Bool
  confirmed : Option (ℤ × ℤ)

def encodeForState (g : Guard D A) (denseSampledIdx : ℕ) : GuardLine D A :=
  { toCandidate := g.toCandidate
    sampledOn := g.sampledOnDate
    sampledIdx := denseSampledIdx
    unlistedSince := if 0 < g.unlistedSinceDate then some g.unlistedSinceDate else none
    listed := g.currentlyListed
    confirmed := if 0 ≤ g.confirmedIdx then some (g.confirmedOnDate, g.confirmedIdx) else none }

def parseFromState (now : ℤ) (line : GuardLine D A) : Guard D A :=
  { toCandidate := line.toCandidate
    isPersistent := true
    sampledIdx := line.sampledIdx
    confirmedIdx := line.confirmed.elim (-1) Prod.snd
    sampledOnDate := if line.sampledOn ≤ 0 then now else line.sampledOn
    confirmedOnDate := max 0 (line.confirmed.elim 0 Prod.fst)
    unlistedSinceDate := max 0 (line.unlistedSince.getD 0)
    currentlyListed := line.listed
    isReachable := .maybe
    isFilteredGuard := false
    isUsableFilteredGuard := false
    isPrimary := false
    isPending := false
    failingSince := 0
    lastTriedToConnect := 0 }

def updateGuardsInState (s : Selection D A) : List (GuardLine D A) :=
  ((s.sampledEntryGuards.filter fun p => (s.mem p).isPersistent).mapIdx fun i p =>
    encodeForState (s.mem p) i)

def loadLine (now : ℤ) (s : Selection D A) (line : GuardLine D A) : Selection D A :=
  { s with
    mem := Function.update s.mem s.fresh (parseFromState now line)
    fresh := s.fresh + 1
    sampledEntryGuards := s.sampledEntryGuards ++ [s.fresh]
    nextSampledIdx := if s.nextSampledIdx ≤ line.sampledIdx then line.sampledIdx + 1
      else s.nextSampledIdx }

def Selection.wiped (s : Selection D A) : Selection D A :=
  { s with
    sampledEntryGuards := []
    confirmedEntryGuards := []
    primaryEntryGuards := []
    nextSampledIdx := 0
    nextConfirmedIdx := 0
    primaryGuardsUpToDate := false
    lastTimeOnInternet := 0
    primaryLimit := 0 }

def loadGuardsFromState (env : Env D A) (lines : List (GuardLine D A)) (s : Selection D A) :
    Option (Selection D A) :=
  let s := lines.foldl (loadLine env.now) s.wiped
  entryGuardsUpdateAll env { s with sampledEntryGuards := sortSampled s.mem s.sampledEntryGuards }

inductive Action (D A : Type)
  | updateAll (env : Env D A)
  | expandSample (env : Env D A)
  | selectForCircuit (env : Env D A) (u : Usage D A)
  | noteFailure (env : Env D A) (p : ℕ)
  | noteSuccess (env : Env D A) (p : ℕ)
  | cancel (p : ℕ)
  | markPrimaryMaybeReachable (env : Env D A)
  | allPrimaryAreDown (env : Env D A)
  | learnedBridgeIdentity (addr : A) (id : D)
  | saveAndLoad (env : Env D A)

def perform (s : Selection D A) : Action D A → Option (Selection D A)
  | .updateAll env => entryGuardsUpdateAll env s
  | .expandSample env => some (entryGuardsExpandSample env s)
  | .selectForCircuit env u => (selectEntryGuardForCircuit env u s).map Prod.fst
  | .noteFailure env p =>
    if p ∈ s.sampledEntryGuards then some (s.update p (noteGuardFailure env)) else some s
  | .noteSuccess env p =>
    if p ∈ s.sampledEntryGuards then entryGuardsNoteGuardSuccess env s p else some s
  | .cancel p =>
    if p ∈ s.sampledEntryGuards then some (s.update p fun g => { g with isPending := false })
    else some s
  | .markPrimaryMaybeReachable env => markPrimaryGuardsMaybeReachable env s
  | .allPrimaryAreDown env =>
    (updatePrimaryIfNeeded env s).map fun s => retryUntilUp env s.primaryEntryGuards s
  | .learnedBridgeIdentity addr id => some (entryGuardLearnedBridgeIdentity s addr id)
  | .saveAndLoad env => loadGuardsFromState env (updateGuardsInState s) s

def system (D A : Type) [DecidableEq D] [DecidableEq A] : System (Selection D A) (Action D A) where
  init s := s = s.wiped
  step s a s' := perform s a = some s'

end EntryGuards
