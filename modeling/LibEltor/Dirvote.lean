/-
The consensus of a list of votes (`feature/dirauth/dirvote.c`) and what is checked of each vote when
it is parsed (`feature/dirparse/ns_parse.c`).

`networkstatusComputeConsensus` is none where an assertion fails.  The parser has a vote's
fresh-until and its valid-until late enough after its valid-after, and does not compare them to each
other, so the median fresh-until may be too late for the median valid-until.  No other assertion
fails (`networkstatusComputeConsensus_isSome_iff`): medians inherit what relates the fields of each
vote, no two parameters of a vote have one keyword, and no two routers one identity.
-/
import Mathlib
import LibEltor.Dircollate
import LibEltor.DirvoteParams

open OrderStatistic

namespace Dirvote

structure Networkstatus where
  validAfter : ℤ
  freshUntil : ℤ
  validUntil : ℤ
  voteSeconds : ℤ
  distSeconds : ℤ
  knownFlags : List Bytes
  netParams : Option (List Bytes)
  routerstatusList : List VoteRouterstatus
deriving DecidableEq, Repr

/-! ### What the parser checks -/

def minVoteInterval : ℤ := 300

def minVoteIntervalTesting : ℤ := 10

def voteInterval (testingTorNetwork : Bool) : ℤ :=
  if testingTorNetwork then minVoteIntervalTesting else minVoteInterval

def minVoteSeconds : ℤ := 2

def minDistSeconds : ℤ := 2

def maxKnownFlagsInVote : ℕ := 64

/-- Both times are compared to `validAfter`. -/
def timesAccepted (testingTorNetwork : Bool) (v : Networkstatus) : Bool :=
  decide (v.validAfter + voteInterval testingTorNetwork ≤ v.freshUntil) &&
    decide (v.validAfter + voteInterval testingTorNetwork * 2 ≤ v.validUntil) &&
    decide (minVoteSeconds ≤ v.voteSeconds) && decide (minDistSeconds ≤ v.distSeconds)

/-- What is parsed of a router: a percentage, and a summary when there is said to be one. -/
def entryAccepted (rs : VoteRouterstatus) : Bool :=
  rs.guardfractionPercentage.all (fun p => decide (p ≤ 100)) &&
    (!rs.hasExitsummary || rs.exitsummary.isSome)

def ed25519Ids (l : List VoteRouterstatus) : List Bytes :=
  (l.filter fun rs => rs.hasEd25519Listing && !rs.ed25519Id.all fun c => decide (c = 0)).map
    VoteRouterstatus.ed25519Id

def parseVoteAccepts (testingTorNetwork : Bool) (v : Networkstatus) : Bool :=
  timesAccepted testingTorNetwork v &&
    (inOrder v.knownFlags && decide (v.knownFlags.length ≤ maxKnownFlagsInVote)) &&
    v.netParams.all paramsAccepted &&
    (v.routerstatusList.all entryAccepted &&
      inOrder (v.routerstatusList.map VoteRouterstatus.identityDigest) &&
      decide (ed25519Ids v.routerstatusList).Nodup)

structure Times where
  validAfter : ℤ
  freshUntil : ℤ
  validUntil : ℤ
  voteSeconds : ℤ
  distSeconds : ℤ
deriving DecidableEq, Repr

def medianTimes (testingTorNetwork : Bool) (votes : List Networkstatus) : Option Times :=
  let t : Times := {
    validAfter := median (votes.map Networkstatus.validAfter)
    freshUntil := median (votes.map Networkstatus.freshUntil)
    validUntil := median (votes.map Networkstatus.validUntil)
    voteSeconds := median (votes.map Networkstatus.voteSeconds)
    distSeconds := median (votes.map Networkstatus.distSeconds) }
  if ¬t.validAfter + voteInterval testingTorNetwork ≤ t.freshUntil then none
  else if ¬t.freshUntil + voteInterval testingTorNetwork ≤ t.validUntil then none
  else if ¬minVoteSeconds ≤ t.voteSeconds then none
  else if ¬minDistSeconds ≤ t.distSeconds then none
  else some t

/-! ### The most frequent entry of a router -/

def compareBytes (a b : Bytes) : ℤ := if a < b then -1 else if b < a then 1 else 0

def cmpField (width : ℕ) (a b : ℤ) : ℤ := ((b - a).bmod (2 ^ width)).sign

def compareVoteRs (a b : VoteRouterstatus) : ℤ :=
  let r := [compareBytes a.identityDigest b.identityDigest,
    compareBytes a.descriptorDigest b.descriptorDigest,
    cmpField 64 a.publishedOn b.publishedOn,
    compareBytes b.nickname a.nickname,
    ((a.ipv4Addr : ℤ) - b.ipv4Addr).sign,
    cmpField 32 a.ipv4Orport b.ipv4Orport,
    cmpField 32 a.ipv4Dirport b.ipv4Dirport]
  (r.find? fun x => decide (x ≠ 0)).getD 0

/-- The loop over the sorted entries: the most frequent one so far, and the run being read. -/
structure MostLoop where
  most : Option VoteRouterstatus
  mostN : ℕ
  mostPublished : ℤ
  cur : Option VoteRouterstatus
  curN : ℕ

namespace MostLoop

def settle (s : MostLoop) : MostLoop :=
  match s.cur with
  | none => s
  | some cur =>
    if s.mostN < s.curN ∨ (s.curN = s.mostN ∧ s.mostPublished < cur.publishedOn) then
      { s with most := some cur, mostN := s.curN, mostPublished := cur.publishedOn }
    else s

def step (s : MostLoop) (rs : VoteRouterstatus) : MostLoop :=
  match s.cur with
  | some cur =>
    if compareVoteRs cur rs = 0 then { s with curN := s.curN + 1 }
    else { s.settle with curN := 1, cur := some rs }
  | none => { s with curN := 1, cur := some rs }

end MostLoop

/-- None where there is no entry at all. -/
def computeRouterstatusConsensus (votes : List VoteRouterstatus) : Option VoteRouterstatus :=
  ((votes.mergeSort fun a b => decide (compareVoteRs a b ≤ 0)).foldl MostLoop.step
    ⟨none, 0, 0, none, 0⟩).settle.most

/-! ### The routers of the consensus -/

structure RsOut where
  identityDigest : Bytes
  descriptorDigest : Bytes
  guardfractionPercentage : Option ℕ
  /-- The summaries of the entries with the descriptor. -/
  exitsummaries : List Bytes
deriving DecidableEq, Repr

/-- The key of the entries that reflect the consensus; none where two of them have different ones. -/
def edConsensusVal (reflects : List (ℕ × VoteRouterstatus)) :
    List (ℕ × VoteRouterstatus) → Option Bytes → Option (Option Bytes)
  | [], val => some val
  | p :: rest, val =>
    if p ∈ reflects then
      match val with
      | some ed => if ed = p.2.ed25519Id then edConsensusVal reflects rest val else none
      | none => edConsensusVal reflects rest (some p.2.ed25519Id)
    else edConsensusVal reflects rest val

def stringPos (flags : List Bytes) (fl : Bytes) : Option ℕ := flags.findIdx? fun f => decide (f = fl)

def consensusFlags (votes : List Networkstatus) : List Bytes :=
  ((votes.flatMap Networkstatus.knownFlags ++ [Bytes.ascii "NoEdConsensus"]).mergeSort
    fun a b => decide (a ≤ b)).dedup

def buildFlagMap (flags : List Bytes) (votes : List Networkstatus) : Option (List (List ℕ)) :=
  votes.mapM fun v => v.knownFlags.mapM (stringPos flags)

def flagCount (flagMap : List (List ℕ)) (listing : List (ℕ × VoteRouterstatus)) (f : ℕ) : ℕ :=
  (listing.map fun p => (flagMap.getD p.1 []).zipIdx.countP fun g =>
    decide (g.1 = f) && p.2.flags.testBit g.2).sum

def nFlagVoters (flagMap : List (List ℕ)) (f : ℕ) : ℕ := (flagMap.map fun m => m.count f).sum

def flagChosen (flags : List Bytes) (flagMap : List (List ℕ)) (listing : List (ℕ × VoteRouterstatus))
    (fl : Bytes) : Bool :=
  match stringPos flags fl with
  | some f => decide (nFlagVoters flagMap f / 2 < flagCount flagMap listing f)
  | none => false

def routerGuardfraction (isGuard : Bool) (matchingDescs : List VoteRouterstatus) :
    Option (Option ℕ) :=
  let inputs := matchingDescs.filterMap VoteRouterstatus.guardfractionPercentage
  let percentage := if isGuard && decide (2 < inputs.length) then some (median inputs) else none
  if percentage.any fun p => decide (100 < p) then none
  -- as bandwidths are added up, only a guard's is shared out
  else if percentage.isSome && !isGuard then none
  else some percentage

def routerExitsummaries (identityDigest descriptorDigest : Bytes)
    (matchingDescs : List VoteRouterstatus) : Option (List Bytes) :=
  if matchingDescs.any fun vsr => decide (identityDigest ≠ vsr.identityDigest) then none
  else
    (matchingDescs.filter fun vsr => vsr.hasExitsummary &&
      decide (descriptorDigest = vsr.descriptorDigest)).mapM VoteRouterstatus.exitsummary

/-- None where an assertion fails, none inside where the router is left out. -/
def computeRouter (totalAuthorities : ℕ) (flags : List Bytes) (flagMap : List (List ℕ))
    (reflects : List (ℕ × VoteRouterstatus)) (vrsLst : List (Option VoteRouterstatus)) :
    Option (Option RsOut) := do
  let listing := entries vrsLst
  let matchingDescs := listing.map Prod.snd
  let chosen := flagChosen flags flagMap listing
  let isGuard := chosen (Bytes.ascii "Guard") && !chosen (Bytes.ascii "MiddleOnly")
  let _ ← edConsensusVal reflects listing none
  if listing.length ≤ totalAuthorities / 2 then some none
  else
    let current ← matchingDescs.getLast?
    let rs ← computeRouterstatusConsensus matchingDescs
    if current.identityDigest ≠ rs.identityDigest then none
    else if !chosen (Bytes.ascii "Running") || !chosen (Bytes.ascii "Valid") then some none
    else
      let guardfraction ← routerGuardfraction isGuard matchingDescs
      let exitsummaries ←
        routerExitsummaries current.identityDigest rs.descriptorDigest matchingDescs
      some (some ⟨current.identityDigest, rs.descriptorDigest, guardfraction, exitsummaries⟩)

def computeRouters (order : TableOrder) (votes : List Networkstatus) (totalAuthorities : ℕ) :
    Option (List (Option RsOut)) := do
  let flags := consensusFlags votes
  let flagMap ← buildFlagMap flags votes
  let collator ← dircollatorNew votes.length totalAuthorities
  let collator ← (votes.map Networkstatus.routerstatusList).foldlM Dircollator.addVote collator
  let collated ← collator.collate order
  collated.allRsaSha1Lst.mapM fun id => do
    let e ← KeyedList.get Slots.key id collated.byCollatedRsaSha1
    computeRouter totalAuthorities flags flagMap collated.reflects e.vrsLst

structure Consensus where
  times : Times
  params : List (Bytes × ℤ)
  routers : List (Option RsOut)
  weightScale : ℤ
deriving DecidableEq, Repr

def getIntermediateParamValue (paramList : List (Bytes × ℤ)) (keyword : Bytes) (defaultVal : ℤ) : ℤ :=
  match paramList.filter fun p => decide (p.1 = keyword ++ [61]) with
  | [p] => p.2
  | _ => defaultVal

def bwWeightScale : ℤ := 10000

def computeWeightScale (params : List (Bytes × ℤ)) : Option ℤ :=
  let weightScale := max 1 (getIntermediateParamValue params (Bytes.ascii "bwweightscale") bwWeightScale)
  if 0 < weightScale ∧ weightScale ≤ int32Max then some weightScale else none

/-- None where an assertion fails, none inside where there are no votes. -/
def networkstatusComputeConsensus (testingTorNetwork : Bool) (order : TableOrder)
    (votes : List Networkstatus) (totalAuthorities : ℕ) : Option (Option Consensus) :=
  if totalAuthorities < votes.length ∨ totalAuthorities = 0 then none
  else if votes = [] then some none
  else do
    let times ← medianTimes testingTorNetwork votes
    let params ← dirvoteComputeParams (votes.map fun v => v.netParams.getD []) totalAuthorities
    let routers ← computeRouters order votes totalAuthorities
    let weightScale ← computeWeightScale params
    some (some ⟨times, params, routers, weightScale⟩)

theorem timesAccepted_iff {testing : Bool} {v : Networkstatus} : timesAccepted testing v = true ↔
    (v.validAfter + voteInterval testing ≤ v.freshUntil ∧
      v.validAfter + voteInterval testing * 2 ≤ v.validUntil) ∧
    minVoteSeconds ≤ v.voteSeconds ∧ minDistSeconds ≤ v.distSeconds := by
  simp only [timesAccepted, Bool.and_eq_true, decide_eq_true_iff]
  tauto

/-- Whenever half of the votes are over at a time, half of them are stale an interval before. -/
def StaleInTime (testingTorNetwork : Bool) (votes : List Networkstatus) : Prop :=
  ∀ t : ℤ, votes.length ≤ 2 * (votes.countP fun v => decide (v.validUntil ≤ t)) →
    votes.length ≤
      2 * (votes.countP fun v => decide (v.freshUntil + voteInterval testingTorNetwork ≤ t))

theorem median_map_le_iff {votes : List Networkstatus} (hne : votes ≠ []) (f : Networkstatus → ℤ)
    (t : ℤ) : median (votes.map f) ≤ t ↔
      votes.length ≤ 2 * (votes.countP fun v => decide (f v ≤ t)) := by
  have hne' : votes.map f ≠ [] := by simpa using hne
  rw [median_le_iff hne', List.length_map, List.countP_map]
  rfl

theorem staleInTime_iff {testing : Bool} {votes : List Networkstatus} (hne : votes ≠ []) :
    StaleInTime testing votes ↔ median (votes.map Networkstatus.freshUntil) + voteInterval testing ≤
      median (votes.map Networkstatus.validUntil) := by
  have hfresh : ∀ t, (votes.length ≤
      2 * (votes.countP fun v => decide (v.freshUntil + voteInterval testing ≤ t))) ↔
      median (votes.map Networkstatus.freshUntil) + voteInterval testing ≤ t := by
    intro t
    rw [← le_sub_iff_add_le, median_map_le_iff hne]
    simp only [le_sub_iff_add_le]
  constructor
  · intro h
    exact (hfresh _).mp (h _ ((median_map_le_iff hne _ _).mp le_rfl))
  · intro h t ht
    exact (hfresh t).mpr (h.trans ((median_map_le_iff hne _ t).mpr ht))

theorem median_ge {votes : List Networkstatus} (hne : votes ≠ []) {f : Networkstatus → ℤ} {b : ℤ}
    (h : ∀ v ∈ votes, b ≤ f v) : b ≤ median (votes.map f) := by
  obtain ⟨v, hv, heq⟩ := List.mem_map.mp (median_mem (show votes.map f ≠ [] by simpa using hne))
  rw [← heq]
  exact h v hv

theorem medianTimes_isSome_iff {testing : Bool} {votes : List Networkstatus} (hne : votes ≠ [])
    (h : ∀ v ∈ votes, timesAccepted testing v = true) :
    (∃ t, medianTimes testing votes = some t) ↔ StaleInTime testing votes := by
  have hfresh : median (votes.map Networkstatus.validAfter) ≤
      median (votes.map Networkstatus.freshUntil) - voteInterval testing := by
    refine median_le_median hne (fun x => x - voteInterval testing) fun v hv x hx => ?_
    have hv' := (timesAccepted_iff.mp (h v hv)).1.1
    omega
  have hvote := median_ge hne fun v hv => (timesAccepted_iff.mp (h v hv)).2.1
  have hdist := median_ge hne fun v hv => (timesAccepted_iff.mp (h v hv)).2.2
  rw [staleInTime_iff hne]
  unfold medianTimes
  simp only
  rw [if_neg (by omega)]
  split_ifs with hstale
  · simp [hstale]
  · simpa using hstale

/-! ### Entries of accepted votes -/

theorem mapM_isSome {α β : Type} {l : List α} {f : α → Option β} (h : ∀ a ∈ l, ∃ b, f a = some b) :
    ∃ bs, l.mapM f = some bs := by
  induction l with
  | nil => exact ⟨[], rfl⟩
  | cons a l ih =>
    obtain ⟨b, hb⟩ := h a List.mem_cons_self
    obtain ⟨bs, hbs⟩ := ih fun a' ha' => h a' (List.mem_cons_of_mem a ha')
    exact ⟨b :: bs, by rw [List.mapM_cons, hb, hbs]; rfl⟩

theorem buildFlagMap_isSome (votes : List Networkstatus) :
    ∃ flagMap, buildFlagMap (consensusFlags votes) votes = some flagMap := by
  refine mapM_isSome fun v hv => mapM_isSome fun fl hfl => ?_
  have hmem : fl ∈ consensusFlags votes := by
    rw [consensusFlags, List.mem_dedup, (List.mergeSort_perm _ _).mem_iff]
    exact List.mem_append_left _ (List.mem_flatMap.mpr ⟨v, hv, hfl⟩)
  have hsome : (stringPos (consensusFlags votes) fl).isSome = true := by
    rw [stringPos, List.findIdx?_isSome, List.any_eq_true]
    exact ⟨fl, hmem, decide_eq_true rfl⟩
  exact Option.isSome_iff_exists.mp hsome

theorem edConsensusVal_isSome {reflects listing : List (ℕ × VoteRouterstatus)} {ed : Bytes}
    (h : ∀ p ∈ listing, p ∈ reflects → p.2.ed25519Id = ed) {val : Option Bytes}
    (hval : val = none ∨ val = some ed) :
    ∃ val', edConsensusVal reflects listing val = some val' := by
  induction listing generalizing val with
  | nil => exact ⟨val, rfl⟩
  | cons p rest ih =>
    have hrest := fun p' hp' => h p' (List.mem_cons_of_mem p hp')
    by_cases hp : p ∈ reflects
    · have hed := h p List.mem_cons_self hp
      obtain rfl | rfl := hval
      · rw [edConsensusVal, if_pos hp]
        exact ih hrest (.inr (congrArg some hed))
      · rw [edConsensusVal, if_pos hp, if_pos hed.symm]
        exact ih hrest (.inr rfl)
    · unfold edConsensusVal
      rw [if_neg hp]
      exact ih hrest hval

namespace MostLoop

/-- Both are entries of the list, and nothing is the most frequent only before a run is over. -/
structure Inv (l : List VoteRouterstatus) (s : MostLoop) : Prop where
  most_mem : ∀ rs, s.most = some rs → rs ∈ l
  cur_mem : ∀ rs, s.cur = some rs → rs ∈ l
  mostN : s.most = none → s.mostN = 0
  curN : s.cur ≠ none → 0 < s.curN

variable {l : List VoteRouterstatus} {s : MostLoop} {rs : VoteRouterstatus}

theorem Inv.settle (h : s.Inv l) : s.settle.Inv l ∧ (s.cur ≠ none → ∃ rs, s.settle.most = some rs) := by
  unfold MostLoop.settle
  cases hcur : s.cur with
  | none => exact ⟨h, fun hne => absurd rfl hne⟩
  | some cur =>
    have hmem := h.cur_mem cur hcur
    simp only
    split_ifs with hmost
    · refine ⟨⟨?_, ?_, nofun, fun _ => h.curN (by simp [hcur])⟩, fun _ => ⟨cur, rfl⟩⟩
      · rintro rs ⟨⟩
        exact hmem
      · rintro rs ⟨⟩
        exact hmem
    · refine ⟨h, fun _ => Option.ne_none_iff_exists'.mp fun hnone => hmost (.inl ?_)⟩
      rw [h.mostN hnone]
      exact h.curN (by simp [hcur])

theorem Inv.step (h : s.Inv l) (hrs : rs ∈ l) : (s.step rs).Inv l ∧ (s.step rs).cur ≠ none := by
  unfold MostLoop.step
  cases hcur : s.cur with
  | none =>
    refine ⟨⟨h.most_mem, ?_, h.mostN, fun _ => Nat.one_pos⟩, by simp⟩
    rintro rs' ⟨⟩
    exact hrs
  | some cur =>
    simp only
    split_ifs
    · refine ⟨⟨h.most_mem, ?_, h.mostN, fun _ => Nat.succ_pos _⟩, by simp⟩
      rintro rs' ⟨⟩
      exact h.cur_mem cur hcur
    · obtain ⟨hsettle, -⟩ := h.settle
      refine ⟨⟨hsettle.most_mem, ?_, hsettle.mostN, fun _ => Nat.one_pos⟩, by simp⟩
      rintro rs' ⟨⟩
      exact hrs

theorem Inv.foldl (h : s.Inv l) {rest : List VoteRouterstatus} (hrest : ∀ rs ∈ rest, rs ∈ l) :
    (rest.foldl MostLoop.step s).Inv l ∧
      (rest ≠ [] ∨ s.cur ≠ none → (rest.foldl MostLoop.step s).cur ≠ none) := by
  induction rest generalizing s with
  | nil => exact ⟨h, fun hne => hne.resolve_left (not_not.mpr rfl)⟩
  | cons rs rest ih =>
    obtain ⟨hstep, hcur⟩ := h.step (hrest rs List.mem_cons_self)
    obtain ⟨hinv, hne⟩ := ih hstep fun rs' hrs' => hrest rs' (List.mem_cons_of_mem rs hrs')
    exact ⟨hinv, fun _ => hne (.inr hcur)⟩

end MostLoop

theorem computeRouterstatusConsensus_isSome {l : List VoteRouterstatus} (hne : l ≠ []) :
    ∃ rs ∈ l, computeRouterstatusConsensus l = some rs := by
  have hperm := List.mergeSort_perm l fun a b => decide (compareVoteRs a b ≤ 0)
  have hempty : MostLoop.Inv l ⟨none, 0, 0, none, 0⟩ := ⟨nofun, nofun, fun _ => rfl, by simp⟩
  obtain ⟨hinv, hcur⟩ := hempty.foldl fun rs hrs => hperm.mem_iff.mp hrs
  have hne' : l.mergeSort (fun a b => decide (compareVoteRs a b ≤ 0)) ≠ [] := fun heq => hne (by
    rw [← List.length_eq_zero_iff, ← hperm.length_eq, heq, List.length_nil])
  obtain ⟨hsettle, hmost⟩ := hinv.settle
  obtain ⟨rs, hrs⟩ := hmost (hcur (.inl hne'))
  exact ⟨rs, hsettle.most_mem rs hrs, hrs⟩

theorem guardfraction_le {rs : VoteRouterstatus} (h : entryAccepted rs = true) {p : ℕ}
    (hp : rs.guardfractionPercentage = some p) : p ≤ 100 := by
  rw [entryAccepted, Bool.and_eq_true, hp] at h
  exact of_decide_eq_true h.1

theorem exists_exitsummary {rs : VoteRouterstatus} (h : entryAccepted rs = true)
    (hhas : rs.hasExitsummary = true) : ∃ summary, rs.exitsummary = some summary := by
  rw [entryAccepted, Bool.and_eq_true, hhas] at h
  exact Option.isSome_iff_exists.mp h.2

theorem routerGuardfraction_isSome (isGuard : Bool) {l : List VoteRouterstatus}
    (h : ∀ rs ∈ l, entryAccepted rs = true) : ∃ p, routerGuardfraction isGuard l = some p := by
  unfold routerGuardfraction
  simp only
  split_ifs with hguard hbig hshared hbig hshared
  · -- the median is one of the percentages
    rw [Bool.and_eq_true, decide_eq_true_iff] at hguard
    have hne : l.filterMap VoteRouterstatus.guardfractionPercentage ≠ [] := fun hnil => by
      rw [hnil] at hguard
      exact absurd hguard.2 (by decide)
    obtain ⟨rs, hrs, hp⟩ := List.mem_filterMap.mp (median_mem hne)
    have hle := guardfraction_le (h rs hrs) hp
    exact absurd (of_decide_eq_true hbig) (by omega)
  · rw [Bool.and_eq_true] at hguard
    rw [hguard.1] at hshared
    cases hshared
  · exact ⟨_, rfl⟩
  · cases hbig
  · cases hshared
  · exact ⟨_, rfl⟩

theorem routerExitsummaries_isSome {id : Bytes} (descriptorDigest : Bytes)
    {l : List VoteRouterstatus}
    (h : ∀ rs ∈ l, rs.identityDigest = id ∧ entryAccepted rs = true) :
    ∃ summaries, routerExitsummaries id descriptorDigest l = some summaries := by
  have hall : ¬(l.any fun vsr => decide (id ≠ vsr.identityDigest)) = true := by
    rw [List.any_eq_true]
    rintro ⟨rs, hrs, hne⟩
    exact of_decide_eq_true hne (h rs hrs).1.symm
  rw [routerExitsummaries, if_neg hall]
  refine mapM_isSome fun rs hrs => ?_
  obtain ⟨hmem, hhas⟩ := List.mem_filter.mp hrs
  rw [Bool.and_eq_true] at hhas
  exact exists_exitsummary (h rs hmem).2 hhas.1

theorem computeRouter_isSome (total : ℕ) (flags : List Bytes) (flagMap : List (List ℕ))
    {reflects : List (ℕ × VoteRouterstatus)} {e : Slots Bytes}
    (h : Collated.Array (fun rs => entryAccepted rs = true) (fun i rs => (i, rs) ∈ reflects) e) :
    ∃ out, computeRouter total flags flagMap reflects e.vrsLst = some out := by
  obtain ⟨hentry, ed, hed⟩ := h
  have hslot : ∀ p ∈ entries e.vrsLst, e.vrsLst[p.1]? = some (some p.2) :=
    fun p hp => getElem?_of_mem_entries hp
  have hmatch : ∀ vsr ∈ (entries e.vrsLst).map Prod.snd,
      vsr.identityDigest = e.key ∧ entryAccepted vsr = true := by
    intro vsr hvsr
    obtain ⟨p, hp, rfl⟩ := List.mem_map.mp hvsr
    exact hentry p.1 p.2 (hslot p hp)
  obtain ⟨val, hval⟩ := edConsensusVal_isSome
    (fun p hp hmem => hed p.1 p.2 (hslot p hp) hmem) (.inl rfl)
  rw [computeRouter, hval]
  simp only [Option.bind_eq_bind, Option.bind_some]
  by_cases hfew : (entries e.vrsLst).length ≤ total / 2
  · exact ⟨none, if_pos hfew⟩
  · have hne : (entries e.vrsLst).map Prod.snd ≠ [] := fun hnil => hfew (by
      rw [← List.length_map Prod.snd, hnil]
      exact Nat.zero_le _)
    obtain ⟨current, hcurrent⟩ := Option.ne_none_iff_exists'.mp fun hnone =>
      hne (List.getLast?_eq_none_iff.mp hnone)
    obtain ⟨rs, hrs, hmost⟩ := computeRouterstatusConsensus_isSome hne
    have hid := (hmatch current (List.mem_of_getLast? hcurrent)).1
    have hsame : ¬current.identityDigest ≠ rs.identityDigest :=
      not_not.mpr (hid.trans (hmatch rs hrs).1.symm)
    rw [if_neg hfew, hcurrent, hmost]
    simp only [Option.bind_some]
    rw [if_neg hsame]
    split_ifs
    · exact ⟨none, rfl⟩
    · obtain ⟨p, hp⟩ := routerGuardfraction_isSome
        (flagChosen flags flagMap (entries e.vrsLst) (Bytes.ascii "Guard") &&
          !flagChosen flags flagMap (entries e.vrsLst) (Bytes.ascii "MiddleOnly"))
        fun vsr hvsr => (hmatch vsr hvsr).2
      obtain ⟨summaries, hsummaries⟩ := routerExitsummaries_isSome rs.descriptorDigest hmatch
      rw [hp, hid, hsummaries]
      exact ⟨_, rfl⟩

/-! ### Accepted votes -/

theorem nodup_identityDigest {testing : Bool} {v : Networkstatus}
    (h : parseVoteAccepts testing v = true) :
    (v.routerstatusList.map VoteRouterstatus.identityDigest).Nodup := by
  simp only [parseVoteAccepts, Bool.and_eq_true] at h
  refine (pairwise_of_inOrder h.2.1.2).imp fun {a b} hlt => ?_
  rintro rfl
  exact List.lt_irrefl a hlt

theorem entryAccepted_of_accepts {testing : Bool} {v : Networkstatus}
    (h : parseVoteAccepts testing v = true) {rs : VoteRouterstatus} (hrs : rs ∈ v.routerstatusList) :
    entryAccepted rs = true := by
  simp only [parseVoteAccepts, Bool.and_eq_true] at h
  exact List.all_eq_true.mp h.2.1.1 rs hrs

theorem timesAccepted_of_accepts {testing : Bool} {v : Networkstatus}
    (h : parseVoteAccepts testing v = true) : timesAccepted testing v = true := by
  simp only [parseVoteAccepts, Bool.and_eq_true] at h
  exact h.1.1.1

theorem paramsAccepted_of_accepts {testing : Bool} {v : Networkstatus}
    (h : parseVoteAccepts testing v = true) : paramsAccepted (v.netParams.getD []) = true := by
  simp only [parseVoteAccepts, Bool.and_eq_true] at h
  cases hparams : v.netParams with
  | none => rfl
  | some params =>
    have hacc := h.1.2
    rw [hparams] at hacc
    exact hacc

theorem computeRouters_isSome {testing : Bool} (order : TableOrder) {votes : List Networkstatus}
    {total : ℕ} (hlen : votes.length ≤ total)
    (h : ∀ v ∈ votes, parseVoteAccepts testing v = true) :
    ∃ routers, computeRouters order votes total = some routers := by
  obtain ⟨flagMap, hflags⟩ := buildFlagMap_isSome votes
  have hls : ∀ l ∈ votes.map Networkstatus.routerstatusList,
      (l.map VoteRouterstatus.identityDigest).Nodup ∧ ∀ rs ∈ l, entryAccepted rs = true := by
    intro l hl
    obtain ⟨v, hv, rfl⟩ := List.mem_map.mp hl
    exact ⟨nodup_identityDigest (h v hv), fun rs hrs => entryAccepted_of_accepts (h v hv) hrs⟩
  obtain ⟨dc, hadd, hready⟩ := Dircollator.foldlM_addVote hls
    (ready_dircollatorNew (fun rs => entryAccepted rs = true) votes.length total) (by simp)
  obtain ⟨collated, hcollate, hsame⟩ := Dircollator.collate_isSome hready order
  rw [computeRouters, hflags, dircollatorNew, if_pos hlen]
  simp only [Option.bind_eq_bind, Option.bind_some, hadd, hcollate]
  refine mapM_isSome fun id hid => ?_
  obtain ⟨e, he, hget, -⟩ := KeyedList.exists_get (hsame.all id hid)
  rw [hget]
  exact computeRouter_isSome total (consensusFlags votes) flagMap (hsame.array e he)

theorem getIntermediateParamValue_le {params : List (Bytes × ℤ)} {max : ℤ}
    (h : ∀ p ∈ params, p.2 ≤ max) (keyword : Bytes) {defaultVal : ℤ} (hdefault : defaultVal ≤ max) :
    getIntermediateParamValue params keyword defaultVal ≤ max := by
  unfold getIntermediateParamValue
  split
  · rename_i p hp
    have hmem : p ∈ params.filter fun p => decide (p.1 = keyword ++ [61]) := by
      rw [hp]
      exact List.mem_singleton.mpr rfl
    exact h p (List.mem_of_mem_filter hmem)
  · exact hdefault

theorem computeWeightScale_isSome {params : List (Bytes × ℤ)} (h : ∀ p ∈ params, p.2 ≤ int32Max) :
    ∃ weightScale, computeWeightScale params = some weightScale := by
  have hle := getIntermediateParamValue_le h (Bytes.ascii "bwweightscale")
    (show bwWeightScale ≤ int32Max by decide)
  have hone : (1 : ℤ) ≤ int32Max := by decide
  exact ⟨_, if_pos ⟨lt_max_of_lt_left Int.one_pos, max_le hone hle⟩⟩

def sameOrder : TableOrder := ⟨id, id, List.Perm.refl, List.Perm.refl⟩

def exampleRouterstatus (identity : UInt8) : VoteRouterstatus where
  identityDigest := [identity]
  descriptorDigest := [identity]
  publishedOn := 0
  nickname := Bytes.ascii "relay"
  ipv4Addr := 0
  ipv4Orport := 9001
  ipv4Dirport := 0
  flags := 3
  hasEd25519Listing := true
  ed25519Id := [identity]
  guardfractionPercentage := none
  hasExitsummary := true
  exitsummary := some (Bytes.ascii "reject 1-65535")

def exampleVote (freshUntil : ℤ) : Networkstatus where
  validAfter := 0
  freshUntil := freshUntil
  validUntil := 600
  voteSeconds := 2
  distSeconds := 2
  knownFlags := [Bytes.ascii "Running", Bytes.ascii "Valid"]
  netParams := some [Bytes.ascii "bwweightscale=10000", Bytes.ascii "circwindow=1000"]
  routerstatusList := [exampleRouterstatus 1, exampleRouterstatus 2]

end Dirvote
