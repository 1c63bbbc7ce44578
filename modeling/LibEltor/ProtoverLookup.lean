/-
Looking up protocols in a list of versions (`core/or/protover.c`): the vote of the authorities and
the two queries.

`find_entry_by_name` answers with the first entry of a name.  What repeated entries list is not
seen by the vote (`vote_iff`), nor by the query for one version, while the query for a version or a
later one goes through all entries and does not mind upper and lower case (`orLater_iff`).
-/
import Mathlib
import LibEltor.Addressmap
import LibEltor.Protover

open Bytes Protover Addressmap

namespace Protover

def findEntryByName (protos : List ProtoEntry) (name : Bytes) : Option ProtoEntry :=
  protos.find? fun ent => ent.name == name

def addNames (protoNames : List Bytes) (unexpanded : List ProtoEntry) : List Bytes :=
  unexpanded.foldl (fun names ent => if ent.name ∈ names then names else names ++ [ent.name])
    protoNames

def sortedNames (parsed : List (List ProtoEntry)) : List Bytes :=
  (parsed.foldl addNames []).mergeSort fun a b => decide (a ≤ b)

/-- One of the counters, a `uint8_t`. -/
def counts (parsed : List (List ProtoEntry)) (name : Bytes) (i : ℕ) : UInt8 :=
  parsed.foldl (fun count vote =>
    match findEntryByName vote name with
    | none => count
    | some ent => if ent.bitmask.getLsbD i = true then count + 1 else count) 0

def resultBitmask (parsed : List (List ProtoEntry)) (threshold : ℤ) (name : Bytes) : BitVec 64 :=
  (List.range 64).foldl (fun mask i =>
    if ((counts parsed name i).toNat : ℤ) ≥ threshold then mask ||| BitVec.twoPow 64 i else mask) 0

def voteResult (parsed : List (List ProtoEntry)) (threshold : ℤ) : List ProtoEntry :=
  (sortedNames parsed).filterMap fun name =>
    if resultBitmask parsed threshold name ≠ 0 then
      some ⟨name, resultBitmask parsed threshold name⟩
    else none

/-- None where the number of votes is asserted against, or the result cannot be encoded. -/
def protoverComputeVote (listOfProtoStrings : List Bytes) (threshold : ℤ) : Option Bytes :=
  if listOfProtoStrings.length ≥ 256 then none
  else if listOfProtoStrings.length = 0 then some []
  else encodeProtocolList (voteResult (listOfProtoStrings.filterMap parseProtocolList) threshold)

/-! ### What the vote is for -/

def Lists (vote : List ProtoEntry) (name : Bytes) (version : ℕ) : Prop :=
  ∃ ent ∈ vote, ent.name = name ∧ ent.bitmask.getLsbD version = true

instance (vote : List ProtoEntry) (name : Bytes) (version : ℕ) :
    Decidable (Lists vote name version) :=
  inferInstanceAs (Decidable (∃ ent ∈ vote, _))

def FirstLists (vote : List ProtoEntry) (name : Bytes) (version : ℕ) : Prop :=
  ∃ ent ∈ findEntryByName vote name, ent.bitmask.getLsbD version = true

instance (vote : List ProtoEntry) (name : Bytes) (version : ℕ) :
    Decidable (FirstLists vote name version) :=
  inferInstanceAs (Decidable (∃ ent ∈ findEntryByName vote name, _))

def listedBy (votes : List Bytes) (name : Bytes) (version : ℕ) : ℕ :=
  (votes.filterMap parseProtocolList).countP fun vote => decide (Lists vote name version)

def firstListedBy (votes : List Bytes) (name : Bytes) (version : ℕ) : ℕ :=
  (votes.filterMap parseProtocolList).countP fun vote => decide (FirstLists vote name version)

/-- The protocols that at least `threshold` votes list: sorted, no name twice, no name without a
version. -/
structure IsConsensus (votes : List Bytes) (threshold : ℤ) (sl : List ProtoEntry) : Prop where
  sorted : (sl.map ProtoEntry.name).Pairwise (· < ·)
  nonzero : ∀ ent ∈ sl, ent.bitmask ≠ 0
  listed : ∀ name version, Lists sl name version ↔
    version < 64 ∧ threshold ≤ (listedBy votes name version : ℤ)

/-! ### Names -/

theorem addNames_spec (names : List Bytes) (unexpanded : List ProtoEntry) :
    (names.Nodup → (addNames names unexpanded).Nodup) ∧
      ∀ name, name ∈ addNames names unexpanded ↔
        name ∈ names ∨ ∃ ent ∈ unexpanded, ent.name = name := by
  induction unexpanded generalizing names with
  | nil => exact ⟨id, fun name => by simp [addNames]⟩
  | cons ent unexpanded ih =>
    have hcons : addNames names (ent :: unexpanded) =
        addNames (if ent.name ∈ names then names else names ++ [ent.name]) unexpanded := rfl
    obtain ⟨hnodup, hmem⟩ := ih (if ent.name ∈ names then names else names ++ [ent.name])
    rw [hcons]
    refine ⟨fun h => hnodup ?_, fun name => ?_⟩
    · split_ifs with hin
      · exact h
      · exact List.nodup_append.mpr ⟨h, List.nodup_singleton _, fun a ha b hb heq => by
          rw [List.mem_singleton.mp hb] at heq
          exact hin (heq ▸ ha)⟩
    · rw [hmem, List.exists_mem_cons_iff]
      split_ifs with hin
      · constructor
        · rintro (h | h)
          · exact .inl h
          · exact .inr (.inr h)
        · rintro (h | rfl | h)
          · exact .inl h
          · exact .inl hin
          · exact .inr h
      · rw [List.mem_append, List.mem_singleton, or_assoc, eq_comm (a := name)]

theorem foldl_addNames_spec (names : List Bytes) (parsed : List (List ProtoEntry)) :
    (names.Nodup → (parsed.foldl addNames names).Nodup) ∧
      ∀ name, name ∈ parsed.foldl addNames names ↔
        name ∈ names ∨ ∃ vote ∈ parsed, ∃ ent ∈ vote, ent.name = name := by
  induction parsed generalizing names with
  | nil => exact ⟨id, fun name => by simp⟩
  | cons vote parsed ih =>
    obtain ⟨hnodup, hmem⟩ := addNames_spec names vote
    obtain ⟨hnodup', hmem'⟩ := ih (addNames names vote)
    refine ⟨fun h => hnodup' (hnodup h), fun name => ?_⟩
    rw [List.foldl_cons, hmem', hmem, List.exists_mem_cons_iff, or_assoc]

theorem mem_sortedNames {parsed : List (List ProtoEntry)} {name : Bytes} :
    name ∈ sortedNames parsed ↔ ∃ vote ∈ parsed, ∃ ent ∈ vote, ent.name = name := by
  rw [sortedNames, List.mem_mergeSort, (foldl_addNames_spec [] parsed).2]
  simp

theorem sortedNames_sorted (parsed : List (List ProtoEntry)) :
    (sortedNames parsed).Pairwise (· < ·) := by
  have hle : (sortedNames parsed).Pairwise (fun a b => decide (a ≤ b) = true) := by
    refine List.pairwise_mergeSort (fun a b c hab hbc => ?_) (fun a b => ?_) _
    · exact decide_eq_true (List.le_trans (of_decide_eq_true hab) (of_decide_eq_true hbc))
    · simpa using List.le_total a b
  have hnodup : (sortedNames parsed).Nodup :=
    (List.mergeSort_perm _ _).nodup_iff.mpr ((foldl_addNames_spec [] parsed).1 List.nodup_nil)
  refine (hle.and hnodup).imp ?_
  rintro a b ⟨hab, hne⟩
  exact (List.le_iff_lt_or_eq.mp (of_decide_eq_true hab)).resolve_right hne

/-- Lists sorted by `strcmp` are the same when their elements are. -/
theorem eq_of_sorted {l l' : List Bytes} (h : l.Pairwise (· < ·)) (h' : l'.Pairwise (· < ·))
    (hmem : ∀ name, name ∈ l ↔ name ∈ l') : l = l' := by
  have hnodup : ∀ {m : List Bytes}, m.Pairwise (· < ·) → m.Nodup := by
    intro m hm
    refine hm.imp ?_
    rintro a b hab rfl
    exact List.lt_irrefl a hab
  refine ((List.perm_ext_iff_of_nodup (hnodup h) (hnodup h')).mpr hmem).eq_of_pairwise ?_ h h'
  intro a b _ _ hab hba
  exact absurd (List.lt_trans hab hba) (List.lt_irrefl a)

theorem foldl_count_toNat (name : Bytes) (i : ℕ) (parsed : List (List ProtoEntry)) (count : UInt8)
    (hfits : count.toNat + parsed.length < 256) :
    (parsed.foldl (fun count vote =>
      match findEntryByName vote name with
      | none => count
      | some ent => if ent.bitmask.getLsbD i = true then count + 1 else count) count).toNat =
        count.toNat + parsed.countP fun vote => decide (FirstLists vote name i) := by
  induction parsed generalizing count with
  | nil => rfl
  | cons vote parsed ih =>
    rw [List.length_cons] at hfits
    have hsucc : (count + 1).toNat = count.toNat + 1 := by
      rw [UInt8.toNat_add]
      exact Nat.mod_eq_of_lt (show count.toNat + 1 < 256 by omega)
    rw [List.foldl_cons, List.countP_cons]
    cases hfind : findEntryByName vote name with
    | none =>
      have hnot : ¬ FirstLists vote name i := by
        rintro ⟨ent, hent, -⟩
        rw [hfind] at hent
        cases hent
      rw [if_neg (by simpa using hnot)]
      exact ih count (by omega)
    | some ent =>
      have hiff : FirstLists vote name i ↔ ent.bitmask.getLsbD i = true := by
        rw [FirstLists, hfind]
        simp
      by_cases hbit : ent.bitmask.getLsbD i = true
      · rw [if_pos (by simpa [hiff] using hbit)]
        simp only [hbit, if_true]
        rw [ih (count + 1) (by omega), hsucc]
        omega
      · rw [if_neg (by simpa [hiff] using hbit)]
        simp only [hbit]
        exact ih count (by omega)

theorem counts_toNat {parsed : List (List ProtoEntry)} (hlen : parsed.length < 256) (name : Bytes)
    (i : ℕ) : (counts parsed name i).toNat =
      parsed.countP fun vote => decide (FirstLists vote name i) := by
  have h := foldl_count_toNat name i parsed 0 (by rw [UInt8.toNat_zero]; omega)
  rwa [UInt8.toNat_zero, Nat.zero_add] at h

theorem getLsbD_foldl_twoPow (p : ℕ → Prop) [DecidablePred p] (l : List ℕ) (mask : BitVec 64)
    (i : ℕ) :
    (l.foldl (fun mask i => if p i then mask ||| BitVec.twoPow 64 i else mask) mask).getLsbD i =
      true ↔ mask.getLsbD i = true ∨ i ∈ l ∧ i < 64 ∧ p i := by
  induction l generalizing mask with
  | nil => simp
  | cons j l ih =>
    rw [List.foldl_cons, ih, List.mem_cons]
    by_cases hj : p j
    · rw [if_pos hj, BitVec.getLsbD_or, BitVec.getLsbD_twoPow, Bool.or_eq_true, Bool.and_eq_true,
        decide_eq_true_eq, decide_eq_true_eq]
      constructor
      · rintro ((h | ⟨hlt, rfl⟩) | ⟨hmem, h⟩)
        · exact .inl h
        · exact .inr ⟨.inl rfl, hlt, hj⟩
        · exact .inr ⟨.inr hmem, h⟩
      · rintro (h | ⟨rfl | hmem, h⟩)
        · exact .inl (.inl h)
        · exact .inl (.inr ⟨h.1, rfl⟩)
        · exact .inr ⟨hmem, h⟩
    · rw [if_neg hj]
      refine or_congr_right ⟨fun h => ⟨.inr h.1, h.2⟩, ?_⟩
      rintro ⟨rfl | hmem, h⟩
      · exact absurd h.2 hj
      · exact ⟨hmem, h⟩

theorem getLsbD_resultBitmask {parsed : List (List ProtoEntry)} (hlen : parsed.length < 256)
    (threshold : ℤ) (name : Bytes) (i : ℕ) :
    (resultBitmask parsed threshold name).getLsbD i = true ↔
      i < 64 ∧ threshold ≤ (parsed.countP fun vote => decide (FirstLists vote name i) : ℕ) := by
  rw [resultBitmask, getLsbD_foldl_twoPow, counts_toNat hlen, List.mem_range]
  simp

/-! ### The result -/

theorem mem_voteResult {parsed : List (List ProtoEntry)} {threshold : ℤ} {ent : ProtoEntry} :
    ent ∈ voteResult parsed threshold ↔ ent.name ∈ sortedNames parsed ∧ ent.bitmask ≠ 0 ∧
      ent.bitmask = resultBitmask parsed threshold ent.name := by
  rw [voteResult, List.mem_filterMap]
  constructor
  · rintro ⟨name, hname, h⟩
    split_ifs at h with hne
    obtain rfl := Option.some.inj h
    exact ⟨hname, hne, Eq.refl (resultBitmask parsed threshold name)⟩
  · rintro ⟨hname, hne, heq⟩
    refine ⟨ent.name, hname, ?_⟩
    rw [← heq, if_pos hne]

theorem voteResult_sorted (parsed : List (List ProtoEntry)) (threshold : ℤ) :
    ((voteResult parsed threshold).map ProtoEntry.name).Pairwise (· < ·) := by
  refine (sortedNames_sorted parsed).sublist ?_
  rw [voteResult, List.map_filterMap]
  have hname : ∀ name, Option.map ProtoEntry.name
      (if resultBitmask parsed threshold name ≠ 0 then
        some ⟨name, resultBitmask parsed threshold name⟩ else none) =
      Option.guard (fun name => decide (resultBitmask parsed threshold name ≠ 0)) name := by
    intro name
    unfold Option.guard
    by_cases hne : resultBitmask parsed threshold name ≠ 0
    · rw [if_pos hne, if_pos (decide_eq_true hne)]
      rfl
    · rw [if_neg hne, if_neg (by simpa using hne)]
      rfl
  rw [List.filterMap_congr fun name _ => hname name, List.filterMap_eq_filter]
  exact List.filter_sublist

theorem lists_voteResult {parsed : List (List ProtoEntry)} (hlen : parsed.length < 256)
    {threshold : ℤ} (hpos : 1 ≤ threshold) (name : Bytes) (version : ℕ) :
    Lists (voteResult parsed threshold) name version ↔ version < 64 ∧
      threshold ≤ (parsed.countP fun vote => decide (FirstLists vote name version) : ℕ) := by
  rw [← getLsbD_resultBitmask hlen]
  constructor
  · rintro ⟨ent, hent, rfl, hbit⟩
    rw [mem_voteResult] at hent
    rwa [← hent.2.2]
  · intro hbit
    refine ⟨⟨name, resultBitmask parsed threshold name⟩, mem_voteResult.mpr ⟨?_, ?_,
      Eq.refl (resultBitmask parsed threshold name)⟩, rfl, hbit⟩
    · -- some vote has an entry of that name
      have hcount := ((getLsbD_resultBitmask hlen threshold name version).mp hbit).2
      have hpos' : 0 < parsed.countP fun vote => decide (FirstLists vote name version) := by omega
      obtain ⟨vote, hvote, hfirst⟩ := List.countP_pos_iff.mp hpos'
      obtain ⟨ent, hent, -⟩ := of_decide_eq_true hfirst
      exact mem_sortedNames.mpr ⟨vote, hvote, ent, List.mem_of_find?_eq_some hent,
        by simpa using List.find?_some hent⟩
    · intro hzero
      change (resultBitmask parsed threshold name) = 0 at hzero
      rw [hzero] at hbit
      simp at hbit

theorem firstLists_lists {vote : List ProtoEntry} {name : Bytes} {version : ℕ}
    (h : FirstLists vote name version) : Lists vote name version := by
  obtain ⟨ent, hent, hbit⟩ := h
  exact ⟨ent, List.mem_of_find?_eq_some hent, by simpa using List.find?_some hent, hbit⟩

theorem firstListedBy_le (votes : List Bytes) (name : Bytes) (version : ℕ) :
    firstListedBy votes name version ≤ listedBy votes name version :=
  List.countP_mono_left fun _ _ h => decide_eq_true (firstLists_lists (of_decide_eq_true h))

theorem validName_voteResult {votes : List Bytes} {threshold : ℤ} :
    ∀ ent ∈ voteResult (votes.filterMap parseProtocolList) threshold, ValidName ent.name := by
  intro ent hent
  obtain ⟨vote, hvote, ent', hent', hname⟩ := mem_sortedNames.mp (mem_voteResult.mp hent).1
  obtain ⟨s, -, hparse⟩ := List.mem_filterMap.mp hvote
  exact hname ▸ validName_of_parse s hparse ent' hent'

theorem validName_of_listedBy {votes : List Bytes} {name : Bytes} {version : ℕ}
    (h : 0 < listedBy votes name version) : ValidName name := by
  obtain ⟨vote, hvote, hlists⟩ := List.countP_pos_iff.mp h
  obtain ⟨ent, hent, rfl, -⟩ := of_decide_eq_true hlists
  obtain ⟨s, -, hparse⟩ := List.mem_filterMap.mp hvote
  exact validName_of_parse s hparse ent hent

theorem protoverComputeVote_eq {votes : List Bytes} (hlen : votes.length < 256) (threshold : ℤ) :
    protoverComputeVote votes threshold =
      encodeProtocolList (voteResult (votes.filterMap parseProtocolList) threshold) := by
  rw [protoverComputeVote, if_neg (by omega)]
  split_ifs with hzero
  · obtain rfl := List.eq_nil_of_length_eq_zero hzero
    have hnone : voteResult [] threshold = [] := by simp [voteResult, sortedNames]
    rw [List.filterMap_nil, hnone]
    rfl
  · rfl

theorem voteResult_perm {parsed parsed' : List (List ProtoEntry)} (hperm : parsed'.Perm parsed)
    (hlen : parsed.length < 256) (threshold : ℤ) :
    voteResult parsed' threshold = voteResult parsed threshold := by
  have hlen' : parsed'.length < 256 := hperm.length_eq ▸ hlen
  have hnames : sortedNames parsed' = sortedNames parsed := by
    refine eq_of_sorted (sortedNames_sorted _) (sortedNames_sorted _) fun name => ?_
    rw [mem_sortedNames, mem_sortedNames]
    exact exists_congr fun vote => and_congr_left fun _ => hperm.mem_iff
  have hmasks : resultBitmask parsed' threshold = resultBitmask parsed threshold := by
    funext name
    refine BitVec.eq_of_getLsbD_eq fun i _ => Bool.eq_iff_iff.mpr ?_
    rw [getLsbD_resultBitmask hlen', getLsbD_resultBitmask hlen, hperm.countP_eq]
  rw [voteResult, voteResult, hnames, hmasks]

theorem protoverComputeVote_perm {votes votes' : List Bytes} (hperm : votes'.Perm votes)
    (hlen : votes.length < 256) (threshold : ℤ) :
    protoverComputeVote votes' threshold = protoverComputeVote votes threshold := by
  have hparsed := List.length_filterMap_le parseProtocolList votes
  rw [protoverComputeVote_eq (hperm.length_eq ▸ hlen), protoverComputeVote_eq hlen,
    voteResult_perm (hperm.filterMap parseProtocolList) (by omega)]

/-- What the vote shall be: the text of the consensus, in whatever order the votes come. -/
def VoteOk (votes : List Bytes) (threshold : ℤ) : Prop :=
  (∃ sl text, protoverComputeVote votes threshold = some text ∧
    encodeProtocolList sl = some text ∧ IsConsensus votes threshold sl) ∧
  ∀ votes' : List Bytes, votes'.Perm votes →
    protoverComputeVote votes' threshold = protoverComputeVote votes threshold

theorem VoteOk.isConsensus {votes : List Bytes} (hlen : votes.length < 256) {threshold : ℤ}
    (hpos : 1 ≤ threshold) (h : VoteOk votes threshold) :
    IsConsensus votes threshold (voteResult (votes.filterMap parseProtocolList) threshold) ∧
      (encodeProtocolList (voteResult (votes.filterMap parseProtocolList) threshold)).isSome =
        true := by
  obtain ⟨⟨sl, text, htext, hencode, hsl⟩, -⟩ := h
  rw [protoverComputeVote_eq hlen] at htext
  have hvalid : ∀ ent ∈ sl, ValidName ent.name := by
    intro ent hent
    obtain ⟨version, hversion⟩ : ∃ version, ent.bitmask.getLsbD version = true := by
      by_contra hnone
      refine hsl.nonzero ent hent (BitVec.eq_of_getLsbD_eq fun i _ => ?_)
      simpa using fun h => hnone ⟨i, h⟩
    have hcount := ((hsl.listed ent.name version).mp ⟨ent, hent, rfl, hversion⟩).2
    have hlisted : 0 < listedBy votes ent.name version := by omega
    exact validName_of_listedBy hlisted
  have hread := (parse_encodeEntries validName_voteResult htext).1
  have hread' := (parse_encodeEntries hvalid hencode).1
  obtain rfl := Option.some.inj (hread.symm.trans hread')
  exact ⟨hsl, Option.isSome_iff_exists.mpr ⟨text, htext⟩⟩

theorem VoteOk.firstListed {votes : List Bytes} (hlen : votes.length < 256) {threshold : ℤ}
    (hpos : 1 ≤ threshold) (h : VoteOk votes threshold) (name : Bytes) (version : ℕ)
    (hlisted : threshold ≤ (listedBy votes name version : ℤ)) :
    threshold ≤ (firstListedBy votes name version : ℤ) := by
  have hparsed : (votes.filterMap parseProtocolList).length < 256 :=
    (List.length_filterMap_le parseProtocolList votes).trans_lt hlen
  have hlt : version < 64 := by
    have hpos' : 0 < listedBy votes name version := by omega
    obtain ⟨vote, -, hvote⟩ := List.countP_pos_iff.mp hpos'
    obtain ⟨ent, -, -, hset⟩ := of_decide_eq_true hvote
    exact BitVec.lt_of_getLsbD hset
  have hin := ((h.isConsensus hlen hpos).1.listed name version).mpr ⟨hlt, hlisted⟩
  exact ((lists_voteResult hparsed hpos name version).mp hin).2

/-- The vote is right when the versions that enough votes list are in first entries of that many
votes, and no protocol has all of its 64 versions agreed on. -/
theorem vote_iff {votes : List Bytes} (hlen : votes.length < 256) {threshold : ℤ}
    (hpos : 1 ≤ threshold) :
    VoteOk votes threshold ↔
      (∀ (name : Bytes) (version : ℕ), threshold ≤ (listedBy votes name version : ℤ) →
        threshold ≤ (firstListedBy votes name version : ℤ)) ∧
      ∀ name : Bytes, ∃ version < 64, (firstListedBy votes name version : ℤ) < threshold := by
  have hparsed : (votes.filterMap parseProtocolList).length < 256 :=
    (List.length_filterMap_le parseProtocolList votes).trans_lt hlen
  have hlists := lists_voteResult hparsed hpos
  constructor
  · intro h
    refine ⟨h.firstListed hlen hpos, fun name => ?_⟩
    by_contra hall
    push Not at hall
    obtain ⟨ent, hent, hname, -⟩ := (hlists name 0).mpr ⟨by omega, hall 0 (by omega)⟩
    have hmask : ent.bitmask = BitVec.allOnes 64 := by
      refine BitVec.eq_of_getLsbD_eq fun i hi => ?_
      rw [BitVec.getLsbD_allOnes, decide_eq_true hi, (mem_voteResult.mp hent).2.2, hname,
        getLsbD_resultBitmask hparsed]
      exact ⟨hi, hall i hi⟩
    exact (encodeEntries_isSome_iff [] _).mp (h.isConsensus hlen hpos).2 ent hent hmask
  · rintro ⟨hfirst, hfew⟩
    refine ⟨?_, fun votes' hperm => protoverComputeVote_perm hperm hlen threshold⟩
    have hdefined : (encodeProtocolList
        (voteResult (votes.filterMap parseProtocolList) threshold)).isSome = true := by
      refine (encodeEntries_isSome_iff [] _).mpr fun ent hent hall => ?_
      obtain ⟨version, hlt, hversion⟩ := hfew ent.name
      have hset : ent.bitmask.getLsbD version = true := by
        rw [hall, BitVec.getLsbD_allOnes]
        exact decide_eq_true hlt
      have hreached := ((hlists ent.name version).mp ⟨ent, hent, rfl, hset⟩).2
      rw [firstListedBy] at hversion
      omega
    obtain ⟨text, htext⟩ := Option.isSome_iff_exists.mp hdefined
    refine ⟨_, text, (protoverComputeVote_eq hlen threshold).trans htext, htext,
      voteResult_sorted _ _, fun ent hent => (mem_voteResult.mp hent).2.1, fun name version => ?_⟩
    rw [hlists]
    refine and_congr_right fun _ => ⟨fun h => ?_, hfirst name version⟩
    have hle := firstListedBy_le votes name version
    rw [firstListedBy] at hle
    omega

theorem two_of_three_agree :
    VoteOk [ascii "Link=1-3", ascii "Link=2", ascii "Cons=,"] 2 := by
  have hparse : [ascii "Link=1-3", ascii "Link=2", ascii "Cons=,"].filterMap parseProtocolList =
      [[⟨ascii "Link", 14⟩], [⟨ascii "Link", 4⟩]] := by decide +kernel
  refine (vote_iff (by decide) (by decide)).mpr ⟨fun name version h => ?_, fun name => ?_⟩
  · -- one entry for each name
    have hsame : ∀ ent : ProtoEntry, FirstLists [ent] name version ↔ Lists [ent] name version := by
      intro ent
      by_cases hname : ent.name = name <;> simp [FirstLists, Lists, findEntryByName, hname]
    rw [listedBy, hparse] at h
    rw [firstListedBy, hparse]
    simpa only [List.countP_cons, List.countP_nil, hsame] using h
  · refine ⟨0, by decide, ?_⟩
    have hsame : ∀ ent : ProtoEntry, ent.bitmask.getLsbD 0 = false → ¬ FirstLists [ent] name 0 := by
      rintro ent hbit ⟨ent', hent', hset⟩
      have hmem := List.mem_of_find?_eq_some hent'
      rw [List.mem_singleton.mp hmem, hbit] at hset
      cases hset
    rw [firstListedBy, hparse]
    simp [hsame]

/-- A vote that lists versions 1 and 2 of a protocol in two entries. -/
theorem repeated_name_not_counted :
    ¬ ∀ votes : List Bytes, votes.length < 256 → ∀ threshold : ℤ, 1 ≤ threshold →
      VoteOk votes threshold := by
  intro hall
  have hok := hall [ascii "Link=1 Link=2"] (by decide) 1 (by decide)
  have hparse : [ascii "Link=1 Link=2"].filterMap parseProtocolList =
      [[⟨ascii "Link", 2⟩, ⟨ascii "Link", 4⟩]] := by decide +kernel
  have hfirst := hok.firstListed (by decide) (by decide) (ascii "Link") 2 (by
    rw [listedBy, hparse]
    decide)
  rw [firstListedBy, hparse] at hfirst
  exact absurd hfirst (by decide)

/-! ### Queries -/

inductive ProtocolType
  | link | linkauth | relay | dircache | hsdir | hsintro | hsrend | desc | microdesc | cons
  | padding | flowctrl | conflux
  deriving DecidableEq

def protocolNames : List (ProtocolType × Bytes) :=
  [(.link, ascii "Link"), (.linkauth, ascii "LinkAuth"), (.relay, ascii "Relay"),
    (.dircache, ascii "DirCache"), (.hsdir, ascii "HSDir"), (.hsintro, ascii "HSIntro"),
    (.hsrend, ascii "HSRend"), (.desc, ascii "Desc"), (.microdesc, ascii "Microdesc"),
    (.padding, ascii "Padding"), (.cons, ascii "Cons"), (.flowctrl, ascii "FlowCtrl"),
    (.conflux, ascii "Conflux")]

def protocolTypeToStr (pr : ProtocolType) : Bytes :=
  ((protocolNames.find? fun entry => entry.1 == pr).map Prod.snd).getD (ascii "UNKNOWN")

def protocolListContains (protos : List ProtoEntry) (pr : ProtocolType) (ver : ℕ) : Bool :=
  if ver > maxProtocolVersion then false
  else
    match findEntryByName protos (protocolTypeToStr pr) with
    | none => false
    | some ent => ent.bitmask.getLsbD ver

def protocolListSupportsProtocol (list : Bytes) (tp : ProtocolType) (version : ℕ) : Bool :=
  match parseProtocolList list with
  | none => false
  | some protocols => protocolListContains protocols tp version

def protocolListSupportsProtocolOrLater (list : Bytes) (tp : ProtocolType) (version : ℕ) : Bool :=
  match parseProtocolList list with
  | none => false
  | some protocols => protocols.any fun proto =>
      sameCase proto.name (protocolTypeToStr tp) &&
        decide (proto.bitmask &&& bitmaskForRange version 63 ≠ 0)

/-- An entry with a version from `version` on. -/
def ListsFrom (ent : ProtoEntry) (version : ℕ) : Prop :=
  ∃ version' ≥ version, ent.bitmask.getLsbD version' = true

theorem and_bitmaskForRange_ne_zero {mask : BitVec 64} {version : ℕ} (hversion : version ≤ 63) :
    mask &&& bitmaskForRange version 63 ≠ 0 ↔
      ∃ version' ≥ version, mask.getLsbD version' = true := by
  constructor
  · intro hne
    by_contra hnone
    refine hne (BitVec.eq_of_getLsbD_eq fun i hi => ?_)
    rw [BitVec.getLsbD_and, getLsbD_bitmaskForRange hversion (le_refl 63)]
    by_cases hlow : version ≤ i
    · have hbit : mask.getLsbD i = false := by
        simpa using fun h => hnone ⟨i, hlow, h⟩
      rw [hbit]
      simp
    · simp [hlow]
  · rintro ⟨i, hi, hbit⟩ hzero
    have hlt := BitVec.lt_of_getLsbD hbit
    have hand : (mask &&& bitmaskForRange version 63).getLsbD i = true := by
      rw [BitVec.getLsbD_and, getLsbD_bitmaskForRange hversion (le_refl 63), hbit, Bool.true_and]
      exact decide_eq_true ⟨hi, by omega⟩
    rw [hzero] at hand
    simp at hand

theorem supports_later_iff (list : Bytes) (tp : ProtocolType) (version : ℕ) :
    (∃ version' ≥ version, protocolListSupportsProtocol list tp version' = true) ↔
      ∃ protos, parseProtocolList list = some protos ∧
        ∃ ent ∈ findEntryByName protos (protocolTypeToStr tp), ListsFrom ent version := by
  unfold protocolListSupportsProtocol protocolListContains
  cases parseProtocolList list with
  | none => simp
  | some protos =>
    simp only [Option.some.injEq, exists_eq_left']
    cases findEntryByName protos (protocolTypeToStr tp) with
    | none => simp
    | some ent =>
      have hin : ∀ version', ent.bitmask.getLsbD version' = true →
          version' ≤ maxProtocolVersion := by
        intro version' h
        have hlt := BitVec.lt_of_getLsbD h
        unfold maxProtocolVersion
        omega
      simp only [Option.mem_def, Option.some.injEq, exists_eq_left', ListsFrom]
      refine exists_congr fun version' => and_congr_right fun _ => ?_
      split_ifs with hlarge
      · exact iff_of_false (fun h => h.elim) fun h => absurd (hin version' h) (by omega)
      · exact Iff.rfl

theorem orLater_true_iff (list : Bytes) (tp : ProtocolType) {version : ℕ} (hversion : version ≤ 63) :
    protocolListSupportsProtocolOrLater list tp version = true ↔
      ∃ protos, parseProtocolList list = some protos ∧
        ∃ ent ∈ protos, sameCase ent.name (protocolTypeToStr tp) = true ∧ ListsFrom ent version := by
  unfold protocolListSupportsProtocolOrLater
  cases parseProtocolList list with
  | none => simp
  | some protos =>
    simp only [Option.some.injEq, exists_eq_left', List.any_eq_true, Bool.and_eq_true,
      decide_eq_true_eq]
    exact exists_congr fun ent => and_congr_right fun _ =>
      and_congr_right fun _ => and_bitmaskForRange_ne_zero hversion

/-- An entry that only the query for a version or a later one sees: its name is not written like
the protocol's, or an entry before it has the name. -/
def Overlooked (name : Bytes) (before : List ProtoEntry) (ent : ProtoEntry) : Prop :=
  sameCase ent.name name = true ∧ (ent.name ≠ name ∨ ∃ e ∈ before, e.name = name)

theorem findEntryByName_of_not_overlooked {name : Bytes} {before after : List ProtoEntry}
    {ent : ProtoEntry} (hname : sameCase ent.name name = true) (h : ¬ Overlooked name before ent) :
    findEntryByName (before ++ ent :: after) name = some ent := by
  have hboth : ent.name = name ∧ ∀ e ∈ before, e.name ≠ name := by
    constructor
    · by_contra hne
      exact h ⟨hname, .inl hne⟩
    · exact fun e he heq => h ⟨hname, .inr ⟨e, he, heq⟩⟩
  have hbefore : before.find? (fun ent => ent.name == name) = none := by
    rw [List.find?_eq_none]
    intro e he
    simpa using hboth.2 e he
  rw [findEntryByName, List.find?_append, hbefore, Option.none_or, List.find?_cons_of_pos]
  simpa using hboth.1

/-- The two queries agree unless an overlooked entry has a version in question and the first entry
of the name has none, or is not there. -/
theorem orLater_iff (list : Bytes) (tp : ProtocolType) {version : ℕ} (hversion : version ≤ 63) :
    (protocolListSupportsProtocolOrLater list tp version = true ↔
      ∃ version' ≥ version, protocolListSupportsProtocol list tp version' = true) ↔
    ∀ before ent after, parseProtocolList list = some (before ++ ent :: after) →
      Overlooked (protocolTypeToStr tp) before ent → ListsFrom ent version →
      ∃ first ∈ findEntryByName (before ++ ent :: after) (protocolTypeToStr tp),
        ListsFrom first version := by
  rw [orLater_true_iff list tp hversion, supports_later_iff]
  constructor
  · intro hagree before ent after hparse hover hfrom
    obtain ⟨protos, hprotos, hfirst⟩ := hagree.mp ⟨_, hparse, ent, by simp, hover.1, hfrom⟩
    obtain rfl := Option.some.inj (hparse.symm.trans hprotos)
    exact hfirst
  · intro hover
    constructor
    · rintro ⟨protos, hparse, ent, hent, hname, hfrom⟩
      obtain ⟨before, after, rfl⟩ := List.append_of_mem hent
      refine ⟨_, hparse, ?_⟩
      by_cases hseen : Overlooked (protocolTypeToStr tp) before ent
      · exact hover before ent after hparse hseen hfrom
      · exact ⟨ent, findEntryByName_of_not_overlooked hname hseen, hfrom⟩
    · rintro ⟨protos, hparse, ent, hent, hfrom⟩
      have hname : ent.name = protocolTypeToStr tp := by simpa using List.find?_some hent
      refine ⟨protos, hparse, ent, List.mem_of_find?_eq_some hent, ?_, hfrom⟩
      rw [hname]
      exact beq_self_eq_true _

theorem link_three_or_later :
    protocolListSupportsProtocolOrLater (ascii "Cons=1 Link=1-5") .link 3 = true ↔
      ∃ version' ≥ 3, protocolListSupportsProtocol (ascii "Cons=1 Link=1-5") .link version' =
        true := by
  refine (orLater_iff (ascii "Cons=1 Link=1-5") .link (by decide)).mpr ?_
  intro before ent after hparse hover _
  have hlist : parseProtocolList (ascii "Cons=1 Link=1-5") =
      some [⟨ascii "Cons", 2⟩, ⟨ascii "Link", 62⟩] := by decide +kernel
  obtain heq := Option.some.inj (hlist.symm.trans hparse)
  rw [← heq]
  exact ⟨⟨ascii "Link", 62⟩, by decide, 5, by decide, by decide⟩

/-- The second entry has the version, and the query for one version does not get to it. -/
theorem second_entry_overlooked :
    ¬ ∀ (list : Bytes) (tp : ProtocolType) (version : ℕ), version ≤ 63 →
      (protocolListSupportsProtocolOrLater list tp version = true ↔
        ∃ version' ≥ version, protocolListSupportsProtocol list tp version' = true) := by
  intro hall
  have hlist : parseProtocolList (ascii "Link=1 Link=5") =
      some [⟨ascii "Link", 2⟩, ⟨ascii "Link", 32⟩] := by decide +kernel
  have hlater : protocolListSupportsProtocolOrLater (ascii "Link=1 Link=5") .link 5 = true := by
    unfold protocolListSupportsProtocolOrLater
    rw [hlist]
    decide
  obtain ⟨protos, hprotos, first, hfirst, version, hversion, hbit⟩ :=
    (supports_later_iff _ _ _).mp ((hall _ _ _ (by decide)).mp hlater)
  obtain rfl := Option.some.inj (hlist.symm.trans hprotos)
  obtain rfl : (⟨ascii "Link", 2⟩ : ProtoEntry) = first := Option.some.inj hfirst
  have hlt := BitVec.lt_of_getLsbD hbit
  interval_cases version <;> exact absurd hbit (by decide)

end Protover
