/-
Which routers are collated, and from which entries (`dircollator_collate`).

The tables hold, for each identity and each pair of identities, exactly what the votes list under it,
whatever order they were filled in.  A vote lists an RSA identity once, so that of two pairs with one
RSA identity at most one is listed by a majority; it lists an Ed25519 identity once, so that of two
routers with one such identity at most one is.
-/
import Mathlib
import LibEltor.Dirvote
import LibEltor.DirvoteParamsMedian

namespace Dirvote

/-- No vote lists an RSA identity twice, or an Ed25519 identity that is not zero. -/
def WellFormedVote (l : List VoteRouterstatus) : Prop :=
  (l.map VoteRouterstatus.identityDigest).Nodup ∧ (ed25519Ids l).Nodup

def isForPair (pair : Bytes × Bytes) (rs : VoteRouterstatus) : Bool :=
  decide ((rs.identityDigest, rs.ed25519Id) = pair) && rs.hasEd25519Listing

def isForRsa (id : Bytes) (rs : VoteRouterstatus) : Bool := decide (rs.identityDigest = id)

/-- More than half of the authorities list an entry that is for the identity. -/
def ListedByMajority (nAuthorities : ℕ) (votes : List (List VoteRouterstatus))
    (isFor : VoteRouterstatus → Bool) : Prop :=
  nAuthorities < 2 * votes.countP fun l => l.any isFor

/-! ### Arrays -/

variable {κ : Type} [DecidableEq κ] {nVotes : ℕ} {m : List (Slots κ)}

def arrayFor (nVotes : ℕ) (V : ℕ → List VoteRouterstatus) (isFor : VoteRouterstatus → Bool) :
    List (Option VoteRouterstatus) :=
  (List.range nVotes).map fun i => (V i).find? isFor

theorem slotsOf_set (e : Slots κ) (k : κ) : slotsOf nVotes k (KeyedList.set Slots.key e m) =
    if k = e.key then e.vrsLst else slotsOf nVotes k m := by
  unfold slotsOf
  rw [KeyedList.get_set]
  split_ifs <;> rfl

theorem slotsOf_of_mem (nVotes : ℕ) (h : KeyedList.Keyed Slots.key m) {e : Slots κ} (he : e ∈ m) :
    slotsOf nVotes e.key m = e.vrsLst := by
  obtain ⟨e', he', hget, hkey⟩ := KeyedList.exists_get ⟨e, he, (rfl : Slots.key e = e.key)⟩
  rw [slotsOf, hget, h.eq he' he hkey]

theorem listed_replicate_none (n : ℕ) : listed (List.replicate n none) = 0 := by
  simp [listed]

theorem exists_listed_iff (h : KeyedList.Keyed Slots.key m) {k : κ} {b : ℕ} :
    (∃ e ∈ m, b < listed e.vrsLst ∧ e.key = k) ↔ b < listed (slotsOf nVotes k m) := by
  constructor
  · rintro ⟨e, he, hb, rfl⟩
    rwa [slotsOf_of_mem nVotes h he]
  · intro hb
    cases hget : KeyedList.get Slots.key k m with
    | none =>
      rw [slotsOf, hget] at hb
      dsimp only at hb
      rw [listed_replicate_none] at hb
      exact absurd hb (Nat.not_lt_zero b)
    | some e =>
      obtain ⟨he, rfl⟩ := KeyedList.mem_of_get hget
      rw [slotsOf_of_mem nVotes h he] at hb
      exact ⟨e, he, hb, rfl⟩

theorem find?_append_singleton (l : List VoteRouterstatus) (vrs : VoteRouterstatus)
    (p : VoteRouterstatus → Bool) :
    (l ++ [vrs]).find? p = (l.find? p).or (if p vrs then some vrs else none) := by
  rw [List.find?_append, List.find?_singleton]

theorem arrayFor_update {V : ℕ → List VoteRouterstatus} {isFor : VoteRouterstatus → Bool} {n : ℕ}
    {vrs : VoteRouterstatus} (hn : n < nVotes) (hfree : isFor vrs = true → (V n).find? isFor = none) :
    arrayFor nVotes (Function.update V n (V n ++ [vrs])) isFor =
      if isFor vrs then (arrayFor nVotes V isFor).set n (some vrs) else arrayFor nVotes V isFor := by
  unfold arrayFor
  refine List.ext_getElem ?_ fun i hi hi' => ?_
  · split_ifs <;> simp
  · have hlt : i < nVotes := by simpa using hi
    by_cases hvrs : isFor vrs = true
    · simp only [hvrs, if_true, List.getElem_map, List.getElem_range, List.getElem_set]
      by_cases hin : n = i
      · subst hin
        rw [if_pos rfl, Function.update_self, find?_append_singleton, hfree hvrs, if_pos hvrs]
        rfl
      · rw [if_neg hin, Function.update_of_ne (Ne.symm hin)]
    · simp only [hvrs, if_false, List.getElem_map, List.getElem_range, Bool.false_eq_true]
      by_cases hin : i = n
      · subst hin
        rw [Function.update_self, find?_append_singleton, if_neg hvrs, Option.or_none]
      · rw [Function.update_of_ne hin]

structure TableExact (nVotes : ℕ) (V : ℕ → List VoteRouterstatus)
    (isFor : κ → VoteRouterstatus → Bool) (m : List (Slots κ)) : Prop where
  keyed : KeyedList.Keyed Slots.key m
  arrays : ∀ k, slotsOf nVotes k m = arrayFor nVotes V (isFor k)

theorem addSlot_exact {V : ℕ → List VoteRouterstatus} {isFor : κ → VoteRouterstatus → Bool}
    (h : TableExact nVotes V isFor m) {n : ℕ} (hn : n < nVotes) {key : κ} {vrs : VoteRouterstatus}
    (hkey : ∀ k, isFor k vrs = true ↔ k = key) (hfree : (V n).find? (isFor key) = none)
    {m' : List (Slots κ)} (hadd : addSlot nVotes key n vrs m = some m') :
    TableExact nVotes (Function.update V n (V n ++ [vrs])) isFor m' := by
  unfold addSlot at hadd
  dsimp only at hadd
  split_ifs at hadd
  obtain rfl := Option.some.inj hadd
  refine ⟨h.keyed.set _, fun k => ?_⟩
  have hfreeK : isFor k vrs = true → (V n).find? (isFor k) = none := fun hk => by
    rw [(hkey k).mp hk]
    exact hfree
  rw [slotsOf_set, arrayFor_update hn hfreeK]
  dsimp only
  by_cases hk : k = key
  · rw [if_pos hk, if_pos ((hkey k).mpr hk), hk, h.arrays]
  · rw [if_neg hk, if_neg fun hfor => hk ((hkey k).mp hfor), h.arrays]

theorem TableExact.skip {V : ℕ → List VoteRouterstatus} {isFor : κ → VoteRouterstatus → Bool}
    (h : TableExact nVotes V isFor m) {n : ℕ} (hn : n < nVotes) {vrs : VoteRouterstatus}
    (hnone : ∀ k, isFor k vrs = false) :
    TableExact nVotes (Function.update V n (V n ++ [vrs])) isFor m := by
  refine ⟨h.keyed, fun k => ?_⟩
  rw [arrayFor_update hn fun hk => by simp [hnone k] at hk, if_neg (by simp [hnone k]), h.arrays]

structure Exact (V : ℕ → List VoteRouterstatus) (dc : Dircollator) : Prop where
  rsa : TableExact dc.nVotes V isForRsa dc.byRsaSha1
  both : TableExact dc.nVotes V isForPair dc.byBothIds

def SameNumbers (dc dc' : Dircollator) : Prop :=
  dc'.nVotes = dc.nVotes ∧ dc'.nAuthorities = dc.nAuthorities ∧ dc'.nextVoteNum = dc.nextVoteNum

theorem addRouterstatus_exact {V : ℕ → List VoteRouterstatus} {dc dc' : Dircollator}
    (h : Exact V dc) {n : ℕ} (hn : n < dc.nVotes) {vrs : VoteRouterstatus}
    (hfree : ∀ rs ∈ V n, rs.identityDigest ≠ vrs.identityDigest)
    (hadd : dc.addRouterstatus n vrs = some dc') :
    Exact (Function.update V n (V n ++ [vrs])) dc' ∧ SameNumbers dc dc' := by
  unfold Dircollator.addRouterstatus at hadd
  obtain ⟨rsa', hrsa, hrest⟩ := Option.bind_eq_some_iff.mp hadd
  have hrsaExact := addSlot_exact h.rsa hn (fun k => by simp [isForRsa, eq_comm])
    (List.find?_eq_none.mpr fun rs hrs => by simpa [isForRsa] using hfree rs hrs) hrsa
  split_ifs at hrest with hlisting
  · obtain ⟨both', hboth, hrest⟩ := Option.bind_eq_some_iff.mp hrest
    obtain rfl := Option.some.inj hrest
    refine ⟨⟨hrsaExact, ?_⟩, rfl, rfl, rfl⟩
    refine addSlot_exact h.both hn (fun k => ?_) ?_ hboth
    · simp [isForPair, hlisting, eq_comm]
    · refine List.find?_eq_none.mpr fun rs hrs => ?_
      simp only [isForPair, Bool.and_eq_true, decide_eq_true_eq, not_and]
      exact fun hpair => absurd (congrArg Prod.fst hpair) (hfree rs hrs)
  · obtain rfl := Option.some.inj hrest
    exact ⟨⟨hrsaExact, h.both.skip hn fun k => by simp [isForPair, hlisting]⟩, rfl, rfl, rfl⟩

theorem foldlM_addRouterstatus_exact {l : List VoteRouterstatus} {V : ℕ → List VoteRouterstatus}
    {dc dc' : Dircollator} (h : Exact V dc) {n : ℕ} (hn : n < dc.nVotes)
    (hnodup : ((V n ++ l).map VoteRouterstatus.identityDigest).Nodup)
    (hadd : l.foldlM (fun dc vrs => dc.addRouterstatus n vrs) dc = some dc') :
    Exact (Function.update V n (V n ++ l)) dc' ∧ SameNumbers dc dc' := by
  induction l generalizing V dc with
  | nil =>
    obtain rfl := Option.some.inj hadd
    rw [List.append_nil, Function.update_eq_self]
    exact ⟨h, rfl, rfl, rfl⟩
  | cons vrs l ih =>
    rw [List.foldlM_cons] at hadd
    obtain ⟨mid, hmid, hrest⟩ := Option.bind_eq_some_iff.mp hadd
    have hfree : ∀ rs ∈ V n, rs.identityDigest ≠ vrs.identityDigest := by
      intro rs hrs heq
      rw [List.map_append, List.nodup_append] at hnodup
      exact hnodup.2.2 _ (List.mem_map_of_mem hrs) _ (List.mem_map_of_mem List.mem_cons_self) heq
    obtain ⟨hexact, hvotes, hauthorities, hnext⟩ := addRouterstatus_exact h hn hfree hmid
    obtain ⟨hexact', hvotes', hauthorities', hnext'⟩ :=
      ih hexact (hvotes.symm ▸ hn) (by simpa using hnodup) hrest
    rw [Function.update_self, Function.update_idem, List.append_assoc, List.singleton_append]
      at hexact'
    exact ⟨hexact', hvotes'.trans hvotes, hauthorities'.trans hauthorities, hnext'.trans hnext⟩

theorem foldlM_addVote_exact {ls : List (List VoteRouterstatus)} {V : ℕ → List VoteRouterstatus}
    {dc dc' : Dircollator} (h : Exact V dc) (hV : ∀ i, dc.nextVoteNum ≤ i → V i = [])
    (hls : ∀ l ∈ ls, (l.map VoteRouterstatus.identityDigest).Nodup)
    (hadd : ls.foldlM Dircollator.addVote dc = some dc') :
    ∃ V', Exact V' dc' ∧ (∀ i < dc.nextVoteNum, V' i = V i) ∧
      ∀ j, V' (dc.nextVoteNum + j) = ls.getD j [] := by
  induction ls generalizing V dc with
  | nil =>
    obtain rfl := Option.some.inj hadd
    exact ⟨V, h, fun i _ => rfl, fun j => hV _ (Nat.le_add_right _ _)⟩
  | cons l ls ih =>
    obtain ⟨hl, hls'⟩ := List.forall_mem_cons.mp hls
    rw [List.foldlM_cons] at hadd
    obtain ⟨mid, hmid, hrest⟩ := Option.bind_eq_some_iff.mp hadd
    unfold Dircollator.addVote at hmid
    split_ifs at hmid with hlt
    have hstart : Exact V { dc with nextVoteNum := dc.nextVoteNum + 1 } := ⟨h.rsa, h.both⟩
    have hnone : V dc.nextVoteNum = [] := hV _ le_rfl
    obtain ⟨hexact, -, -, hnext⟩ :=
      foldlM_addRouterstatus_exact hstart hlt (by rwa [hnone, List.nil_append]) hmid
    rw [hnone, List.nil_append] at hexact
    dsimp only at hnext
    have hlater : ∀ i, mid.nextVoteNum ≤ i → Function.update V dc.nextVoteNum l i = [] := by
      intro i hi
      rw [Function.update_of_ne (by omega)]
      exact hV i (by omega)
    obtain ⟨V', hV', hbefore, hafter⟩ := ih hexact hlater hls' hrest
    refine ⟨V', hV', fun i hi => ?_, fun j => ?_⟩
    · rw [hbefore i (by omega), Function.update_of_ne (by omega)]
    · cases j with
      | zero =>
        rw [Nat.add_zero, hbefore _ (by omega), Function.update_self]
        rfl
      | succ j =>
        have hj := hafter j
        rw [hnext] at hj
        rw [show dc.nextVoteNum + (j + 1) = dc.nextVoteNum + 1 + j by omega, hj]
        rfl

theorem exact_dircollatorNew (nVotes a : ℕ) : Exact (fun _ => []) ⟨nVotes, a, 0, [], []⟩ where
  rsa := ⟨List.nodup_nil, fun k => by simp [slotsOf, KeyedList.get, arrayFor, List.map_const']⟩
  both := ⟨List.nodup_nil, fun k => by simp [slotsOf, KeyedList.get, arrayFor, List.map_const']⟩

/-! ### The loops of the collation -/

def isMajority (nAuthorities : ℕ) (e : Slots κ) : Bool :=
  decide (nAuthorities / 2 < listed e.vrsLst)

theorem foldlM_collateBoth_exact {dc : Dircollator} {l : List (Slots (Bytes × Bytes))}
    {st st' : Collated} (hone : ((l.filter (isMajority dc.nAuthorities)).map fun e => e.key.1).Nodup)
    (hfold : l.foldlM (collateBoth dc) st = some st') :
    st'.allRsaSha1Lst =
        st.allRsaSha1Lst ++ (l.filter (isMajority dc.nAuthorities)).map (fun e => e.key.1) ∧
      (∀ e ∈ l.filter (isMajority dc.nAuthorities),
        KeyedList.get Slots.key e.key.1 st'.byCollatedRsaSha1 = some ⟨e.key.1,
          List.zipWith fillSlot e.vrsLst (slotsOf dc.nVotes e.key.1 dc.byRsaSha1)⟩) ∧
      (∀ id, id ∉ (l.filter (isMajority dc.nAuthorities)).map (fun e => e.key.1) →
        KeyedList.get Slots.key id st'.byCollatedRsaSha1 =
          KeyedList.get Slots.key id st.byCollatedRsaSha1) ∧
      ∀ p, p ∈ st'.reflects ↔ p ∈ st.reflects ∨
        ∃ e ∈ l.filter (isMajority dc.nAuthorities), p ∈ entries e.vrsLst := by
  induction l generalizing st with
  | nil =>
    obtain rfl := Option.some.inj hfold
    simp
  | cons e l ih =>
    rw [List.foldlM_cons] at hfold
    obtain ⟨mid, hmid, hrest⟩ := Option.bind_eq_some_iff.mp hfold
    unfold collateBoth at hmid
    by_cases hfew : listed e.vrsLst ≤ dc.nAuthorities / 2
    · rw [if_pos hfew] at hmid
      obtain rfl := Option.some.inj hmid
      have hnot : ¬ isMajority dc.nAuthorities e = true := by simpa [isMajority] using hfew
      rw [List.filter_cons_of_neg hnot] at hone ⊢
      exact ih hone hrest
    · rw [if_neg hfew] at hmid
      obtain ⟨e2, he2, hmid⟩ := Option.bind_eq_some_iff.mp hmid
      obtain rfl := Option.some.inj hmid
      have hmajority : isMajority dc.nAuthorities e = true := by simpa [isMajority] using hfew
      rw [List.filter_cons_of_pos hmajority] at hone ⊢
      rw [List.map_cons, List.nodup_cons] at hone
      obtain ⟨hall, hgot, hother, hmarked⟩ := ih hone.2 hrest
      dsimp only at hall hother hmarked
      have hslots : slotsOf dc.nVotes e.key.1 dc.byRsaSha1 = e2.vrsLst := by rw [slotsOf, he2]
      refine ⟨by rw [hall, List.map_cons, List.append_assoc]; rfl, ?_, fun id hid => ?_,
        fun p => ?_⟩
      · refine List.forall_mem_cons.mpr ⟨?_, hgot⟩
        rw [hother _ hone.1, KeyedList.get_set, if_pos rfl, hslots]
      · rw [List.map_cons, List.mem_cons, not_or] at hid
        rw [hother id hid.2, KeyedList.get_set, if_neg hid.1]
      · rw [hmarked, List.mem_append, or_assoc]
        simp [List.mem_cons]

def isNew (nAuthorities : ℕ) (st : Collated) (e : Slots Bytes) : Bool :=
  isMajority nAuthorities e && (KeyedList.get Slots.key e.key st.byCollatedRsaSha1).isNone

theorem collateRsa_eq (dc : Dircollator) (st : Collated) (e : Slots Bytes) :
    collateRsa dc st e =
      if isNew dc.nAuthorities st e then
        { st with
          byCollatedRsaSha1 := KeyedList.set Slots.key ⟨e.key, e.vrsLst⟩ st.byCollatedRsaSha1
          allRsaSha1Lst := st.allRsaSha1Lst ++ [e.key] }
      else st := by
  unfold collateRsa isNew isMajority
  cases hget : KeyedList.get Slots.key e.key st.byCollatedRsaSha1 with
  | some e' => simp
  | none =>
    by_cases hfew : listed e.vrsLst ≤ dc.nAuthorities / 2
    · simp [hfew]
    · simp [not_le.mp hfew]

theorem foldl_collateRsa_exact (dc : Dircollator) {l : List (Slots Bytes)} (st : Collated)
    (hkeyed : KeyedList.Keyed Slots.key l) :
    (l.foldl (collateRsa dc) st).allRsaSha1Lst =
        st.allRsaSha1Lst ++ (l.filter (isNew dc.nAuthorities st)).map Slots.key ∧
      (∀ id e, KeyedList.get Slots.key id st.byCollatedRsaSha1 = some e →
        KeyedList.get Slots.key id (l.foldl (collateRsa dc) st).byCollatedRsaSha1 = some e) ∧
      (l.foldl (collateRsa dc) st).reflects = st.reflects := by
  induction l generalizing st with
  | nil => simp
  | cons e l ih =>
    obtain ⟨hnew, hkeyed'⟩ := List.nodup_cons.mp hkeyed
    obtain ⟨hall, hgot, hmarked⟩ := ih (collateRsa dc st e) hkeyed'
    rw [List.foldl_cons]
    by_cases hadded : isNew dc.nAuthorities st e = true
    · have hstep := collateRsa_eq dc st e
      rw [if_pos hadded] at hstep
      have hnone : KeyedList.get Slots.key e.key st.byCollatedRsaSha1 = none := by
        simp only [isNew, Bool.and_eq_true, Option.isNone_iff_eq_none] at hadded
        exact hadded.2
      -- the identity that was added does not come again
      have hsame : l.filter (isNew dc.nAuthorities (collateRsa dc st e)) =
          l.filter (isNew dc.nAuthorities st) := by
        refine List.filter_congr fun e' he' => ?_
        have hne : e'.key ≠ e.key := fun hkey => hnew (List.mem_map.mpr ⟨e', he', hkey⟩)
        rw [isNew, isNew, hstep, KeyedList.get_set, if_neg hne]
      rw [List.filter_cons_of_pos hadded, hall, hmarked, hsame]
      refine ⟨by rw [hstep, List.map_cons, List.append_assoc]; rfl, fun id e' hid => hgot id e' ?_,
        by rw [hstep]⟩
      have hne : id ≠ e.key := by
        rintro rfl
        rw [hnone] at hid
        cases hid
      rw [hstep, KeyedList.get_set, if_neg hne, hid]
    · have hstep := collateRsa_eq dc st e
      rw [if_neg hadded] at hstep
      rw [hstep] at hall hgot hmarked ⊢
      rw [List.filter_cons_of_neg hadded]
      exact ⟨hall, hgot, hmarked⟩

theorem ListedByMajority.common {nAuthorities : ℕ} {votes : List (List VoteRouterstatus)}
    {p q : VoteRouterstatus → Bool} (hp : ListedByMajority nAuthorities votes p)
    (hq : ListedByMajority nAuthorities votes q) (hle : votes.length ≤ nAuthorities) :
    ∃ l ∈ votes, l.any p = true ∧ l.any q = true := by
  by_contra hnone
  have hdisjoint : ∀ l ∈ votes, ¬ (l.any p = true ∧ l.any q = true) := fun l hl hboth =>
    hnone ⟨l, hl, hboth⟩
  have hsum : (votes.countP fun l => l.any p) + (votes.countP fun l => l.any q) ≤ votes.length := by
    clear hp hq hle hnone
    induction votes with
    | nil => simp
    | cons l votes ih =>
      obtain ⟨hl, hrest⟩ := List.forall_mem_cons.mp hdisjoint
      have hsum := ih hrest
      rw [List.countP_cons, List.countP_cons, List.length_cons]
      split_ifs <;> first | omega | exact absurd ⟨‹_›, ‹_›⟩ hl
  unfold ListedByMajority at hp hq
  omega

theorem ListedByMajority.pair_unique {nAuthorities : ℕ} {votes : List (List VoteRouterstatus)}
    (hwf : ∀ l ∈ votes, WellFormedVote l) (hle : votes.length ≤ nAuthorities) {id ed ed' : Bytes}
    (h : ListedByMajority nAuthorities votes (isForPair (id, ed)))
    (h' : ListedByMajority nAuthorities votes (isForPair (id, ed'))) : ed = ed' := by
  obtain ⟨l, hl, hany, hany'⟩ := h.common h' hle
  obtain ⟨rs, hrs, hpair⟩ := List.any_eq_true.mp hany
  obtain ⟨rs', hrs', hpair'⟩ := List.any_eq_true.mp hany'
  simp only [isForPair, Bool.and_eq_true, decide_eq_true_eq, Prod.mk.injEq] at hpair hpair'
  have hsame := List.inj_on_of_nodup_map (hwf l hl).1 hrs hrs' (hpair.1.1.trans hpair'.1.1.symm)
  rw [← hpair.1.2, ← hpair'.1.2, hsame]

theorem ListedByMajority.router_unique {nAuthorities : ℕ} {votes : List (List VoteRouterstatus)}
    (hwf : ∀ l ∈ votes, WellFormedVote l) (hle : votes.length ≤ nAuthorities) {id id' ed : Bytes}
    (hed : (ed.all fun c => decide (c = 0)) = false)
    (h : ListedByMajority nAuthorities votes (isForPair (id, ed)))
    (h' : ListedByMajority nAuthorities votes (isForPair (id', ed))) : id = id' := by
  obtain ⟨l, hl, hany, hany'⟩ := h.common h' hle
  obtain ⟨rs, hrs, hpair⟩ := List.any_eq_true.mp hany
  obtain ⟨rs', hrs', hpair'⟩ := List.any_eq_true.mp hany'
  simp only [isForPair, Bool.and_eq_true, decide_eq_true_eq, Prod.mk.injEq] at hpair hpair'
  have hmem : ∀ {x : VoteRouterstatus}, x ∈ l → x.hasEd25519Listing = true → x.ed25519Id = ed →
      x ∈ l.filter fun rs => rs.hasEd25519Listing && !rs.ed25519Id.all fun c => decide (c = 0) :=
    fun hx hlisting hxed => List.mem_filter.mpr ⟨hx, by simp [hlisting, hxed, hed]⟩
  have hsame := List.inj_on_of_nodup_map (hwf l hl).2 (hmem hrs hpair.2 hpair.1.2)
    (hmem hrs' hpair'.2 hpair'.1.2) (hpair.1.2.trans hpair'.1.2.symm)
  rw [← hpair.1.1, ← hpair'.1.1, hsame]

/-! ### All votes -/

theorem arrayFor_votes {votes : List (List VoteRouterstatus)} {V : ℕ → List VoteRouterstatus}
    (hV : ∀ j, V j = votes.getD j []) (isFor : VoteRouterstatus → Bool) :
    arrayFor votes.length V isFor = votes.map fun l => l.find? isFor := by
  unfold arrayFor
  refine List.ext_getElem (by simp) fun i hi hi' => ?_
  have hlt : i < votes.length := by simpa using hi'
  simp [hV, List.getElem?_eq_getElem hlt]

theorem listed_map_find? (votes : List (List VoteRouterstatus)) (isFor : VoteRouterstatus → Bool) :
    listed (votes.map fun l => l.find? isFor) = votes.countP fun l => l.any isFor := by
  rw [listed, List.countP_map]
  refine List.countP_congr fun l _ => ?_
  simp [List.find?_isSome]

theorem isMajority_iff {nAuthorities : ℕ} {votes : List (List VoteRouterstatus)}
    {isFor : VoteRouterstatus → Bool} :
    nAuthorities / 2 < listed (votes.map fun l => l.find? isFor) ↔
      ListedByMajority nAuthorities votes isFor := by
  rw [listed_map_find?, ListedByMajority]
  omega

theorem fillSlot_find?_eq_some {l : List VoteRouterstatus} (hwf : WellFormedVote l) {id ed : Bytes}
    {rs : VoteRouterstatus} :
    fillSlot (l.find? (isForPair (id, ed))) (l.find? (isForRsa id)) = some rs ↔
      rs ∈ l ∧ (isForPair (id, ed) rs = true ∨
        (isForRsa id rs = true ∧ rs.hasEd25519Listing = false)) := by
  have hsame : ∀ {x y : VoteRouterstatus}, x ∈ l → y ∈ l → x.identityDigest = id →
      y.identityDigest = id → x = y := fun hx hy hxid hyid =>
    List.inj_on_of_nodup_map hwf.1 hx hy (hxid.trans hyid.symm)
  have hpairId : ∀ {x : VoteRouterstatus}, isForPair (id, ed) x = true → x.identityDigest = id ∧
      x.hasEd25519Listing = true := fun {x} hx => by
    simp only [isForPair, Bool.and_eq_true, decide_eq_true_eq, Prod.mk.injEq] at hx
    exact ⟨hx.1.1, hx.2⟩
  have hrsaId : ∀ {x : VoteRouterstatus}, isForRsa id x = true ↔ x.identityDigest = id := by
    simp [isForRsa]
  cases hpair : l.find? (isForPair (id, ed)) with
  | some rs' =>
    have hmem := List.mem_of_find?_eq_some hpair
    have hfor := List.find?_some hpair
    rw [fillSlot, Option.some.injEq]
    constructor
    · rintro rfl
      exact ⟨hmem, .inl hfor⟩
    · rintro ⟨hrs, hforRs | ⟨hid, -⟩⟩
      · exact hsame hmem hrs (hpairId hfor).1 (hpairId hforRs).1
      · exact hsame hmem hrs (hpairId hfor).1 (hrsaId.mp hid)
  | none =>
    rw [List.find?_eq_none] at hpair
    cases hrsa : l.find? (isForRsa id) with
    | none =>
      rw [List.find?_eq_none] at hrsa
      simp only [fillSlot, reduceCtorEq, false_iff, not_and, not_or]
      exact fun hrs => ⟨hpair rs hrs, fun hid => absurd hid (hrsa rs hrs)⟩
    | some rs2 =>
      have hmem := List.mem_of_find?_eq_some hrsa
      have hid := hrsaId.mp (List.find?_some hrsa)
      rw [fillSlot]
      constructor
      · intro hfill
        split_ifs at hfill with hlisting
        obtain rfl := Option.some.inj hfill
        exact ⟨hmem, .inr ⟨hrsaId.mpr hid, by simpa using hlisting⟩⟩
      · rintro ⟨hrs, hforRs | ⟨hidRs, hlisting⟩⟩
        · exact absurd hforRs (hpair rs hrs)
        · obtain rfl := hsame hmem hrs hid (hrsaId.mp hidRs)
          rw [if_neg (by simp [hlisting])]

structure CollatedRight (nAuthorities : ℕ) (votes : List (List VoteRouterstatus)) (st : Collated) :
    Prop where
  sorted : st.allRsaSha1Lst.Pairwise (· < ·)
  routers : ∀ id, id ∈ st.allRsaSha1Lst ↔
    (∃ ed, ListedByMajority nAuthorities votes (isForPair (id, ed))) ∨
      ListedByMajority nAuthorities votes (isForRsa id)
  arrays : ∀ id ed, ListedByMajority nAuthorities votes (isForPair (id, ed)) →
    ∃ e, KeyedList.get Slots.key id st.byCollatedRsaSha1 = some e ∧
      e.vrsLst.length = votes.length ∧
      ∀ (i : ℕ) (rs : VoteRouterstatus), e.vrsLst[i]? = some (some rs) ↔
        ∃ l, votes[i]? = some l ∧ rs ∈ l ∧ (isForPair (id, ed) rs = true ∨
          (isForRsa id rs = true ∧ rs.hasEd25519Listing = false))
  marked : ∀ p ∈ st.reflects, ∀ q ∈ st.reflects, p.2.ed25519Id = q.2.ed25519Id →
    (p.2.ed25519Id.all fun c => decide (c = 0)) = false → p.2.identityDigest = q.2.identityDigest

/-- For all well-formed votes and whatever order the tables are gone through in. -/
theorem collate_spec {votes : List (List VoteRouterstatus)} {nAuthorities : ℕ}
    (hwf : ∀ l ∈ votes, WellFormedVote l) (hle : votes.length ≤ nAuthorities) (order : TableOrder) :
    ∃ dc dc' st, dircollatorNew votes.length nAuthorities = some dc ∧
      votes.foldlM Dircollator.addVote dc = some dc' ∧ dc'.collate order = some st ∧
      CollatedRight nAuthorities votes st := by
  obtain ⟨dc', hadded, hready⟩ := Dircollator.foldlM_addVote (Q := fun _ => True)
    (fun l hl => ⟨(hwf l hl).1, fun _ _ => trivial⟩)
    (ready_dircollatorNew _ votes.length nAuthorities) (by omega)
  obtain ⟨V, hexact, -, hV⟩ := foldlM_addVote_exact (exact_dircollatorNew votes.length nAuthorities)
    (fun _ _ => rfl) (fun l hl => (hwf l hl).1) hadded
  obtain ⟨st, hcollate, -⟩ := Dircollator.collate_isSome hready order
  refine ⟨_, dc', st, if_pos hle, hadded, hcollate, ?_⟩
  have hnVotes := hready.votes
  have hnAuthorities := hready.authorities
  dsimp only at hV
  simp only [Nat.zero_add] at hV
  -- the tables hold what the votes list
  have hboth : ∀ pair, slotsOf dc'.nVotes pair dc'.byBothIds =
      votes.map fun l => l.find? (isForPair pair) := fun pair => by
    rw [hexact.both.arrays, hnVotes, arrayFor_votes hV]
  have hrsa : ∀ id, slotsOf dc'.nVotes id dc'.byRsaSha1 =
      votes.map fun l => l.find? (isForRsa id) := fun id => by
    rw [hexact.rsa.arrays, hnVotes, arrayFor_votes hV]
  unfold Dircollator.collate at hcollate
  obtain ⟨mid, hpairs, hrest⟩ := Option.bind_eq_some_iff.mp hcollate
  obtain rfl := Option.some.inj hrest
  have hbothPerm := order.both_perm dc'.byBothIds
  have hrsaPerm := order.rsa_perm dc'.byRsaSha1
  set L := order.both dc'.byBothIds with hL
  set R := order.rsa dc'.byRsaSha1 with hR
  have hLkeyed : KeyedList.Keyed Slots.key L := (hbothPerm.map Slots.key).nodup_iff.mpr
    hexact.both.keyed
  have hRkeyed : KeyedList.Keyed Slots.key R := (hrsaPerm.map Slots.key).nodup_iff.mpr
    hexact.rsa.keyed
  have hpairMajority : ∀ pair, ListedByMajority nAuthorities votes (isForPair pair) ↔
      ∃ e ∈ L.filter (isMajority dc'.nAuthorities), e.key = pair := fun pair => by
    rw [← isMajority_iff, ← hboth, ← exists_listed_iff hexact.both.keyed, hnAuthorities]
    simp only [List.mem_filter, isMajority, decide_eq_true_eq, hbothPerm.mem_iff, and_assoc]
  have hrsaMajority : ∀ id, ListedByMajority nAuthorities votes (isForRsa id) ↔
      ∃ e ∈ R, isMajority dc'.nAuthorities e = true ∧ e.key = id := fun id => by
    rw [← isMajority_iff, ← hrsa, ← exists_listed_iff hexact.rsa.keyed, hnAuthorities]
    simp only [isMajority, decide_eq_true_eq, hrsaPerm.mem_iff]
  have hpairIds : ∀ id, id ∈ (L.filter (isMajority dc'.nAuthorities)).map (fun e => e.key.1) ↔
      ∃ ed, ListedByMajority nAuthorities votes (isForPair (id, ed)) := by
    intro id
    simp only [hpairMajority, List.mem_map]
    constructor
    · rintro ⟨e, he, rfl⟩
      exact ⟨e.key.2, e, he, rfl⟩
    · rintro ⟨ed, e, he, hkey⟩
      exact ⟨e, he, congrArg Prod.fst hkey⟩
  have hone : ((L.filter (isMajority dc'.nAuthorities)).map fun e => e.key.1).Nodup := by
    refine List.Nodup.map_on (fun e he e' he' hid => ?_)
      ((List.Nodup.of_map _ hLkeyed).filter _)
    have hed := ListedByMajority.pair_unique hwf hle ((hpairMajority e.key).mpr ⟨e, he, rfl⟩)
      ((hpairMajority (e.key.1, e'.key.2)).mpr ⟨e', he', Prod.ext hid.symm rfl⟩)
    exact hLkeyed.eq (List.mem_filter.mp he).1 (List.mem_filter.mp he').1 (Prod.ext hid hed)
  obtain ⟨hall, hgot, hother, hmarked⟩ := foldlM_collateBoth_exact hone hpairs
  obtain ⟨hall', hgot', hmarked'⟩ := foldl_collateRsa_exact dc' mid hRkeyed
  rw [List.nil_append] at hall
  rw [hall] at hall'
  have hperm := List.mergeSort_perm (R.foldl (collateRsa dc') mid).allRsaSha1Lst
    fun a b => decide (a ≤ b)
  -- an identity that the first loop has taken is not new to the second
  have hnewId : ∀ id, id ∈ (R.filter (isNew dc'.nAuthorities mid)).map Slots.key ↔
      ListedByMajority nAuthorities votes (isForRsa id) ∧
        KeyedList.get Slots.key id mid.byCollatedRsaSha1 = none := by
    intro id
    simp only [List.mem_map, List.mem_filter, isNew, Bool.and_eq_true, Option.isNone_iff_eq_none,
      hrsaMajority]
    constructor
    · rintro ⟨e, ⟨he, hmajority, hnone⟩, rfl⟩
      exact ⟨⟨e, he, hmajority, rfl⟩, hnone⟩
    · rintro ⟨⟨e, he, hmajority, rfl⟩, hnone⟩
      exact ⟨e, ⟨he, hmajority, hnone⟩, rfl⟩
  have hnodup : (R.foldl (collateRsa dc') mid).allRsaSha1Lst.Nodup := by
    rw [hall', List.nodup_append]
    refine ⟨hone, (List.filter_sublist.map Slots.key).nodup hRkeyed, fun id hid id' hid' heq => ?_⟩
    subst heq
    obtain ⟨e, he, rfl⟩ := List.mem_map.mp hid
    have hnone := ((hnewId _).mp hid').2
    rw [hgot e he] at hnone
    cases hnone
  refine ⟨?_, fun id => ?_, fun id ed hmajority => ?_, ?_⟩
  · have hle' := pairwise_sorted (R.foldl (collateRsa dc') mid).allRsaSha1Lst
    exact hle'.imp₂ (fun _ _ hle hne => (List.le_iff_lt_or_eq.mp hle).resolve_right hne)
      (hperm.nodup_iff.mpr hnodup)
  · dsimp only
    rw [hperm.mem_iff, hall', List.mem_append, hpairIds, hnewId]
    constructor
    · exact fun h => h.imp_right fun h' => h'.1
    · rintro (hpair | hrsaListed)
      · exact .inl hpair
      · by_cases hpair : ∃ ed, ListedByMajority nAuthorities votes (isForPair (id, ed))
        · exact .inl hpair
        · refine .inr ⟨hrsaListed, ?_⟩
          rw [hother id fun hmem => hpair ((hpairIds id).mp hmem)]
          rfl
  · obtain ⟨e, he, hkey⟩ := (hpairMajority (id, ed)).mp hmajority
    have hget := hgot e he
    rw [hkey] at hget
    refine ⟨_, hgot' id _ hget, ?_, fun i rs => ?_⟩
    · rw [← slotsOf_of_mem dc'.nVotes hexact.both.keyed
        (hbothPerm.mem_iff.mp (List.mem_filter.mp he).1), hboth, hrsa]
      simp
    · rw [← slotsOf_of_mem dc'.nVotes hexact.both.keyed
        (hbothPerm.mem_iff.mp (List.mem_filter.mp he).1), hboth, hrsa, hkey, List.getElem?_zipWith, List.getElem?_map,
        List.getElem?_map]
      cases hvote : votes[i]? with
      | none => simp
      | some l =>
        have hl := List.mem_of_getElem? hvote
        simp only [Option.map_some, Option.some.injEq, exists_eq_left']
        exact fillSlot_find?_eq_some (hwf l hl)
  · intro p hp q hq hed hnonzero
    rw [hmarked'] at hp hq
    have hpairOf : ∀ x ∈ mid.reflects,
        ListedByMajority nAuthorities votes (isForPair (x.2.identityDigest, x.2.ed25519Id)) := by
      intro x hx
      obtain hx | ⟨e, he, hx⟩ := (hmarked x).mp hx
      · cases hx
      · refine (hpairMajority _).mpr ⟨e, he, ?_⟩
        have hmem := hbothPerm.mem_iff.mp (List.mem_filter.mp he).1
        have hslot := getElem?_of_mem_entries hx
        exact ((hready.inv.both e hmem).2 _ _ hslot).1.symm
    have hp' := hpairOf p hp
    have hq' := hpairOf q hq
    rw [← hed] at hq'
    exact ListedByMajority.router_unique hwf hle hnonzero hp' hq'

def twoVotes : List (List VoteRouterstatus) := [[exampleRouterstatus 1], [exampleRouterstatus 1]]

theorem twoVotes_collated :
    ∃ dc dc' st, dircollatorNew twoVotes.length 3 = some dc ∧
      twoVotes.foldlM Dircollator.addVote dc = some dc' ∧ dc'.collate sameOrder = some st ∧
      CollatedRight 3 twoVotes st :=
  collate_spec (by unfold WellFormedVote; decide) (by decide) sameOrder

end Dirvote
