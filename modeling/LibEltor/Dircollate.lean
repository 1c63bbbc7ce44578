/-
Entries of several votes brought together by router (`feature/dirauth/dircollate.c`).

The collator keeps an array of the votes' entries for each RSA identity, and one for each pair of an
RSA and an Ed25519 identity.  A slot is written once as long as no vote has two entries for one
identity (`Dircollator.addVote_isSome`).  A pair that more than half of the authorities list is
collated, with the entries beside it that have no Ed25519 identity, and so is an RSA identity that
more than half list when no pair of it was (`Dircollator.collate_isSome`).  The entries of one array
that reflect the consensus about Ed25519 keys have one key (`Collated.SameKey`).
-/
import Mathlib
import LibEltor.Bytes
import LibEltor.KeyedList

namespace Dirvote

structure VoteRouterstatus where
  identityDigest : Bytes
  descriptorDigest : Bytes
  publishedOn : ℤ
  nickname : Bytes
  ipv4Addr : ℕ
  ipv4Orport : ℕ
  ipv4Dirport : ℕ
  /-- Bit `n` stands for the `n`th of the vote's known flags. -/
  flags : ℕ
  hasEd25519Listing : Bool
  ed25519Id : Bytes
  guardfractionPercentage : Option ℕ
  hasExitsummary : Bool
  exitsummary : Option Bytes
deriving DecidableEq, Repr

/-! ### The collator -/

/-- What the `n`th vote has for a key is in the `n`th slot. -/
structure Slots (κ : Type) where
  key : κ
  vrsLst : List (Option VoteRouterstatus)

structure Dircollator where
  nVotes : ℕ
  nAuthorities : ℕ
  nextVoteNum : ℕ
  byRsaSha1 : List (Slots Bytes)
  byBothIds : List (Slots (Bytes × Bytes))

/-- The order in which the tables are gone through, which their hashes decide. -/
structure TableOrder where
  both : List (Slots (Bytes × Bytes)) → List (Slots (Bytes × Bytes))
  rsa : List (Slots Bytes) → List (Slots Bytes)
  both_perm : ∀ l, (both l).Perm l
  rsa_perm : ∀ l, (rsa l).Perm l

def slotsOf {κ : Type} [DecidableEq κ] (nVotes : ℕ) (key : κ) (m : List (Slots κ)) :
    List (Option VoteRouterstatus) :=
  match KeyedList.get Slots.key key m with
  | some e => e.vrsLst
  | none => List.replicate nVotes none

/-- None where the slot is taken. -/
def addSlot {κ : Type} [DecidableEq κ] (nVotes : ℕ) (key : κ) (voteNum : ℕ)
    (vrs : VoteRouterstatus) (m : List (Slots κ)) : Option (List (Slots κ)) :=
  let vrsLst := slotsOf nVotes key m
  if (vrsLst.getD voteNum none).isSome then none
  else some (KeyedList.set Slots.key ⟨key, vrsLst.set voteNum (some vrs)⟩ m)

def dircollatorNew (nVotes nAuthorities : ℕ) : Option Dircollator :=
  if nVotes ≤ nAuthorities then some ⟨nVotes, nAuthorities, 0, [], []⟩ else none

namespace Dircollator

def addRouterstatus (dc : Dircollator) (voteNum : ℕ) (vrs : VoteRouterstatus) :
    Option Dircollator := do
  let byRsaSha1 ← addSlot dc.nVotes vrs.identityDigest voteNum vrs dc.byRsaSha1
  if vrs.hasEd25519Listing then
    let byBothIds ←
      addSlot dc.nVotes (vrs.identityDigest, vrs.ed25519Id) voteNum vrs dc.byBothIds
    some { dc with byRsaSha1, byBothIds }
  else some { dc with byRsaSha1 }

def addVote (dc : Dircollator) (routerstatusList : List VoteRouterstatus) : Option Dircollator :=
  if dc.nextVoteNum < dc.nVotes then
    routerstatusList.foldlM (fun dc' vrs => dc'.addRouterstatus dc.nextVoteNum vrs)
      { dc with nextVoteNum := dc.nextVoteNum + 1 }
  else none

end Dircollator

/-! ### Collation -/

structure Collated where
  byCollatedRsaSha1 : List (Slots Bytes)
  allRsaSha1Lst : List Bytes
  /-- The entries, each with its vote, that have `ed25519_reflects_consensus` set. -/
  reflects : List (ℕ × VoteRouterstatus)

def listed (vrsLst : List (Option VoteRouterstatus)) : ℕ := vrsLst.countP Option.isSome

def entries (vrsLst : List (Option VoteRouterstatus)) : List (ℕ × VoteRouterstatus) :=
  vrsLst.zipIdx.filterMap fun s => s.1.map fun rs => (s.2, rs)

/-- An empty slot is given the vote's entry by RSA identity, if that has no Ed25519 identity. -/
def fillSlot : Option VoteRouterstatus → Option VoteRouterstatus → Option VoteRouterstatus
  | some rs, _ => some rs
  | none, some rs2 => if rs2.hasEd25519Listing then none else some rs2
  | none, none => none

def collateBoth (dc : Dircollator) (st : Collated) (ent : Slots (Bytes × Bytes)) :
    Option Collated :=
  if listed ent.vrsLst ≤ dc.nAuthorities / 2 then some st
  else do
    let e2 ← KeyedList.get Slots.key ent.key.1 dc.byRsaSha1
    some {
      byCollatedRsaSha1 := KeyedList.set Slots.key
        ⟨ent.key.1, List.zipWith fillSlot ent.vrsLst e2.vrsLst⟩ st.byCollatedRsaSha1
      allRsaSha1Lst := st.allRsaSha1Lst ++ [ent.key.1]
      reflects := st.reflects ++ entries ent.vrsLst }

def collateRsa (dc : Dircollator) (st : Collated) (ent : Slots Bytes) : Collated :=
  if (KeyedList.get Slots.key ent.key st.byCollatedRsaSha1).isSome then st
  else if listed ent.vrsLst ≤ dc.nAuthorities / 2 then st
  else { st with
    byCollatedRsaSha1 := KeyedList.set Slots.key ⟨ent.key, ent.vrsLst⟩ st.byCollatedRsaSha1
    allRsaSha1Lst := st.allRsaSha1Lst ++ [ent.key] }

def Dircollator.collate (dc : Dircollator) (order : TableOrder) : Option Collated := do
  let st ← (order.both dc.byBothIds).foldlM (collateBoth dc) ⟨[], [], []⟩
  let st := (order.rsa dc.byRsaSha1).foldl (collateRsa dc) st
  some { st with allRsaSha1Lst := st.allRsaSha1Lst.mergeSort fun a b => decide (a ≤ b) }

/-- Every array has a slot for each vote, and what is in a slot satisfies `P`. -/
def Holds {κ : Type} (nVotes : ℕ) (P : κ → ℕ → VoteRouterstatus → Prop) (m : List (Slots κ)) :
    Prop :=
  ∀ e ∈ m, e.vrsLst.length = nVotes ∧
    ∀ (i : ℕ) (rs : VoteRouterstatus), e.vrsLst[i]? = some (some rs) → P e.key i rs

variable {κ : Type} [DecidableEq κ] {nVotes : ℕ} {P R : κ → ℕ → VoteRouterstatus → Prop}
  {m : List (Slots κ)} {key : κ} {voteNum : ℕ} {vrs : VoteRouterstatus}

theorem Holds.slotsOf (h : Holds nVotes P m) (key : κ) :
    (slotsOf nVotes key m).length = nVotes ∧
      ∀ (i : ℕ) (rs : VoteRouterstatus), (Dirvote.slotsOf nVotes key m)[i]? = some (some rs) →
        P key i rs := by
  rw [Dirvote.slotsOf]
  cases hget : KeyedList.get Slots.key key m with
  | some e =>
    obtain ⟨hmem, rfl⟩ := KeyedList.mem_of_get hget
    exact h e hmem
  | none =>
    refine ⟨List.length_replicate, fun i rs hrs => ?_⟩
    have hnone := List.eq_of_mem_replicate (List.mem_of_getElem? hrs)
    cases hnone

theorem addSlot_isSome (h : Holds nVotes P m) (hfree : ∀ rs, ¬P key voteNum rs)
    (hmono : ∀ k i rs, P k i rs → R k i rs) (hnew : R key voteNum vrs) :
    ∃ m', addSlot nVotes key voteNum vrs m = some m' ∧ Holds nVotes R m' ∧
      (∀ e ∈ m, ∃ e' ∈ m', e'.key = e.key) ∧ (∃ e ∈ m', e.key = key) ∧
      ∀ e ∈ m', e.key = key ∨ ∃ e' ∈ m, e'.key = e.key := by
  obtain ⟨hlen, hslots⟩ := h.slotsOf key
  have hempty : ((slotsOf nVotes key m).getD voteNum none).isSome = false := by
    rw [List.getD_eq_getElem?_getD]
    cases hget : (slotsOf nVotes key m)[voteNum]? with
    | none => rfl
    | some slot =>
      cases slot with
      | none => rfl
      | some rs => exact absurd (hslots voteNum rs hget) (hfree rs)
  refine ⟨_, by simp only [addSlot, hempty]; rfl, ?_, fun e he => KeyedList.exists_mem_set ⟨e, he, rfl⟩ _,
    ⟨_, KeyedList.mem_set.mpr (.inr rfl), rfl⟩, ?_⟩
  · intro e he
    obtain ⟨hmem, -⟩ | rfl := KeyedList.mem_set.mp he
    · exact ⟨(h e hmem).1, fun i rs hrs => hmono _ _ _ ((h e hmem).2 i rs hrs)⟩
    · refine ⟨by rw [List.length_set, hlen], fun i rs hrs => ?_⟩
      rw [List.getElem?_set] at hrs
      split_ifs at hrs with hi hlt
      · obtain rfl := hi
        obtain rfl := Option.some.inj (Option.some.inj hrs)
        exact hnew
      · exact hmono _ _ _ (hslots i rs hrs)
  · intro e he
    obtain ⟨hmem, -⟩ | rfl := KeyedList.mem_set.mp he
    · exact .inr ⟨e, hmem, rfl⟩
    · exact .inl rfl

/-! ### Adding votes -/

structure Dircollator.Inv (seen : ℕ → VoteRouterstatus → Prop) (dc : Dircollator) : Prop where
  rsa : Holds dc.nVotes (fun k i rs => rs.identityDigest = k ∧ seen i rs) dc.byRsaSha1
  both : Holds dc.nVotes
    (fun k i rs => (rs.identityDigest, rs.ed25519Id) = k ∧ rs.hasEd25519Listing = true ∧ seen i rs)
    dc.byBothIds
  known : ∀ e ∈ dc.byBothIds, ∃ e2 ∈ dc.byRsaSha1, e2.key = e.key.1

theorem Dircollator.addRouterstatus_isSome {dc : Dircollator}
    {seen : ℕ → VoteRouterstatus → Prop} (h : dc.Inv seen) {n : ℕ}
    (hfree : ∀ rs, seen n rs → rs.identityDigest ≠ vrs.identityDigest) :
    ∃ dc' : Dircollator, dc.addRouterstatus n vrs = some dc' ∧
      dc'.Inv (fun i rs => seen i rs ∨ i = n ∧ rs = vrs) ∧ dc'.nVotes = dc.nVotes ∧
      dc'.nAuthorities = dc.nAuthorities ∧ dc'.nextVoteNum = dc.nextVoteNum := by
  obtain ⟨rsa', hadd, hrsa, hkept, hthere, -⟩ := addSlot_isSome
    (R := fun k i rs => rs.identityDigest = k ∧ (seen i rs ∨ i = n ∧ rs = vrs)) h.rsa
    (fun rs hrs => hfree rs hrs.2 hrs.1) (fun _ _ _ hp => ⟨hp.1, .inl hp.2⟩)
    ⟨rfl, .inr ⟨rfl, rfl⟩⟩
  have hknown : ∀ e ∈ dc.byBothIds, ∃ e2 ∈ rsa', e2.key = e.key.1 := by
    intro e he
    obtain ⟨e2, he2, hkey⟩ := h.known e he
    obtain ⟨e3, he3, hkey'⟩ := hkept e2 he2
    exact ⟨e3, he3, hkey'.trans hkey⟩
  rw [Dircollator.addRouterstatus, hadd]
  simp only [Option.bind_eq_bind, Option.bind_some]
  by_cases hlisting : vrs.hasEd25519Listing = true
  · obtain ⟨both', hadd', hboth, -, -, hkeys⟩ := addSlot_isSome
      (R := fun k i rs => (rs.identityDigest, rs.ed25519Id) = k ∧ rs.hasEd25519Listing = true ∧
        (seen i rs ∨ i = n ∧ rs = vrs)) h.both
      (fun rs hrs => hfree rs hrs.2.2 (Prod.mk.inj hrs.1).1)
      (fun _ _ _ hp => ⟨hp.1, hp.2.1, .inl hp.2.2⟩) ⟨rfl, hlisting, .inr ⟨rfl, rfl⟩⟩
    rw [if_pos hlisting, hadd']
    refine ⟨_, rfl, ⟨hrsa, hboth, fun e he => ?_⟩, rfl, rfl, rfl⟩
    obtain hkey | ⟨e', he', hkey⟩ := hkeys e he
    · rw [hkey]
      exact hthere
    · rw [← hkey]
      exact hknown e' he'
  · rw [if_neg hlisting]
    refine ⟨_, rfl, ⟨hrsa, fun e he => ?_, hknown⟩, rfl, rfl, rfl⟩
    obtain ⟨hlen, hslots⟩ := h.both e he
    exact ⟨hlen, fun i rs hrs => ⟨(hslots i rs hrs).1, (hslots i rs hrs).2.1,
      .inl (hslots i rs hrs).2.2⟩⟩

theorem Dircollator.Inv.mono {dc : Dircollator} {seen seen' : ℕ → VoteRouterstatus → Prop}
    (h : dc.Inv seen) (hmono : ∀ i rs, seen i rs → seen' i rs) : dc.Inv seen' where
  rsa e he := ⟨(h.rsa e he).1, fun i rs hrs =>
    ⟨((h.rsa e he).2 i rs hrs).1, hmono _ _ ((h.rsa e he).2 i rs hrs).2⟩⟩
  both e he := ⟨(h.both e he).1, fun i rs hrs => ⟨((h.both e he).2 i rs hrs).1,
    ((h.both e he).2 i rs hrs).2.1, hmono _ _ ((h.both e he).2 i rs hrs).2.2⟩⟩
  known := h.known

theorem Dircollator.foldlM_addRouterstatus {l : List VoteRouterstatus}
    (hnodup : (l.map VoteRouterstatus.identityDigest).Nodup) {n : ℕ} {dc : Dircollator}
    {seen : ℕ → VoteRouterstatus → Prop} (h : dc.Inv seen)
    (hfree : ∀ vrs ∈ l, ∀ rs, seen n rs → rs.identityDigest ≠ vrs.identityDigest) :
    ∃ dc' : Dircollator, l.foldlM (fun dc' vrs => dc'.addRouterstatus n vrs) dc = some dc' ∧
      dc'.Inv (fun i rs => seen i rs ∨ i = n ∧ rs ∈ l) ∧ dc'.nVotes = dc.nVotes ∧
      dc'.nAuthorities = dc.nAuthorities ∧ dc'.nextVoteNum = dc.nextVoteNum := by
  induction l generalizing dc seen with
  | nil => exact ⟨dc, rfl, h.mono fun i rs hs => .inl hs, rfl, rfl, rfl⟩
  | cons vrs l ih =>
    obtain ⟨hvrs, hl⟩ := List.nodup_cons.mp hnodup
    obtain ⟨dc₁, hadd, hinv, hvotes, hauth, hnext⟩ :=
      addRouterstatus_isSome h (hfree vrs List.mem_cons_self)
    have hfree' : ∀ vrs' ∈ l, ∀ rs, (seen n rs ∨ n = n ∧ rs = vrs) →
        rs.identityDigest ≠ vrs'.identityDigest := by
      rintro vrs' hvrs' rs (hs | ⟨-, rfl⟩) heq
      · exact hfree vrs' (List.mem_cons_of_mem vrs hvrs') rs hs heq
      · exact hvrs (heq ▸ List.mem_map_of_mem hvrs')
    obtain ⟨dc₂, hfold, hinv', hvotes', hauth', hnext'⟩ := ih hl hinv hfree'
    refine ⟨dc₂, by rw [List.foldlM_cons, hadd]; exact hfold, hinv'.mono ?_, hvotes'.trans hvotes,
      hauth'.trans hauth, hnext'.trans hnext⟩
    rintro i rs ((hs | ⟨rfl, rfl⟩) | ⟨rfl, hmem⟩)
    · exact .inl hs
    · exact .inr ⟨rfl, List.mem_cons_self⟩
    · exact .inr ⟨rfl, List.mem_cons_of_mem vrs hmem⟩

/-- Between two votes: what was added is from the votes before the next one, and satisfies `Q`. -/
structure Dircollator.Ready (Q : VoteRouterstatus → Prop) (nVotes nAuthorities nextVoteNum : ℕ)
    (dc : Dircollator) : Prop where
  inv : dc.Inv fun i rs => i < nextVoteNum ∧ Q rs
  votes : dc.nVotes = nVotes
  authorities : dc.nAuthorities = nAuthorities
  next : dc.nextVoteNum = nextVoteNum

theorem Dircollator.addVote_isSome {Q : VoteRouterstatus → Prop} {dc : Dircollator} {a n : ℕ}
    (h : dc.Ready Q nVotes a n) {l : List VoteRouterstatus}
    (hnodup : (l.map VoteRouterstatus.identityDigest).Nodup) (hQ : ∀ rs ∈ l, Q rs)
    (hlt : n < nVotes) : ∃ dc' : Dircollator, dc.addVote l = some dc' ∧
      dc'.Ready Q nVotes a (n + 1) := by
  have hinv : Dircollator.Inv (fun i rs => i < n ∧ Q rs)
      { dc with nextVoteNum := dc.nextVoteNum + 1 } := ⟨h.inv.rsa, h.inv.both, h.inv.known⟩
  obtain ⟨dc', hfold, hinv', hvotes, hauth, hnext⟩ :=
    foldlM_addRouterstatus hnodup hinv
      (fun _ _ rs hs => absurd hs.1 (Nat.lt_irrefl n))
  have hnum : dc.nextVoteNum < dc.nVotes := by rwa [h.next, h.votes]
  rw [h.next] at hfold
  refine ⟨dc', by rw [Dircollator.addVote, if_pos hnum, h.next]; exact hfold, hinv'.mono ?_,
    hvotes.trans h.votes, hauth.trans h.authorities,
    hnext.trans (by rw [h.next])⟩
  rintro i rs (⟨hi, hq⟩ | ⟨rfl, hmem⟩)
  · exact ⟨Nat.lt_succ_of_lt hi, hq⟩
  · exact ⟨Nat.lt_succ_self i, hQ rs hmem⟩

theorem Dircollator.foldlM_addVote {Q : VoteRouterstatus → Prop} {ls : List (List VoteRouterstatus)}
    (hls : ∀ l ∈ ls, (l.map VoteRouterstatus.identityDigest).Nodup ∧ ∀ rs ∈ l, Q rs)
    {dc : Dircollator} {a n : ℕ} (h : dc.Ready Q nVotes a n) (hlen : n + ls.length ≤ nVotes) :
    ∃ dc' : Dircollator, ls.foldlM Dircollator.addVote dc = some dc' ∧
      dc'.Ready Q nVotes a (n + ls.length) := by
  induction ls generalizing dc n with
  | nil => exact ⟨dc, rfl, h⟩
  | cons l ls ih =>
    rw [List.length_cons] at hlen
    obtain ⟨hnodup, hQ⟩ := hls l List.mem_cons_self
    obtain ⟨dc₁, hadd, hready⟩ := addVote_isSome h hnodup hQ (by omega)
    have hls' := fun l' hl' => hls l' (List.mem_cons_of_mem l hl')
    obtain ⟨dc₂, hfold, hready'⟩ := ih hls' hready (by omega)
    refine ⟨dc₂, by rw [List.foldlM_cons, hadd]; exact hfold, ?_⟩
    rw [List.length_cons, show n + (ls.length + 1) = n + 1 + ls.length by omega]
    exact hready'

theorem ready_dircollatorNew (Q : VoteRouterstatus → Prop) (nVotes a : ℕ) :
    Dircollator.Ready Q nVotes a 0 ⟨nVotes, a, 0, [], []⟩ where
  inv := ⟨by simp [Holds], by simp [Holds], by simp⟩
  votes := rfl
  authorities := rfl
  next := rfl

/-! ### Collating -/

/-- The array of a router: its entries have its identity, and the ones that count for the Ed25519
consensus have one key. -/
structure Collated.Array (Q : VoteRouterstatus → Prop) (counts : ℕ → VoteRouterstatus → Prop)
    (e : Slots Bytes) : Prop where
  entry : ∀ (i : ℕ) (rs : VoteRouterstatus), e.vrsLst[i]? = some (some rs) →
    rs.identityDigest = e.key ∧ Q rs
  sameKey : ∃ ed, ∀ (i : ℕ) (rs : VoteRouterstatus), e.vrsLst[i]? = some (some rs) →
    counts i rs → rs.ed25519Id = ed

/-- While pairs are collated.  Only an entry with an Ed25519 identity ever reflects the consensus,
and then its RSA identity is collated already. -/
structure Collated.Pairs (Q : VoteRouterstatus → Prop) (st : Collated) : Prop where
  array : ∀ e ∈ st.byCollatedRsaSha1,
    Collated.Array Q (fun _ rs => rs.hasEd25519Listing = true) e
  reflecting : ∀ p ∈ st.reflects, p.2.hasEd25519Listing = true ∧
    ∃ e ∈ st.byCollatedRsaSha1, e.key = p.2.identityDigest
  all : ∀ k ∈ st.allRsaSha1Lst, ∃ e ∈ st.byCollatedRsaSha1, e.key = k

structure Collated.SameKey (Q : VoteRouterstatus → Prop) (st : Collated) : Prop where
  array : ∀ e ∈ st.byCollatedRsaSha1,
    Collated.Array Q (fun i rs => (i, rs) ∈ st.reflects) e
  all : ∀ k ∈ st.allRsaSha1Lst, ∃ e ∈ st.byCollatedRsaSha1, e.key = k

theorem fillSlot_eq_some {s s2 : Option VoteRouterstatus} {rs : VoteRouterstatus}
    (h : fillSlot s s2 = some rs) : s = some rs ∨ s2 = some rs ∧ rs.hasEd25519Listing = false := by
  cases s with
  | some rs' => exact .inl h
  | none =>
    cases s2 with
    | none => cases h
    | some rs2 =>
      rw [fillSlot] at h
      split_ifs at h with hlisting
      obtain rfl := Option.some.inj h
      exact .inr ⟨rfl, by simpa using hlisting⟩

theorem getElem?_zipWith_fillSlot {l l' : List (Option VoteRouterstatus)} {i : ℕ}
    {rs : VoteRouterstatus} (h : (List.zipWith fillSlot l l')[i]? = some (some rs)) :
    l[i]? = some (some rs) ∨ l'[i]? = some (some rs) ∧ rs.hasEd25519Listing = false := by
  rw [List.getElem?_zipWith] at h
  cases hl : l[i]? with
  | none => simp [hl] at h
  | some s =>
    cases hl' : l'[i]? with
    | none => simp [hl, hl'] at h
    | some s2 =>
      rw [hl, hl'] at h
      obtain rfl | ⟨rfl, hlisting⟩ := fillSlot_eq_some (Option.some.inj h)
      · exact .inl rfl
      · exact .inr ⟨rfl, hlisting⟩

theorem getElem?_of_mem_entries {l : List (Option VoteRouterstatus)} {p : ℕ × VoteRouterstatus}
    (h : p ∈ entries l) : l[p.1]? = some (some p.2) := by
  obtain ⟨s, hs, hp⟩ := List.mem_filterMap.mp h
  obtain ⟨rs, hrs, rfl⟩ := Option.map_eq_some_iff.mp hp
  rw [← hrs]
  exact List.mem_zipIdx_iff_getElem?.mp hs

variable {Q : VoteRouterstatus → Prop} {dc : Dircollator} {a n : ℕ}

theorem collateBoth_isSome (h : dc.Ready Q nVotes a n) {st : Collated} (hst : st.Pairs Q)
    {ent : Slots (Bytes × Bytes)} (hent : ent ∈ dc.byBothIds) :
    ∃ st', collateBoth dc st ent = some st' ∧ st'.Pairs Q := by
  by_cases hfew : listed ent.vrsLst ≤ dc.nAuthorities / 2
  · exact ⟨st, by rw [collateBoth, if_pos hfew], hst⟩
  · obtain ⟨e2, he2, hget, hkey2⟩ := KeyedList.exists_get (h.inv.known ent hent)
    obtain ⟨-, hboth⟩ := h.inv.both ent hent
    obtain ⟨-, hrsa⟩ := h.inv.rsa e2 he2
    have hid : ∀ (i : ℕ) (rs : VoteRouterstatus), ent.vrsLst[i]? = some (some rs) →
        rs.identityDigest = ent.key.1 ∧ rs.ed25519Id = ent.key.2 := fun i rs hrs =>
      ⟨congrArg Prod.fst (hboth i rs hrs).1, congrArg Prod.snd (hboth i rs hrs).1⟩
    refine ⟨_, by rw [collateBoth, if_neg hfew, hget]; rfl, ⟨?_, ?_, ?_⟩⟩
    · intro e he
      obtain ⟨hmem, -⟩ | rfl := KeyedList.mem_set.mp he
      · exact hst.array e hmem
      · refine ⟨fun i rs hrs => ?_, ⟨ent.key.2, fun i rs hrs hlisting => ?_⟩⟩
        · obtain hrs | ⟨hrs, -⟩ := getElem?_zipWith_fillSlot hrs
          · exact ⟨(hid i rs hrs).1, (hboth i rs hrs).2.2.2⟩
          · exact ⟨(hrsa i rs hrs).1.trans hkey2, (hrsa i rs hrs).2.2⟩
        · obtain hrs | ⟨-, hno⟩ := getElem?_zipWith_fillSlot hrs
          · exact (hid i rs hrs).2
          · rw [hno] at hlisting
            cases hlisting
    · intro p hp
      obtain hp | hp := List.mem_append.mp hp
      · obtain ⟨hlisting, hthere⟩ := hst.reflecting p hp
        exact ⟨hlisting, KeyedList.exists_mem_set hthere _⟩
      · have hrs := getElem?_of_mem_entries hp
        exact ⟨(hboth p.1 p.2 hrs).2.1, _, KeyedList.mem_set.mpr (.inr rfl),
          (hid p.1 p.2 hrs).1.symm⟩
    · intro k hk
      obtain hk | hk := List.mem_append.mp hk
      · exact KeyedList.exists_mem_set (hst.all k hk) _
      · obtain rfl := List.mem_singleton.mp hk
        exact ⟨_, KeyedList.mem_set.mpr (.inr rfl), rfl⟩

theorem foldlM_collateBoth (h : dc.Ready Q nVotes a n) {l : List (Slots (Bytes × Bytes))}
    (hl : ∀ ent ∈ l, ent ∈ dc.byBothIds) {st : Collated} (hst : st.Pairs Q) :
    ∃ st', l.foldlM (collateBoth dc) st = some st' ∧ st'.Pairs Q := by
  induction l generalizing st with
  | nil => exact ⟨st, rfl, hst⟩
  | cons ent l ih =>
    obtain ⟨st₁, hstep, hst₁⟩ := collateBoth_isSome h hst (hl ent List.mem_cons_self)
    obtain ⟨st₂, hfold, hst₂⟩ := ih (fun e he => hl e (List.mem_cons_of_mem ent he)) hst₁
    exact ⟨st₂, by rw [List.foldlM_cons, hstep]; exact hfold, hst₂⟩

theorem Collated.Pairs.sameKey {st : Collated} (h : st.Pairs Q) : st.SameKey Q where
  array e he := by
    obtain ⟨hentry, ed, hed⟩ := h.array e he
    exact ⟨hentry, ed, fun i rs hrs hmem => hed i rs hrs (h.reflecting _ hmem).1⟩
  all := h.all

theorem sameKey_collateRsa (h : dc.Ready Q nVotes a n) {st : Collated} (hst : st.SameKey Q)
    (hreflects : ∀ p ∈ st.reflects, ∃ e ∈ st.byCollatedRsaSha1, e.key = p.2.identityDigest)
    {ent : Slots Bytes} (hent : ent ∈ dc.byRsaSha1) :
    (collateRsa dc st ent).SameKey Q ∧ ∀ p ∈ (collateRsa dc st ent).reflects,
      ∃ e ∈ (collateRsa dc st ent).byCollatedRsaSha1, e.key = p.2.identityDigest := by
  obtain ⟨-, hrsa⟩ := h.inv.rsa ent hent
  unfold collateRsa
  split_ifs with hthere hfew
  · exact ⟨hst, hreflects⟩
  · exact ⟨hst, hreflects⟩
  · have hnone : KeyedList.get Slots.key ent.key st.byCollatedRsaSha1 = none := by
      simpa using hthere
    refine ⟨⟨fun e he => ?_, fun k hk => ?_⟩, fun p hp => ?_⟩
    · obtain ⟨hmem, -⟩ | rfl := KeyedList.mem_set.mp he
      · exact hst.array e hmem
      · refine ⟨fun i rs hrs => ⟨(hrsa i rs hrs).1, (hrsa i rs hrs).2.2⟩, [],
          fun i rs hrs hmem => ?_⟩
        obtain ⟨e, he, hkey⟩ := hreflects (i, rs) hmem
        exact absurd (hkey.trans (hrsa i rs hrs).1) (KeyedList.key_ne_of_get_none hnone he)
    · obtain hk | hk := List.mem_append.mp hk
      · exact KeyedList.exists_mem_set (hst.all k hk) _
      · obtain rfl := List.mem_singleton.mp hk
        exact ⟨_, KeyedList.mem_set.mpr (.inr rfl), rfl⟩
    · exact KeyedList.exists_mem_set (hreflects p hp) _

theorem sameKey_foldl_collateRsa (h : dc.Ready Q nVotes a n) {l : List (Slots Bytes)}
    (hl : ∀ ent ∈ l, ent ∈ dc.byRsaSha1) {st : Collated} (hst : st.SameKey Q)
    (hreflects : ∀ p ∈ st.reflects, ∃ e ∈ st.byCollatedRsaSha1, e.key = p.2.identityDigest) :
    (l.foldl (collateRsa dc) st).SameKey Q := by
  induction l generalizing st with
  | nil => exact hst
  | cons ent l ih =>
    obtain ⟨hst', hreflects'⟩ := sameKey_collateRsa h hst hreflects (hl ent List.mem_cons_self)
    exact ih (fun e he => hl e (List.mem_cons_of_mem ent he)) hst' hreflects'

theorem Dircollator.collate_isSome (h : dc.Ready Q nVotes a n) (order : TableOrder) :
    ∃ st, dc.collate order = some st ∧ st.SameKey Q := by
  have hempty : Collated.Pairs Q ⟨[], [], []⟩ := ⟨by simp, by simp, by simp⟩
  obtain ⟨st, hfold, hpairs⟩ := foldlM_collateBoth h
    (fun ent hent => (order.both_perm _).mem_iff.mp hent) hempty
  have hsame := sameKey_foldl_collateRsa h
    (fun ent hent => (order.rsa_perm _).mem_iff.mp hent) hpairs.sameKey
    (fun p hp => (hpairs.reflecting p hp).2)
  rw [Dircollator.collate, hfold]
  refine ⟨_, rfl, ⟨hsame.array, fun k hk => ?_⟩⟩
  exact hsame.all k ((List.mergeSort_perm _ _).mem_iff.mp hk)

end Dirvote
