/-
The directories that are responsible for a descriptor (`hs_get_responsible_hsdirs` of
`feature/hs/hs_common.c`).

The nodes are sorted by one of their indexes.  For each replica the place of its `hs_index` is
searched, and from there nodes are added that were not added before, until there are enough of them
or the ring has been gone around.
-/
import LibEltor.HashRing
import LibEltor.HsTimePeriod
import LibEltor.SmartlistBsearch
import LibEltor.Versions

open Bytes Comparison HashRing HsTimePeriod SmartlistBsearch Versions

namespace HsResponsibleHsdirs

deriving instance DecidableEq for HsTimePeriod.Indexes

/-- A `node_t`; `rs` stands for its `routerstatus_t`. -/
structure Node where
  rs : ℕ
  isHsDir : Bool
  supportsV3Hsdir : Bool
  hasPreferredDescriptor : Bool
  hsdirIndex : Indexes (Block 32)
deriving DecidableEq

/-- The consensus parameters, and the length of a time period in minutes. -/
structure RingParams where
  nReplicas : ℕ
  spreadFetch : ℕ
  spreadStore : ℕ
  timePeriodLength : ℕ

def torMemcmp (a b : Block 32) : ℤ := bytesCmp a.toList b.toList

def hsIndexPrefix : Bytes := ascii "store-at-idx"

def hsBuildHsIndex (sha3 : Bytes → Block 32) (timePeriodLength replica : ℕ) (blindedPk : Block 32)
    (periodNum : ℕ) : Block 32 :=
  sha3 (hsIndexPrefix ++ blindedPk.toList ++ int8 replica ++ int8 timePeriodLength ++ int8 periodNum)

def nodeHasHsdirIndex (node : Node) : Bool :=
  node.hasPreferredDescriptor &&
    decide (node.hsdirIndex.fetch ≠ zeroFill 32 []) &&
    decide (node.hsdirIndex.storeFirst ≠ zeroFill 32 []) &&
    decide (node.hsdirIndex.storeSecond ≠ zeroFill 32 [])

def hsdirNodes (routerstatusList : List Node) : List Node :=
  routerstatusList.filter fun n => n.supportsV3Hsdir && n.isHsDir && nodeHasHsdirIndex n

def indexFor (useSecondHsdirIndex forFetching : Bool) (node : Node) : Block 32 :=
  if forFetching then node.hsdirIndex.fetch
  else if useSecondHsdirIndex then node.hsdirIndex.storeSecond
  else node.hsdirIndex.storeFirst

/-- The `while` loop; none while it goes on. -/
def addLoop (sortedNodes : List Node) (nToAdd start : ℕ) : ℕ → ℕ → ℕ → List ℕ → Option (List ℕ)
  | fuel, idx, nAdded, responsibleDirs =>
    if nAdded < nToAdd then
      match fuel with
      | 0 => none
      | fuel + 1 =>
        match sortedNodes[idx]? with
        | none => none
        | some node =>
          let taken := decide (node.rs ∈ responsibleDirs)
          let responsibleDirs := if taken then responsibleDirs else responsibleDirs ++ [node.rs]
          let nAdded := if taken then nAdded else nAdded + 1
          let idx := if idx + 1 = sortedNodes.length then 0 else idx + 1
          if idx = start then some responsibleDirs
          else addLoop sortedNodes nToAdd start fuel idx nAdded responsibleDirs
    else some responsibleDirs
termination_by structural fuel => fuel

def addReplica (sortedNodes : List Node) (index : Node → Block 32) (nToAdd fuel : ℕ)
    (hsIndex : Block 32) (responsibleDirs : List ℕ) : Option (List ℕ) := do
  let (idx, _) ← smartlistBsearchIdx (fun node => torMemcmp hsIndex (index node)) sortedNodes
  let start := if idx = sortedNodes.length then 0 else idx
  addLoop sortedNodes nToAdd start fuel start 0 responsibleDirs

/-- The list is what is added to an empty one.  `consensus` are the nodes of a reasonably live
consensus, if there is one; `fuel` is what each `while` loop may take. -/
def hsGetResponsibleHsdirs (sort : (Node → Node → ℤ) → List Node → List Node)
    (sha3 : Bytes → Block 32) (params : RingParams) (consensus : Option (List Node))
    (blindedPk : Block 32) (timePeriodNum : ℕ) (useSecondHsdirIndex forFetching : Bool)
    (fuel : ℕ) : Option (List ℕ) :=
  match consensus with
  | none => some []
  | some routerstatusList =>
    let index := indexFor useSecondHsdirIndex forFetching
    let nodes := hsdirNodes routerstatusList
    if nodes.length = 0 then some []
    else
      let sortedNodes := sort (fun a b => torMemcmp (index a) (index b)) nodes
      let nToAdd := if forFetching then params.spreadFetch else params.spreadStore
      (List.range' 1 params.nReplicas).foldlM
        (fun responsibleDirs replica => addReplica sortedNodes index nToAdd fuel
          (hsBuildHsIndex sha3 params.timePeriodLength replica blindedPk timePeriodNum)
          responsibleDirs) []

/-! ### The ring -/

def key (digest : Block 32) : List ℕ := bytesKey digest.toList

theorem torMemcmp_agrees (a b : Block 32) : Agrees (torMemcmp a b) (key a) (key b) :=
  bytesCmp_agrees _ _

def ring (consensus : Option (List Node)) : List Node :=
  (consensus.map hsdirNodes).getD []

structure Distinct (index : Node → Block 32) (nodes : List Node) : Prop where
  rs : (nodes.map Node.rs).Nodup
  index : (nodes.map fun node => key (index node)).Nodup

def replicaKeys (sha3 : Bytes → Block 32) (params : RingParams) (blindedPk : Block 32)
    (timePeriodNum : ℕ) : List (List ℕ) :=
  (List.range' 1 params.nReplicas).map fun replica =>
    key (hsBuildHsIndex sha3 params.timePeriodLength replica blindedPk timePeriodNum)

variable {index : Node → Block 32} {nodes : List Node}

theorem sort_eq_ordered {sort : (Node → Node → ℤ) → List Node → List Node} (hsort : Sorts sort)
    (h : Distinct index nodes) :
    sort (fun a b => torMemcmp (index a) (index b)) nodes = ordered (fun n => key (index n)) nodes := by
  have hbyKey : ByKey (fun a b => torMemcmp (index a) (index b)) (fun n => key (index n)) nodes :=
    fun a _ b _ => torMemcmp_agrees _ _
  refine eq_ordered h.index (hsort.perm _ _ hbyKey.preordered) ?_
  exact (hsort.sorted _ _ hbyKey.preordered).imp fun hab => (torMemcmp_agrees _ _).le_iff.mp hab

theorem bsearch_ordered (h : Distinct index nodes) (hsIndex : Block 32) :
    ∃ found, smartlistBsearchIdx (fun node => torMemcmp hsIndex (index node))
        (ordered (fun n => key (index n)) nodes) =
      some (start (fun n => key (index n)) nodes (key hsIndex), found) := by
  have hperm := ordered_perm (fun n => key (index n)) nodes
  have hstrict : (ordered (fun n => key (index n)) nodes).Pairwise
      fun a b => key (index a) < key (index b) := by
    have hne := List.pairwise_map.mp ((hperm.map fun n => key (index n)).nodup_iff.mpr h.index)
    refine ((ordered_sorted (fun n => key (index n)) nodes).and hne).imp ?_
    intro a b hab
    exact lt_of_le_of_ne hab.1 hab.2
  have hordered : Ordered (fun node => torMemcmp hsIndex (index node))
      (ordered (fun n => key (index n)) nodes) := by
    refine hstrict.imp ?_
    intro a b hab hb
    rw [(torMemcmp_agrees _ _).pos_iff]
    have hle : key (index b) ≤ key hsIndex := by
      rw [← not_lt, ← (torMemcmp_agrees _ _).neg_iff]
      exact not_lt.mpr hb
    exact hab.trans_le hle
  obtain ⟨found, heq⟩ := smartlistBsearchIdx_eq hordered
  refine ⟨found, ?_⟩
  rw [heq, start]
  simp only [(torMemcmp_agrees _ _).pos_iff]
  congr
  exact funext fun _ => decide_eq_decide.mpr Iff.rfl

/-! ### The loop -/

theorem next_index {len start k : ℕ} (hlen : 0 < len) :
    (if (start + k) % len + 1 = len then 0 else (start + k) % len + 1) = (start + (k + 1)) % len := by
  have hlt := Nat.mod_lt (start + k) hlen
  have hnext : (start + (k + 1)) % len = ((start + k) % len + 1) % len := by
    rw [Nat.mod_add_mod]
    rfl
  rw [hnext]
  by_cases hend : (start + k) % len + 1 = len
  · rw [if_pos hend, hend, Nat.mod_self]
  · rw [if_neg hend]
    exact (Nat.mod_eq_of_lt (by omega)).symm

theorem index_eq_start {len start k : ℕ} (hstart : start < len) (hpos : 0 < k) (hk : k ≤ len) :
    (start + k) % len = start ↔ k = len := by
  constructor
  · intro h
    by_contra hne
    by_cases hlt : start + k < len
    · rw [Nat.mod_eq_of_lt hlt] at h
      omega
    · rw [Nat.mod_eq_sub_mod (by omega), Nat.mod_eq_of_lt (by omega)] at h
      omega
  · rintro rfl
    rw [Nat.add_mod_right, Nat.mod_eq_of_lt hstart]

theorem addLoop_eq {l : List Node} (hnodup : (l.map Node.rs).Nodup) {start : ℕ}
    (hstart : start < l.length) (nToAdd fuel : ℕ) :
    ∀ k nAdded dirs, k < l.length → l.length ≤ fuel + k →
      addLoop l nToAdd start fuel ((start + k) % l.length) nAdded dirs =
        some (takeNew (nToAdd - nAdded) dirs (((l.rotate start).drop k).map Node.rs)) := by
  have hrotated : ((l.rotate start).map Node.rs).Nodup := by
    rw [List.map_rotate]
    exact List.nodup_rotate.mpr hnodup
  induction fuel with
  | zero =>
    intro k _ _ hk hfuel
    omega
  | succ fuel ih =>
    intro k nAdded dirs hk hfuel
    rw [addLoop]
    by_cases hmore : nAdded < nToAdd
    · rw [if_pos hmore]
      -- the node at the index is the next one clockwise
      have hlen : k < (l.rotate start).length := by rwa [List.length_rotate]
      have hnode : l[(start + k) % l.length]? = some (l.rotate start)[k] := by
        rw [← List.getElem?_eq_getElem, List.getElem?_rotate hk, Nat.add_comm]
      simp only [hnode, next_index (Nat.zero_lt_of_lt hk)]
      rw [List.drop_eq_getElem_cons hlen, List.map_cons]
      generalize hr : ((l.rotate start)[k]).rs = rs
      have hrest : rs ∉ ((l.rotate start).drop (k + 1)).map Node.rs := by
        have hdrop := hrotated.sublist ((List.drop_sublist k (l.rotate start)).map Node.rs)
        rw [List.drop_eq_getElem_cons hlen, List.map_cons, hr] at hdrop
        exact (List.nodup_cons.mp hdrop).1
      have hstep : ∀ dirs' nAdded', takeNew (nToAdd - nAdded') dirs'
          (((l.rotate start).drop (k + 1)).map Node.rs) =
            takeNew (nToAdd - nAdded) dirs (rs :: ((l.rotate start).drop (k + 1)).map Node.rs) →
          (if (start + (k + 1)) % l.length = start then some dirs'
            else addLoop l nToAdd start fuel ((start + (k + 1)) % l.length) nAdded' dirs') =
          some (takeNew (nToAdd - nAdded) dirs
            (rs :: ((l.rotate start).drop (k + 1)).map Node.rs)) := by
        intro dirs' nAdded' htake
        rw [← htake]
        by_cases hround : (start + (k + 1)) % l.length = start
        · rw [if_pos hround]
          have hend := (index_eq_start hstart (by omega) hk).mp hround
          rw [List.drop_eq_nil_of_le (by rw [List.length_rotate]; omega), List.map_nil, takeNew_nil]
        · rw [if_neg hround]
          have hend := mt (index_eq_start hstart (by omega) hk).mpr hround
          exact ih (k + 1) nAdded' dirs' (by omega) (by omega)
      by_cases htaken : rs ∈ dirs
      · simp only [htaken, decide_true, if_true]
        exact hstep dirs nAdded (takeNew_cons_of_mem htaken).symm
      · simp only [htaken, decide_false, Bool.false_eq_true, if_false]
        refine hstep (dirs ++ [rs]) (nAdded + 1) ?_
        rw [show nToAdd - nAdded = nToAdd - (nAdded + 1) + 1 by omega]
        exact (takeNew_cons_of_notMem htaken hrest).symm
    · rw [if_neg hmore, show nToAdd - nAdded = 0 by omega, takeNew_zero]

theorem addReplica_eq (h : Distinct index nodes) (hne : nodes ≠ []) {fuel : ℕ}
    (hfuel : nodes.length ≤ fuel) (nToAdd : ℕ) (hsIndex : Block 32) (dirs : List ℕ) :
    addReplica (ordered (fun n => key (index n)) nodes) index nToAdd fuel hsIndex dirs =
      some (takeNew nToAdd dirs
        ((clockwise (fun n => key (index n)) nodes (key hsIndex)).map Node.rs)) := by
  obtain ⟨found, hsearch⟩ := bsearch_ordered h hsIndex
  have hperm := ordered_perm (fun n => key (index n)) nodes
  have hle := start_le (fun n => key (index n)) nodes (key hsIndex)
  have hnodup : ((ordered (fun n => key (index n)) nodes).map Node.rs).Nodup :=
    (hperm.map Node.rs).nodup_iff.mpr h.rs
  have hpos : 0 < (ordered (fun n => key (index n)) nodes).length := by
    rw [hperm.length_eq]
    exact List.length_pos_iff.mpr hne
  have hfuel' : (ordered (fun n => key (index n)) nodes).length ≤ fuel := by rwa [hperm.length_eq]
  rw [addReplica, hsearch, clockwise_eq_rotate]
  generalize ordered (fun n => key (index n)) nodes = l at *
  generalize start (fun n => key (index n)) nodes (key hsIndex) = idx at *
  show addLoop l nToAdd (if idx = l.length then 0 else idx) fuel
    (if idx = l.length then 0 else idx) 0 dirs = _
  have hloop : ∀ start, start < l.length → addLoop l nToAdd start fuel start 0 dirs =
      some (takeNew nToAdd dirs ((l.rotate start).map Node.rs)) := by
    intro start hstart
    have h := addLoop_eq hnodup hstart nToAdd fuel 0 0 dirs hpos (by omega)
    rwa [Nat.add_zero, Nat.mod_eq_of_lt hstart] at h
  by_cases hend : idx = l.length
  · -- no index is as great as the key, so it begins with the smallest
    rw [if_pos hend, hloop 0 hpos, hend, List.rotate_length, List.rotate_zero]
  · rw [if_neg hend, hloop idx (by omega)]

theorem addReplicas_eq (h : Distinct index nodes) (hne : nodes ≠ []) {fuel : ℕ}
    (hfuel : nodes.length ≤ fuel) (nToAdd : ℕ) (hsIndexes : List (Block 32)) :
    hsIndexes.foldlM (fun dirs hsIndex => addReplica (ordered (fun n => key (index n)) nodes) index
        nToAdd fuel hsIndex dirs) [] =
      some ((chosen (fun n => key (index n)) nodes nToAdd (hsIndexes.map key)).map Node.rs) := by
  have hmembers : nodes.Nodup := h.rs.of_map
  induction hsIndexes using List.reverseRecOn with
  | nil => rfl
  | append_singleton hsIndexes hsIndex ih =>
    obtain ⟨-, hsub⟩ := chosen_nodup (fun n => key (index n)) nToAdd hmembers (hsIndexes.map key)
    rw [List.foldlM_append, ih, List.map_append, List.map_singleton, chosen_concat]
    show (addReplica _ index nToAdd fuel hsIndex _ >>= fun dirs => pure dirs) = _
    rw [addReplica_eq h hne hfuel, ← takeNew_map hsub (clockwise_perm _ _ _).subset
      fun a ha b hb hab => List.inj_on_of_nodup_map h.rs ha hb hab]
    rfl

section Result

variable {sort sort' : (Node → Node → ℤ) → List Node → List Node} {sha3 : Bytes → Block 32}
  {params : RingParams} {consensus : Option (List Node)} {blindedPk : Block 32} {timePeriodNum : ℕ}
  {useSecond forFetching : Bool} {fuel : ℕ}

theorem hsGetResponsibleHsdirs_eq (hsort : Sorts sort)
    (h : Distinct (indexFor useSecond forFetching) (ring consensus))
    (hfuel : (ring consensus).length ≤ fuel) :
    hsGetResponsibleHsdirs sort sha3 params consensus blindedPk timePeriodNum useSecond forFetching
        fuel =
      some ((chosen (fun n => key (indexFor useSecond forFetching n)) (ring consensus)
        (if forFetching then params.spreadFetch else params.spreadStore)
        (replicaKeys sha3 params blindedPk timePeriodNum)).map Node.rs) := by
  cases consensus with
  | none =>
    have hnone : chosen (fun n => key (indexFor useSecond forFetching n)) (ring none)
        (if forFetching then params.spreadFetch else params.spreadStore)
        (replicaKeys sha3 params blindedPk timePeriodNum) = [] :=
      List.subset_nil.mp (chosen_nodup _ _ List.nodup_nil _).2
    rw [hnone]
    rfl
  | some routerstatusList =>
    have hring : ring (some routerstatusList) = hsdirNodes routerstatusList := rfl
    rw [hring] at h hfuel ⊢
    by_cases hlen : (hsdirNodes routerstatusList).length = 0
    · have hnil := List.length_eq_zero_iff.mp hlen
      have hnone : chosen (fun n => key (indexFor useSecond forFetching n)) []
          (if forFetching then params.spreadFetch else params.spreadStore)
          (replicaKeys sha3 params blindedPk timePeriodNum) = [] :=
        List.subset_nil.mp (chosen_nodup _ _ List.nodup_nil _).2
      rw [hsGetResponsibleHsdirs]
      simp only [hnil, hnone]
      rfl
    · have hne : hsdirNodes routerstatusList ≠ [] := fun hnil => hlen (by rw [hnil]; rfl)
      have hreplicas := addReplicas_eq h hne hfuel
        (if forFetching then params.spreadFetch else params.spreadStore)
        ((List.range' 1 params.nReplicas).map fun replica =>
          hsBuildHsIndex sha3 params.timePeriodLength replica blindedPk timePeriodNum)
      rw [List.foldlM_map, List.map_map] at hreplicas
      rw [hsGetResponsibleHsdirs]
      simp only [if_neg hlen, sort_eq_ordered hsort h]
      exact hreplicas

def point (index : Node → Block 32) (node : Node) : ℕ × List ℕ := (node.rs, key (index node))

theorem map_rs_chosen (h : Distinct index nodes) (spread : ℕ) (keys : List (List ℕ)) :
    (chosen (fun n => key (index n)) nodes spread keys).map Node.rs =
      (chosen Prod.snd (nodes.map (point index)) spread keys).map Prod.fst := by
  have hinj : ∀ a ∈ nodes, ∀ b ∈ nodes, point index a = point index b → a = b :=
    fun a ha b hb hab => List.inj_on_of_nodup_map h.rs ha hb (congrArg Prod.fst hab)
  have hindex : ∀ n ∈ nodes, (point index n).2 = key (index n) := fun _ _ => rfl
  have hmap := chosen_map spread hindex hinj h.rs.of_map keys
  rw [← hmap, List.map_map]
  rfl

/-- For each replica in turn, the first nodes clockwise from its index are taken that were not taken
for an earlier one; the loop ends, no node is taken twice and as many are as can be.  On the same
ring, what is fetched from is stored on where the fetch spread is at most the store spread. -/
theorem hsGetResponsibleHsdirs_spec (hsort : Sorts sort) (hsort' : Sorts sort')
    (sha3 : Bytes → Block 32) (params : RingParams) (blindedPk : Block 32) (timePeriodNum : ℕ) :
    (∀ consensus useSecond forFetching fuel,
      Distinct (indexFor useSecond forFetching) (ring consensus) → (ring consensus).length ≤ fuel →
      ∃ dirs, hsGetResponsibleHsdirs sort sha3 params consensus blindedPk timePeriodNum useSecond
          forFetching fuel = some dirs ∧
        dirs = (chosen (fun n => key (indexFor useSecond forFetching n)) (ring consensus)
          (if forFetching then params.spreadFetch else params.spreadStore)
          (replicaKeys sha3 params blindedPk timePeriodNum)).map Node.rs ∧
        dirs.Nodup ∧
        dirs.length = min (ring consensus).length (params.nReplicas *
          if forFetching then params.spreadFetch else params.spreadStore)) ∧
      ∀ client service useSecond useSecond' fuel dirs dirs',
        Distinct (indexFor useSecond true) (ring client) →
        Distinct (indexFor useSecond' false) (ring service) →
        ((ring client).map (point (indexFor useSecond true))).Perm
          ((ring service).map (point (indexFor useSecond' false))) →
        params.spreadFetch ≤ params.spreadStore → (ring client).length ≤ fuel →
        hsGetResponsibleHsdirs sort sha3 params client blindedPk timePeriodNum useSecond true fuel =
          some dirs →
        hsGetResponsibleHsdirs sort' sha3 params service blindedPk timePeriodNum useSecond' false
          fuel = some dirs' →
        dirs ⊆ dirs' := by
  constructor
  · intro consensus useSecond forFetching fuel h hfuel
    have hmembers : (ring consensus).Nodup := h.rs.of_map
    refine ⟨_, hsGetResponsibleHsdirs_eq hsort h hfuel, rfl, ?_, ?_⟩
    · obtain ⟨hnodup, hsub⟩ := chosen_nodup
        (fun n => key (indexFor useSecond forFetching n))
        (if forFetching then params.spreadFetch else params.spreadStore) hmembers
        (replicaKeys sha3 params blindedPk timePeriodNum)
      refine hnodup.map_on fun a ha b hb hab => ?_
      exact List.inj_on_of_nodup_map h.rs (hsub ha) (hsub hb) hab
    · rw [List.length_map, length_chosen hmembers, replicaKeys, List.length_map, List.length_range']
  · intro client service useSecond useSecond' fuel dirs dirs' hclient hservice hsame hspread hfuel
      hfetched hstored
    have hlen : (ring service).length ≤ fuel := by
      have := hsame.length_eq
      rw [List.length_map, List.length_map] at this
      omega
    rw [hsGetResponsibleHsdirs_eq hsort hclient hfuel, map_rs_chosen hclient] at hfetched
    rw [hsGetResponsibleHsdirs_eq hsort' hservice hlen, map_rs_chosen hservice] at hstored
    obtain rfl := Option.some.inj hfetched
    obtain rfl := Option.some.inj hstored
    have hdistinct : (((ring service).map (point (indexFor useSecond' false))).map
        Prod.snd).Nodup := by
      rw [List.map_map]
      exact hservice.index
    rw [chosen_perm hdistinct hsame]
    exact List.map_subset _ (chosen_subset hspread _ _ _)

end Result

def exampleNode (i : UInt8) : Node :=
  ⟨i.toNat, true, true, true, ⟨zeroFill 32 [i], zeroFill 32 [i], zeroFill 32 [i]⟩⟩

def exampleConsensus : Option (List Node) := some [exampleNode 3, exampleNode 1, exampleNode 2]

/-- Both replicas begin at the second of three nodes, and all three come to be stored on. -/
theorem hsGetResponsibleHsdirs_three : ∃ dirs dirs',
    hsGetResponsibleHsdirs sortBy (fun _ => zeroFill 32 [2]) ⟨2, 1, 2, 1440⟩ exampleConsensus
        (zeroFill 32 []) 0 false true 3 = some dirs ∧
      hsGetResponsibleHsdirs sortBy (fun _ => zeroFill 32 [2]) ⟨2, 1, 2, 1440⟩ exampleConsensus
        (zeroFill 32 []) 0 false false 3 = some dirs' ∧
      dirs.length = 2 ∧ dirs'.length = 3 ∧ dirs ⊆ dirs' := by
  obtain ⟨hring, hsubset⟩ := hsGetResponsibleHsdirs_spec sorts_sortBy sorts_sortBy
    (fun _ => zeroFill 32 [2]) ⟨2, 1, 2, 1440⟩ (zeroFill 32 []) 0
  have hfetch : Distinct (indexFor false true) (ring exampleConsensus) :=
    ⟨by decide +kernel, by decide +kernel⟩
  have hstore : Distinct (indexFor false false) (ring exampleConsensus) :=
    ⟨by decide +kernel, by decide +kernel⟩
  have hlen : (ring exampleConsensus).length = 3 := by decide +kernel
  obtain ⟨dirs, hdirs, -, -, hcount⟩ := hring exampleConsensus false true 3 hfetch hlen.le
  obtain ⟨dirs', hdirs', -, -, hcount'⟩ := hring exampleConsensus false false 3 hstore hlen.le
  rw [hlen] at hcount hcount'
  exact ⟨dirs, dirs', hdirs, hdirs', hcount, hcount', hsubset exampleConsensus exampleConsensus false
    false 3 dirs dirs' hfetch hstore (List.Perm.refl _) (by decide) hlen.le hdirs hdirs'⟩

end HsResponsibleHsdirs
