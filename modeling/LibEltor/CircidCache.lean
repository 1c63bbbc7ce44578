/-
The hash table behind the map of circuit ids, and the one-entry cache in front of it
(`core/or/circuitlist.c`).

`_last_circid_chan_ent` points to the entry that was found last.  A lookup trusts it
when it has the wanted channel and id, so every function that takes an entry out of
the table has to take care of it.
-/
import LibEltor.CircidMap

open CircidMap Transition

namespace CircidCache

variable {Chan : Type*}

structure MapEntry (Chan : Type*) where
  chan : Chan
  circId : UInt32
  circuit : Option ℕ

/-- The entries that are allocated, by address; which of them the hash table has for a
channel and an id; and `_last_circid_chan_ent`.  Addresses are given out in order. -/
structure Table (Chan : Type*) where
  heap : ℕ → Option (MapEntry Chan)
  allocated : ℕ
  chanCircidMap : Chan → UInt32 → Option ℕ
  lastCircidChanEnt : Option ℕ

def Table.initial : Table Chan where
  heap := fun _ => none
  allocated := 0
  chanCircidMap := fun _ _ => none
  lastCircidChanEnt := none

variable [DecidableEq Chan]

/-! ### The operations -/

def Table.cacheIs (t : Table Chan) (chan : Option Chan) (id : UInt32) : Bool :=
  match t.lastCircidChanEnt.bind t.heap with
  | some entry => id = entry.circId ∧ chan = some entry.chan
  | none => false

/-- `HT_INSERT` of a new entry. -/
def Table.insert (t : Table Chan) (chan : Chan) (id : UInt32) (circuit : Option ℕ) : Table Chan :=
  { t with
    heap := Function.update t.heap t.allocated (some ⟨chan, id, circuit⟩)
    allocated := t.allocated + 1
    chanCircidMap := updateAt t.chanCircidMap chan id (some t.allocated) }

/-- `HT_REMOVE`, and `tor_free` of what was found. -/
def Table.remove (t : Table Chan) (chan : Chan) (id : UInt32) : Table Chan :=
  match t.chanCircidMap chan id with
  | none => t
  | some e =>
    { t with
      heap := Function.update t.heap e none
      chanCircidMap := updateAt t.chanCircidMap chan id none }

def Table.removeOld (t : Table Chan) (oldChan : Option Chan) (oldId : UInt32) : Table Chan :=
  match oldChan with
  | none => t
  | some oldChan => t.remove oldChan oldId

/-- The circuit of the entry that is found is set, or a new entry is made. -/
def Table.setCircuit (t : Table Chan) (chan : Chan) (id : UInt32) (p : ℕ) : Table Chan :=
  match t.chanCircidMap chan id with
  | some e =>
    let entry := (t.heap e).map fun entry => { entry with circuit := some p }
    { t with heap := Function.update t.heap e entry }
  | none => t.insert chan id (some p)

/-- The part of `circuit_set_circid_chan_helper` that concerns the table, for a circuit
`p` that had `oldId` on `oldChan`. -/
def setCircidChanHelper (p : ℕ) (oldChan : Option Chan) (oldId : UInt32) (chan : Option Chan)
    (id : UInt32) (t : Table Chan) : Table Chan :=
  if id = oldId ∧ chan = oldChan then t
  else
    let t := if t.cacheIs oldChan oldId || t.cacheIs chan id then
      { t with lastCircidChanEnt := none } else t
    let t := t.removeOld oldChan oldId
    match chan with
    | none => t
    | some chan => t.setCircuit chan id p

def channelMarkCircidUnusable (chan : Chan) (id : UInt32) (t : Table Chan) : Table Chan :=
  match t.chanCircidMap chan id with
  | some _ => t
  | none => t.insert chan id none

/-- The entry is removed in any case; with a circuit in it, it is neither freed nor taken
out of the cache. -/
def channelMarkCircidUsable (chan : Chan) (id : UInt32) (t : Table Chan) : Table Chan :=
  match t.chanCircidMap chan id with
  | none => t
  | some e =>
    let u := { t with chanCircidMap := updateAt t.chanCircidMap chan id none }
    match (t.heap e).bind MapEntry.circuit with
    | some _ => u
    | none =>
      { u with
        lastCircidChanEnt := if u.lastCircidChanEnt = some e then none else u.lastCircidChanEnt
        heap := Function.update u.heap e none }

/-- `circuit_set_n_circid_chan` and `circuit_set_p_circid_chan`, with the flag that says a
DESTROY is pending. -/
def setCircidChan (p : ℕ) (deletePending : Bool) (oldChan : Option Chan) (oldId : UInt32)
    (chan : Option Chan) (id : UInt32) (t : Table Chan) : Table Chan :=
  let t := setCircidChanHelper p oldChan oldId chan id t
  match oldChan with
  | none => t
  | some oldChan => if deletePending then channelMarkCircidUnusable oldChan oldId t else t

/-- What a lookup returns: the circuit, and whether an entry was found. -/
def answer (t : Table Chan) (found : Option ℕ) : Option ℕ × Bool :=
  match found.bind t.heap with
  | some entry => (entry.circuit, true)
  | none => (none, false)

def circuitGetByCircidChannelImpl (id : UInt32) (chan : Chan) (t : Table Chan) :
    Table Chan × (Option ℕ × Bool) :=
  if t.cacheIs (some chan) id then (t, answer t t.lastCircidChanEnt)
  else
    let found := t.chanCircidMap chan id
    ({ t with lastCircidChanEnt := found }, answer t found)

def htLookup (t : Table Chan) (chan : Chan) (id : UInt32) : Option ℕ × Bool :=
  answer t (t.chanCircidMap chan id)

/-! ### The cache has an entry of the table -/

/-- Entries stand where their channel and id say, and the cached one is among them. -/
structure Ok (t : Table Chan) : Prop where
  entry : ∀ {chan id e}, t.chanCircidMap chan id = some e →
    ∃ circuit, t.heap e = some ⟨chan, id, circuit⟩
  allocated : ∀ e, t.allocated ≤ e → t.heap e = none
  last : ∀ e, t.lastCircidChanEnt = some e → ∃ chan id, t.chanCircidMap chan id = some e

def entries (t : Table Chan) (chan : Chan) (id : UInt32) : Option (Option ℕ) :=
  (t.chanCircidMap chan id).bind fun e => (t.heap e).map MapEntry.circuit

omit [DecidableEq Chan] in
theorem Ok.key_inj {t : Table Chan} (ht : Ok t) {chan chan' : Chan} {id id' : UInt32} {e : ℕ}
    (h : t.chanCircidMap chan id = some e) (h' : t.chanCircidMap chan' id' = some e) :
    chan' = chan ∧ id' = id := by
  obtain ⟨c, hc⟩ := ht.entry h
  obtain ⟨c', hc'⟩ := ht.entry h'
  have heq := Option.some_inj.mp (hc'.symm.trans hc)
  exact ⟨congrArg MapEntry.chan heq, congrArg MapEntry.circId heq⟩

omit [DecidableEq Chan] in
theorem Ok.lt_allocated {t : Table Chan} (ht : Ok t) {chan : Chan} {id : UInt32} {e : ℕ}
    (h : t.chanCircidMap chan id = some e) : e < t.allocated := by
  obtain ⟨c, hc⟩ := ht.entry h
  by_contra hlt
  rw [ht.allocated e (Nat.le_of_not_lt hlt)] at hc
  exact absurd hc (by simp)

omit [DecidableEq Chan] in
theorem Ok.initial : Ok (Table.initial : Table Chan) :=
  ⟨fun h => absurd h (by simp [Table.initial]), fun _ _ => rfl,
    fun _ h => absurd h (by simp [Table.initial])⟩

omit [DecidableEq Chan] in
theorem Ok.forget {t : Table Chan} (ht : Ok t) : Ok { t with lastCircidChanEnt := none } :=
  ⟨ht.entry, ht.allocated, fun _ h => absurd h (by simp)⟩

omit [DecidableEq Chan] in
theorem Ok.heap_last {t : Table Chan} (ht : Ok t) {e : ℕ} (h : t.lastCircidChanEnt = some e) :
    ∃ entry, t.heap e = some entry ∧ t.chanCircidMap entry.chan entry.circId = some e := by
  obtain ⟨chan, id, hmap⟩ := ht.last e h
  obtain ⟨circuit, hheap⟩ := ht.entry hmap
  exact ⟨_, hheap, hmap⟩

theorem Ok.cacheIs_iff {t : Table Chan} (ht : Ok t) (chan : Chan) (id : UInt32) :
    t.cacheIs (some chan) id = true ↔
      ∃ e, t.lastCircidChanEnt = some e ∧ t.chanCircidMap chan id = some e := by
  rw [Table.cacheIs]
  rcases hlast : t.lastCircidChanEnt with _ | e
  · simp
  · obtain ⟨entry, hheap, hmap⟩ := ht.heap_last hlast
    simp only [Option.bind_some, hheap, decide_eq_true_eq, Option.some_inj]
    constructor
    · rintro ⟨rfl, rfl⟩
      exact ⟨e, rfl, hmap⟩
    · rintro ⟨e', rfl, hmap'⟩
      obtain ⟨hchan, hid⟩ := ht.key_inj hmap hmap'
      exact ⟨hid, hchan⟩

theorem Ok.insert {t : Table Chan} (ht : Ok t) {chan : Chan} {id : UInt32} (circuit : Option ℕ)
    (hnone : t.chanCircidMap chan id = none) : Ok (t.insert chan id circuit) where
  entry {chan' id' e} h := by
    rw [Table.insert] at h ⊢
    by_cases hk : chan' = chan ∧ id' = id
    · obtain ⟨rfl, rfl⟩ := hk
      simp only [updateAt_self, Option.some_inj] at h
      subst h
      exact ⟨circuit, by simp⟩
    · simp only [updateAt_of_ne _ _ hk] at h
      obtain ⟨c, hc⟩ := ht.entry h
      refine ⟨c, ?_⟩
      simp only [Function.update_of_ne (Nat.ne_of_lt (ht.lt_allocated h)), hc]
  allocated e he := by
    rw [Table.insert] at he ⊢
    simp only at he
    simp only [Function.update_of_ne (Nat.ne_of_gt he)]
    exact ht.allocated e (Nat.le_of_lt he)
  last e h := by
    obtain ⟨chan', id', hmap⟩ := ht.last e h
    refine ⟨chan', id', ?_⟩
    have hk : ¬ (chan' = chan ∧ id' = id) := by
      rintro ⟨rfl, rfl⟩
      exact absurd (hnone.symm.trans hmap) (by simp)
    rw [Table.insert]
    simp only [updateAt_of_ne _ _ hk, hmap]

theorem entries_insert {t : Table Chan} (ht : Ok t) (chan : Chan) (id : UInt32)
    (circuit : Option ℕ) :
    entries (t.insert chan id circuit) = updateAt (entries t) chan id (some circuit) := by
  funext chan' id'
  rw [entries, Table.insert]
  by_cases hk : chan' = chan ∧ id' = id
  · rw [hk.1, hk.2, updateAt_self]
    simp
  · rw [updateAt_of_ne _ _ hk]
    simp only [updateAt_of_ne _ _ hk, entries]
    rcases hmap : t.chanCircidMap chan' id' with _ | e
    · rfl
    · simp [Function.update_of_ne (Nat.ne_of_lt (ht.lt_allocated hmap))]

theorem Ok.remove {t : Table Chan} (ht : Ok t) {chan : Chan} {id : UInt32}
    (hlast : ∀ e, t.chanCircidMap chan id = some e → t.lastCircidChanEnt ≠ some e) :
    Ok (t.remove chan id) := by
  rw [Table.remove]
  rcases hmap : t.chanCircidMap chan id with _ | e
  · exact ht
  · constructor
    · intro chan' id' e' h
      by_cases hk : chan' = chan ∧ id' = id
      · simp [hk.1, hk.2] at h
      · simp only [updateAt_of_ne _ _ hk] at h
        obtain ⟨c, hc⟩ := ht.entry h
        refine ⟨c, ?_⟩
        have hne : e' ≠ e := by
          rintro rfl
          exact hk (ht.key_inj hmap h)
        simp only [Function.update_of_ne hne, hc]
    · intro e' he'
      by_cases hee : e' = e
      · simp [hee]
      · simp only [Function.update_of_ne hee]
        exact ht.allocated e' he'
    · intro e' he'
      obtain ⟨chan', id', hmap'⟩ := ht.last e' he'
      refine ⟨chan', id', ?_⟩
      have hk : ¬ (chan' = chan ∧ id' = id) := by
        rintro ⟨rfl, rfl⟩
        exact hlast e' hmap' he'
      simp only [updateAt_of_ne _ _ hk, hmap']

theorem entries_remove {t : Table Chan} (ht : Ok t) (chan : Chan) (id : UInt32) :
    entries (t.remove chan id) = updateAt (entries t) chan id none := by
  rw [Table.remove]
  rcases hmap : t.chanCircidMap chan id with _ | e
  · exact (updateAt_eq_self (by rw [entries, hmap]; rfl)).symm
  · funext chan' id'
    by_cases hk : chan' = chan ∧ id' = id
    · rw [hk.1, hk.2, updateAt_self]
      simp [entries]
    · rw [updateAt_of_ne _ _ hk]
      simp only [entries, updateAt_of_ne _ _ hk]
      rcases hmap' : t.chanCircidMap chan' id' with _ | e'
      · rfl
      · have hne : e' ≠ e := by
          rintro rfl
          exact hk (ht.key_inj hmap hmap')
        simp [Function.update_of_ne hne]

theorem setCircuit_cases {t : Table Chan} (ht : Ok t) (chan : Chan) (id : UInt32) (p : ℕ) :
    Ok (t.setCircuit chan id p) ∧
      entries (t.setCircuit chan id p) = updateAt (entries t) chan id (some (some p)) := by
  rw [Table.setCircuit]
  rcases hmap : t.chanCircidMap chan id with _ | e
  · exact ⟨ht.insert (some p) hmap, entries_insert ht chan id (some p)⟩
  · obtain ⟨c, hc⟩ := ht.entry hmap
    simp only [hc, Option.map_some]
    refine ⟨⟨?_, ?_, ht.last⟩, ?_⟩
    · intro chan' id' e' h
      by_cases hee : e' = e
      · subst hee
        obtain ⟨rfl, rfl⟩ := ht.key_inj hmap h
        exact ⟨some p, by simp⟩
      · obtain ⟨c', hc'⟩ := ht.entry h
        exact ⟨c', by simp only [Function.update_of_ne hee, hc']⟩
    · intro e' he'
      have hne : e' ≠ e := Nat.ne_of_gt (Nat.lt_of_lt_of_le (ht.lt_allocated hmap) he')
      simp only [Function.update_of_ne hne]
      exact ht.allocated e' he'
    · funext chan' id'
      by_cases hk : chan' = chan ∧ id' = id
      · rw [hk.1, hk.2, updateAt_self]
        simp [entries, hmap]
      · rw [updateAt_of_ne _ _ hk]
        simp only [entries]
        rcases hmap' : t.chanCircidMap chan' id' with _ | e'
        · rfl
        · have hne : e' ≠ e := by
            rintro rfl
            exact hk (ht.key_inj hmap hmap')
          simp [Function.update_of_ne hne]

def clearAt (f : Chan → UInt32 → Option (Option ℕ)) (chan : Option Chan) (id : UInt32) :
    Chan → UInt32 → Option (Option ℕ) :=
  match chan with
  | none => f
  | some chan => updateAt f chan id none

def afterSet (f : Chan → UInt32 → Option (Option ℕ)) (p : ℕ) (oldChan : Option Chan)
    (oldId : UInt32) (chan : Option Chan) (id : UInt32) : Chan → UInt32 → Option (Option ℕ) :=
  if id = oldId ∧ chan = oldChan then f
  else
    let f := clearAt f oldChan oldId
    match chan with
    | none => f
    | some chan => updateAt f chan id (some (some p))

theorem setCircidChanHelper_cases {t : Table Chan} (ht : Ok t) (p : ℕ) (oldChan : Option Chan)
    (oldId : UInt32) (chan : Option Chan) (id : UInt32) :
    Ok (setCircidChanHelper p oldChan oldId chan id t) ∧
      entries (setCircidChanHelper p oldChan oldId chan id t) =
        afterSet (entries t) p oldChan oldId chan id := by
  rw [setCircidChanHelper, afterSet.eq_def]
  by_cases hsame : id = oldId ∧ chan = oldChan
  · rw [if_pos hsame, if_pos hsame]
    exact ⟨ht, rfl⟩
  · rw [if_neg hsame, if_neg hsame]
    set u := if t.cacheIs oldChan oldId || t.cacheIs chan id then
      { t with lastCircidChanEnt := none } else t with hu
    have hok : Ok u := by
      rw [hu]
      split
      · exact ht.forget
      · exact ht
    have hentries : entries u = entries t := by
      rw [hu]
      split <;> rfl
    -- The first test has cleared the cache if it had the entry that is to go.
    have hlast : ∀ old, oldChan = some old → ∀ e, u.chanCircidMap old oldId = some e →
        u.lastCircidChanEnt ≠ some e := by
      rintro old rfl e hmap he
      rw [hu] at hmap he
      split at he
      · exact absurd he (by simp)
      · rename_i hcache
        rw [if_neg hcache] at hmap
        have hthis := (ht.cacheIs_iff old oldId).mpr ⟨e, he, hmap⟩
        rw [hthis] at hcache
        exact hcache (by simp)
    have hleft : Ok (u.removeOld oldChan oldId) ∧
        entries (u.removeOld oldChan oldId) = clearAt (entries t) oldChan oldId := by
      cases oldChan with
      | none => exact ⟨hok, hentries⟩
      | some old =>
        refine ⟨hok.remove (hlast old rfl), ?_⟩
        rw [← hentries]
        exact entries_remove hok old oldId
    cases chan with
    | none => exact hleft
    | some chan =>
      obtain ⟨hset, hentries'⟩ := setCircuit_cases hleft.1 chan id p
      refine ⟨hset, hentries'.trans ?_⟩
      rw [hleft.2]

theorem markUnusable_cases {t : Table Chan} (ht : Ok t) (chan : Chan) (id : UInt32) :
    Ok (channelMarkCircidUnusable chan id t) ∧
      entries (channelMarkCircidUnusable chan id t) =
        match entries t chan id with
        | some _ => entries t
        | none => updateAt (entries t) chan id (some none) := by
  rw [channelMarkCircidUnusable]
  rcases hmap : t.chanCircidMap chan id with _ | e
  · refine ⟨ht.insert none hmap, ?_⟩
    rw [show entries t chan id = none by rw [entries, hmap]; rfl]
    exact entries_insert ht chan id none
  · obtain ⟨c, hc⟩ := ht.entry hmap
    rw [show entries t chan id = some c by rw [entries, hmap, Option.bind_some, hc]; rfl]
    exact ⟨ht, rfl⟩

theorem markUsable_cases {t : Table Chan} (ht : Ok t) (chan : Chan) (id : UInt32)
    (hno : (entries t chan id).join = none) :
    Ok (channelMarkCircidUsable chan id t) ∧
      entries (channelMarkCircidUsable chan id t) = updateAt (entries t) chan id none := by
  have heq : channelMarkCircidUsable chan id t = Table.remove
      (if t.cacheIs (some chan) id then { t with lastCircidChanEnt := none } else t) chan id := by
    rw [channelMarkCircidUsable, Table.remove]
    rcases hmap : t.chanCircidMap chan id with _ | e
    · have hcache : ¬ t.cacheIs (some chan) id = true := fun h => by
        obtain ⟨e, -, he⟩ := (ht.cacheIs_iff chan id).mp h
        exact absurd (hmap.symm.trans he) (by simp)
      rw [if_neg hcache, hmap]
    · obtain ⟨c, hc⟩ := ht.entry hmap
      have hnone : c = none := by
        rw [entries, hmap, Option.bind_some, hc] at hno
        exact hno
      subst hnone
      simp only [hc, Option.bind_some]
      by_cases hlast : t.lastCircidChanEnt = some e
      · have hcache : t.cacheIs (some chan) id = true :=
          (ht.cacheIs_iff chan id).mpr ⟨e, hlast, hmap⟩
        rw [if_pos hcache, if_pos hlast, hmap]
      · have hcache : ¬ t.cacheIs (some chan) id = true := fun h => by
          obtain ⟨e', he', hmap'⟩ := (ht.cacheIs_iff chan id).mp h
          rw [Option.some_inj.mp (hmap.symm.trans hmap')] at hlast
          exact hlast he'
        rw [if_neg hcache, if_neg hlast, hmap]
  have hok : Ok (if t.cacheIs (some chan) id then { t with lastCircidChanEnt := none } else t) := by
    split
    · exact ht.forget
    · exact ht
  have hentries : entries (if t.cacheIs (some chan) id then
      { t with lastCircidChanEnt := none } else t) = entries t := by
    split <;> rfl
  have hlast : ∀ e, (if t.cacheIs (some chan) id then
      { t with lastCircidChanEnt := none } else t).chanCircidMap chan id = some e →
      (if t.cacheIs (some chan) id then
        { t with lastCircidChanEnt := none } else t).lastCircidChanEnt ≠ some e := by
    intro e hmap he
    split at he
    · exact absurd he (by simp)
    · rename_i hcache
      rw [if_neg hcache] at hmap
      exact hcache ((ht.cacheIs_iff chan id).mpr ⟨e, he, hmap⟩)
  rw [heq, ← hentries]
  exact ⟨hok.remove hlast, entries_remove hok chan id⟩

theorem lookup_cases {t : Table Chan} (ht : Ok t) (chan : Chan) (id : UInt32) :
    Ok (circuitGetByCircidChannelImpl id chan t).1 ∧
      entries (circuitGetByCircidChannelImpl id chan t).1 = entries t ∧
      (circuitGetByCircidChannelImpl id chan t).2 = htLookup t chan id := by
  rw [circuitGetByCircidChannelImpl]
  by_cases hcache : t.cacheIs (some chan) id = true
  · rw [if_pos hcache]
    obtain ⟨e, hlast, hmap⟩ := (ht.cacheIs_iff chan id).mp hcache
    refine ⟨ht, rfl, ?_⟩
    rw [htLookup, hlast, hmap]
  · rw [if_neg hcache]
    exact ⟨⟨ht.entry, ht.allocated, fun e he => ⟨chan, id, he⟩⟩, rfl, rfl⟩

theorem Ok.setCircidChan {t : Table Chan} (ht : Ok t) (p : ℕ) (deletePending : Bool)
    (oldChan : Option Chan) (oldId : UInt32) (chan : Option Chan) (id : UInt32) :
    Ok (setCircidChan p deletePending oldChan oldId chan id t) := by
  have hok := (setCircidChanHelper_cases ht p oldChan oldId chan id).1
  rw [CircidCache.setCircidChan.eq_def]
  cases oldChan with
  | none => exact hok
  | some oldChan =>
    cases deletePending with
    | false => exact hok
    | true => exact (markUnusable_cases hok oldChan oldId).1

/-! ### Runs -/

/-- What is done to the table.  A circuit goes from an id, or from none, to another, or to
none. -/
inductive TableOp (Chan : Type*)
  | setCircidChan (p : ℕ) (deletePending : Bool) (oldChan : Option Chan) (oldId : UInt32)
      (chan : Option Chan) (id : UInt32)
  | markUnusable (chan : Chan) (id : UInt32)
  | markUsable (chan : Chan) (id : UInt32)
  | lookup (chan : Chan) (id : UInt32)

/-- An id is marked usable when no circuit has it, which the callers see to. -/
def TableOp.enabled (t : Table Chan) : TableOp Chan → Prop
  | .markUsable chan id => (entries t chan id).join = none
  | _ => True

def TableOp.apply (t : Table Chan) : TableOp Chan → Table Chan
  | .setCircidChan p deletePending oldChan oldId chan id =>
    CircidCache.setCircidChan p deletePending oldChan oldId chan id t
  | .markUnusable chan id => channelMarkCircidUnusable chan id t
  | .markUsable chan id => channelMarkCircidUsable chan id t
  | .lookup chan id => (circuitGetByCircidChannelImpl id chan t).1

variable (Chan) in
def cachedMap : System (Table Chan) (TableOp Chan) where
  init t := t = .initial
  step t op t' := op.enabled t ∧ t' = op.apply t

theorem ok_inductive (ok : Table Chan → TableOp Chan → Prop) :
    Inductive (cachedMap Chan) ok Ok where
  init := by
    rintro t rfl
    exact .initial
  step := by
    rintro t op t' ht - ⟨hop, rfl⟩
    cases op with
    | setCircidChan p deletePending oldChan oldId chan id =>
      exact ht.setCircidChan p deletePending oldChan oldId chan id
    | markUnusable chan id => exact (markUnusable_cases ht chan id).1
    | markUsable chan id => exact (markUsable_cases ht chan id hop).1
    | lookup chan id => exact (lookup_cases ht chan id).1

/-- In every run the cached entry is allocated and in the table, and a lookup through the
cache has the circuit and the flag of a lookup in the table. -/
theorem cache_transparent {t : Table Chan}
    (h : Reached (cachedMap Chan) (fun _ _ => True) t) :
    (∀ e, t.lastCircidChanEnt = some e → t.heap e ≠ none ∧
      ∃ chan id, t.chanCircidMap chan id = some e) ∧
    ∀ chan id, (circuitGetByCircidChannelImpl id chan t).2 = htLookup t chan id := by
  have ht : Ok t := h.invariant (ok_inductive _)
  refine ⟨fun e he => ?_, fun chan id => (lookup_cases ht chan id).2.2⟩
  obtain ⟨entry, hheap, hmap⟩ := ht.heap_last he
  exact ⟨by rw [hheap]; simp, entry.chan, entry.circId, hmap⟩

def sampleTable : Table Bool :=
  TableOp.apply (TableOp.apply .initial (.setCircidChan 0 false none 0 (some true) 5))
    (.lookup true 5)

theorem cache_transparent_sampleTable :
    (circuitGetByCircidChannelImpl 5 true sampleTable).2 = htLookup sampleTable true 5 := by
  have h₁ : (cachedMap Bool).step .initial (.setCircidChan 0 false none 0 (some true) 5)
      (TableOp.apply .initial (.setCircidChan 0 false none 0 (some true) 5)) := ⟨trivial, rfl⟩
  have h₂ : (cachedMap Bool).step
      (TableOp.apply .initial (.setCircidChan 0 false none 0 (some true) 5))
      (.lookup true 5) sampleTable := ⟨trivial, rfl⟩
  exact (cache_transparent (.step (.step (.init rfl) trivial h₁) trivial h₂)).2 true 5

end CircidCache
