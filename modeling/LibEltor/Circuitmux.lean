/-
The multiplexer of a channel (`core/or/circuitmux.c`), and the loop that empties it
(`channel_flush_from_first_active_circuit` in `core/or/relay.c`).

A multiplexer has an entry for every circuit on its channel, with the number of cells
that wait there, and it keeps totals: of the circuits, of those with cells, of the
cells, and of the DESTROY cells in a queue of its own.  An assertion that fails ends
the program; here the function then has no value.
-/
import LibEltor.CircidMap
import Mathlib.Algebra.Order.BigOperators.Group.List
import Mathlib.Data.List.AList

open CircidMap Transition

namespace Circuitmux

/-! ### The multiplexer -/

variable {Chan : Type*}

/-- `circuit_muxinfo_t`; the policy's data for the circuit know the circuit. -/
structure MuxInfo where
  cellCount : UInt32
  direction : CellDirection
  circ : ℕ
deriving DecidableEq

abbrev Key (Chan : Type*) := Chan × UInt32

/-- `circuitmux_t`.  Of the policy's data `active` is kept, the circuits in
`active_circuit_pqueue`, without their order. -/
structure Mux (Chan : Type*) where
  nCircuits : UInt32
  nActiveCircuits : UInt32
  nCells : UInt32
  chanidCircidMap : AList fun _ : Key Chan => MuxInfo
  destroyCellQueue : List (UInt32 × UInt8)
  lastCellWasDestroy : Bool
  destroyCtr : ℤ
  active : List (Key Chan)

def Mux.alloc : Mux Chan where
  nCircuits := 0
  nActiveCircuits := 0
  nCells := 0
  chanidCircidMap := ∅
  destroyCellQueue := []
  lastCellWasDestroy := false
  destroyCtr := 0
  active := []

def torAssert (c : Prop) [Decidable c] : Option PUnit := if c then some ⟨⟩ else none

variable [DecidableEq Chan]

def entryAt (l : Link Chan) (m : Mux Chan) : Option (Key Chan × MuxInfo) :=
  match l.chan with
  | none => none
  | some chan =>
    (m.chanidCircidMap.lookup (chan, l.circId)).map fun info => ((chan, l.circId), info)

def circuitmuxFindMapEntry (sides : CellDirection → Link Chan) (m : Mux Chan) :
    Option (Option (Key Chan × MuxInfo)) :=
  match entryAt (sides .dirOut) m with
  | some e => do
    torAssert (e.2.direction = .dirOut)
    some (some e)
  | none =>
    match entryAt (sides .dirIn) m with
    | some e => do
      torAssert (e.2.direction = .dirIn)
      some (some e)
    | none => some none

def circuitmuxMakeCircuitActive (sides : CellDirection → Link Chan) (m : Mux Chan) :
    Option (Mux Chan) := do
  match ← circuitmuxFindMapEntry sides m with
  | none => none
  | some e =>
    torAssert (e.1 ∉ m.active)
    some { m with active := e.1 :: m.active }

def circuitmuxMakeCircuitInactive (sides : CellDirection → Link Chan) (m : Mux Chan) :
    Option (Mux Chan) := do
  match ← circuitmuxFindMapEntry sides m with
  | none => none
  | some e =>
    torAssert (e.1 ∈ m.active)
    some { m with active := m.active.erase e.1 }

/-- The active circuits, when an entry had `old` cells and gets `new` ones. -/
def updateActive (sides : CellDirection → Link Chan) (old new : UInt32) (m : Mux Chan) :
    Option (Mux Chan) :=
  if 0 < old ∧ new = 0 then
    circuitmuxMakeCircuitInactive sides { m with nActiveCircuits := m.nActiveCircuits - 1 }
  else if old = 0 ∧ 0 < new then
    circuitmuxMakeCircuitActive sides { m with nActiveCircuits := m.nActiveCircuits + 1 }
  else some m

def setCount (k : Key Chan) (info : MuxInfo) (n : UInt32) (m : Mux Chan) : Mux Chan :=
  { m with chanidCircidMap := m.chanidCircidMap.insert k { info with cellCount := n } }

def circuitmuxAttachCircuit (circ : ℕ) (sides : CellDirection → Link Chan)
    (direction : CellDirection) (cellCount : UInt32) (m : Mux Chan) : Option (Mux Chan) :=
  match (sides direction).chan with
  | none => none
  | some chan => do
    torAssert ((sides direction).circId ≠ 0)
    let k := (chan, (sides direction).circId)
    match m.chanidCircidMap.lookup k with
    | some info =>
      torAssert (info.direction = direction)
      let m ← updateActive sides info.cellCount cellCount m
      some (setCount k info cellCount { m with nCells := m.nCells - info.cellCount + cellCount })
    | none =>
      let m := { m with
        chanidCircidMap := m.chanidCircidMap.insert k ⟨cellCount, direction, circ⟩
        nCircuits := m.nCircuits + 1 }
      let m ← if 0 < cellCount then
          circuitmuxMakeCircuitActive sides { m with nActiveCircuits := m.nActiveCircuits + 1 }
        else some m
      some { m with nCells := m.nCells + cellCount }

def circuitmuxDetachCircuit (sides : CellDirection → Link Chan) (m : Mux Chan) :
    Option (Mux Chan) :=
  let found : Option ((Key Chan × MuxInfo) × CellDirection) :=
    match entryAt (sides .dirOut) m with
    | some e => some (e, .dirOut)
    | none => (entryAt (sides .dirIn) m).map fun e => (e, .dirIn)
  do
    torAssert ((sides .dirOut).chan ≠ none ∨ (sides .dirIn).chan ≠ none)
    match found with
    | none => some m
    | some (e, lastSearchedDirection) =>
      let m := { m with nCircuits := m.nCircuits - 1 }
      let m ← if 0 < e.2.cellCount then
          circuitmuxMakeCircuitInactive sides { m with nActiveCircuits := m.nActiveCircuits - 1 }
        else some m
      let m := { m with nCells := m.nCells - e.2.cellCount }
      torAssert (lastSearchedDirection = e.2.direction)
      some { m with chanidCircidMap := m.chanidCircidMap.erase e.1 }

/-- The count is written before the policy is told, which does not read it. -/
def circuitmuxSetNumCells (sides : CellDirection → Link Chan) (n : UInt32) (m : Mux Chan) :
    Option (Mux Chan) := do
  match ← circuitmuxFindMapEntry sides m with
  | none => none
  | some e =>
    let m := { m with nCells := m.nCells - e.2.cellCount + n }
    let m ← updateActive sides e.2.cellCount n m
    some (setCount e.1 e.2 n m)

def circuitmuxNotifyXmitCells (sides : CellDirection → Link Chan) (n : UInt32) (m : Mux Chan) :
    Option (Mux Chan) :=
  if n = 0 then some m
  else do
    match ← circuitmuxFindMapEntry sides m with
    | none => none
    | some e =>
      torAssert (n ≤ e.2.cellCount)
      let left := e.2.cellCount - n
      let m := setCount e.1 e.2 left { m with nCells := m.nCells - n }
      if left = 0 then
        circuitmuxMakeCircuitInactive sides { m with nActiveCircuits := m.nActiveCircuits - 1 }
      else some m

def circuitmuxNotifyXmitDestroy (m : Mux Chan) : Mux Chan :=
  { m with destroyCtr := m.destroyCtr - 1 }

/-- The flush that follows when nothing waits to be written is a step of its own. -/
def circuitmuxAppendDestroyCell (circId : UInt32) (reason : UInt8) (m : Mux Chan) : Mux Chan :=
  { m with
    destroyCellQueue := m.destroyCellQueue ++ [(circId, reason)]
    destroyCtr := m.destroyCtr + 1 }

/-- What is to be sent from next. -/
inductive Choice
  | destroyQueue
  | circuit (circ : ℕ)
  | nothing

/-- `first` is at the head of the policy's queue, if there is anything in it. -/
def circuitmuxGetFirstActiveCircuit (first : Key Chan) (m : Mux Chan) :
    Option (Choice × Mux Chan) :=
  if m.destroyCellQueue ≠ [] ∧ (m.lastCellWasDestroy = false ∨ m.nActiveCircuits = 0) then
    some (.destroyQueue, { m with lastCellWasDestroy := true })
  else if 0 < m.nActiveCircuits then do
    torAssert (0 < m.nCells)
    let choice := if m.active = [] then .nothing else
      match m.chanidCircidMap.lookup first with
      | some info => .circuit info.circ
      | none => .nothing
    some (choice, { m with lastCellWasDestroy := false })
  else do
    torAssert (m.nCells = 0)
    torAssert (m.destroyCellQueue = [])
    some (.nothing, m)

/-- What is not the multiplexer's: the number of cells in the queue of the circuit, and
whether the cell that was taken could be written. -/
structure Flushed where
  queued : UInt32
  written : Bool

def flushFirstActive (link : ℕ → CellDirection → Link Chan) (first : Key Chan) (o : Flushed)
    (m : Mux Chan) : Option (Mux Chan) := do
  match ← circuitmuxGetFirstActiveCircuit first m with
  | (.destroyQueue, m) =>
    torAssert (m.destroyCellQueue ≠ [])
    let m := { m with destroyCellQueue := m.destroyCellQueue.tail }
    some (if o.written then circuitmuxNotifyXmitDestroy m else m)
  | (.circuit circ, m) =>
    if o.queued = 0 then circuitmuxSetNumCells (link circ) 0 m
    else if o.written then
      circuitmuxNotifyXmitCells (link circ) 1 m >>= circuitmuxSetNumCells (link circ) (o.queued - 1)
    else some m
  | (.nothing, m) => some m

/-! ### Totals -/

/-- The sum of `f` over the entries. -/
def tally (f : MuxInfo → ℕ) (map : AList fun _ : Key Chan => MuxInfo) : ℕ :=
  (map.entries.map fun e => f e.2).sum

theorem tally_insert (f : MuxInfo → ℕ) (k : Key Chan) (info : MuxInfo)
    (map : AList fun _ : Key Chan => MuxInfo) :
    tally f (map.insert k info) = f info + tally f (map.erase k) := by
  rw [tally, AList.entries_insert, List.map_cons, List.sum_cons]
  rfl

theorem tally_erase (f : MuxInfo → ℕ) {k : Key Chan} {info : MuxInfo}
    {map : AList fun _ : Key Chan => MuxInfo} (h : map.lookup k = some info) :
    tally f map = f info + tally f (map.erase k) := by
  have hmem : (⟨k, info⟩ : Sigma fun _ : Key Chan => MuxInfo) ∈ map.entries :=
    AList.mem_lookup_iff.mp h
  obtain ⟨info', l₁, l₂, -, hl, herase⟩ :=
    List.exists_of_kerase (List.mem_keys_of_mem hmem)
  have hinfo : info' = info := by
    have h' : map.lookup k = some info' := AList.mem_lookup_iff.mpr (by rw [hl]; simp)
    exact Option.some_inj.mp (h'.symm.trans h)
  subst hinfo
  have hrest : (map.erase k).entries = l₁ ++ l₂ := herase
  rw [tally, tally, hl, hrest]
  simp only [List.map_append, List.map_cons, List.sum_append, List.sum_cons]
  omega

theorem tally_erase_of_none (f : MuxInfo → ℕ) {k : Key Chan}
    {map : AList fun _ : Key Chan => MuxInfo} (h : map.lookup k = none) :
    tally f (map.erase k) = tally f map := by
  have hkeys : k ∉ map.entries.keys := AList.lookup_eq_none.mp h
  have herase : (map.erase k).entries = map.entries := List.kerase_of_notMem_keys hkeys
  rw [tally, herase, tally]

def activeOf (n : UInt32) : ℕ := if 0 < n then 1 else 0

/-- The totals, as far as an `unsigned int` holds them. -/
structure Tallied (m : Mux Chan) : Prop where
  nCircuits : m.nCircuits = UInt32.ofNat (tally (fun _ => 1) m.chanidCircidMap)
  nActiveCircuits : m.nActiveCircuits =
    UInt32.ofNat (tally (fun info => activeOf info.cellCount) m.chanidCircidMap)
  nCells : m.nCells = UInt32.ofNat (tally (fun info => info.cellCount.toNat) m.chanidCircidMap)

theorem ofNat_replace {total rest old new : ℕ} (h : total = old + rest) :
    UInt32.ofNat total - UInt32.ofNat old + UInt32.ofNat new = UInt32.ofNat (new + rest) := by
  rw [h, UInt32.ofNat_add, UInt32.ofNat_add, UInt32.add_comm (UInt32.ofNat old),
    UInt32.add_sub_cancel, UInt32.add_comm]

/-! ### Entries and the circuits they are for -/

/-- On `chan` no two sides of circuits have the same id, and no circuit has both of its
sides there. -/
structure Sides (chan : Chan) (link : ℕ → CellDirection → Link Chan) : Prop where
  inj : ∀ {p q d e}, (link p d).chan = some chan → (link q e).chan = some chan →
    (link p d).circId = (link q e).circId → p = q
  apart : ∀ p, (link p .dirOut).chan = some chan → (link p .dirIn).chan ≠ some chan

structure Entries (chan : Chan) (link : ℕ → CellDirection → Link Chan)
    (map : AList fun _ : Key Chan => MuxInfo) : Prop where
  chan : ∀ {k info}, map.lookup k = some info → k.1 = chan ∧ k.2 ≠ 0
  side : ∀ {k info}, map.lookup k = some info →
    (link info.circ info.direction).chan = some k.1 ∧ (link info.circ info.direction).circId = k.2

section
variable {chan : Chan} {link : ℕ → CellDirection → Link Chan} {m : Mux Chan} {k : Key Chan}
  {info : MuxInfo}

theorem entryAt_of_chan {l : Link Chan} {c : Chan} (h : l.chan = some c) :
    entryAt l m = (m.chanidCircidMap.lookup (c, l.circId)).map fun info => ((c, l.circId), info) := by
  rw [entryAt, h]

theorem Entries.of_lookup {map : AList fun _ : Key Chan => MuxInfo} {dir : CellDirection} {p : ℕ}
    (h : Entries chan link map) (hs : Sides chan link) (hk : map.lookup k = some info)
    (hchan : (link p dir).chan = some chan) (hid : (link p dir).circId = k.2) :
    info.circ = p ∧ info.direction = dir := by
  obtain ⟨hside, hcirc⟩ := h.side hk
  rw [(h.chan hk).1] at hside
  have hp : info.circ = p := hs.inj hside hchan (hcirc.trans hid.symm)
  refine ⟨hp, ?_⟩
  rw [hp] at hside
  have hout := hs.apart p
  by_contra hne
  rcases hdir : info.direction with _ | _ <;> rcases dir with _ | _ <;> rw [hdir] at hside hne
  · exact hne rfl
  · exact hout hchan hside
  · exact hout hside hchan
  · exact hne rfl

theorem Entries.of_entryAt (h : Entries chan link m.chanidCircidMap) (hs : Sides chan link)
    {p : ℕ} {dir : CellDirection} (he : entryAt (link p dir) m = some (k, info)) :
    m.chanidCircidMap.lookup k = some info ∧ info.circ = p ∧ info.direction = dir := by
  rcases hc : (link p dir).chan with _ | c
  · rw [entryAt, hc] at he
    exact absurd he (by simp)
  · rw [entryAt_of_chan hc, Option.map_eq_some_iff] at he
    obtain ⟨info', hlookup, heq⟩ := he
    obtain ⟨rfl, rfl⟩ := Prod.mk.inj heq
    obtain ⟨rfl, -⟩ := h.chan hlookup
    exact ⟨hlookup, h.of_lookup hs hlookup hc rfl⟩

theorem Entries.entryAt (h : Entries chan link m.chanidCircidMap)
    (hk : m.chanidCircidMap.lookup k = some info) :
    entryAt (link info.circ info.direction) m = some (k, info) := by
  obtain ⟨hchan, hcirc⟩ := h.side hk
  rw [entryAt_of_chan hchan, hcirc, hk]
  rfl

theorem Entries.find (h : Entries chan link m.chanidCircidMap) (hs : Sides chan link)
    (hk : m.chanidCircidMap.lookup k = some info) :
    circuitmuxFindMapEntry (link info.circ) m = some (some (k, info)) := by
  have hentry := h.entryAt hk
  rw [circuitmuxFindMapEntry]
  cases hdir : info.direction with
  | dirOut =>
    rw [hdir] at hentry
    simp [hentry, hdir, torAssert]
  | dirIn =>
    rw [hdir] at hentry
    have hout : Circuitmux.entryAt (link info.circ .dirOut) m = none := by
      rw [Option.eq_none_iff_forall_ne_some]
      rintro ⟨k', info'⟩ he
      obtain ⟨hk', hcirc, hdir'⟩ := h.of_entryAt hs he
      have hother := h.side hk'
      rw [hcirc, hdir', (h.chan hk').1] at hother
      have hthis := h.side hk
      rw [hdir, (h.chan hk).1] at hthis
      exact hs.apart _ hother.1 hthis.1
    simp [hout, hentry, hdir, torAssert]

theorem Entries.find_eq (h : Entries chan link m.chanidCircidMap) (hs : Sides chan link) (p : ℕ) :
    circuitmuxFindMapEntry (link p) m = some none ∨ ∃ k info,
      m.chanidCircidMap.lookup k = some info ∧ info.circ = p ∧
        circuitmuxFindMapEntry (link p) m = some (some (k, info)) := by
  rcases hout : Circuitmux.entryAt (link p .dirOut) m with _ | ⟨k, info⟩
  · rcases hin : Circuitmux.entryAt (link p .dirIn) m with _ | ⟨k, info⟩
    · left
      simp [circuitmuxFindMapEntry, hout, hin]
    · right
      obtain ⟨hk, rfl, -⟩ := h.of_entryAt hs hin
      exact ⟨k, info, hk, rfl, h.find hs hk⟩
  · right
    obtain ⟨hk, rfl, -⟩ := h.of_entryAt hs hout
    exact ⟨k, info, hk, rfl, h.find hs hk⟩

theorem Entries.insert {map : AList fun _ : Key Chan => MuxInfo} (h : Entries chan link map)
    (hchan : k.1 = chan ∧ k.2 ≠ 0)
    (hside : (link info.circ info.direction).chan = some k.1 ∧
      (link info.circ info.direction).circId = k.2) :
    Entries chan link (map.insert k info) := by
  have hcases {k' info'} (hk' : (map.insert k info).lookup k' = some info') :
      (k' = k ∧ info' = info) ∨ map.lookup k' = some info' := by
    by_cases heq : k' = k
    · subst heq
      rw [AList.lookup_insert] at hk'
      exact .inl ⟨rfl, (Option.some_inj.mp hk').symm⟩
    · rw [AList.lookup_insert_ne heq] at hk'
      exact .inr hk'
  constructor
  · intro k' info' hk'
    rcases hcases hk' with ⟨rfl, rfl⟩ | hold
    · exact hchan
    · exact h.chan hold
  · intro k' info' hk'
    rcases hcases hk' with ⟨rfl, rfl⟩ | hold
    · exact hside
    · exact h.side hold

theorem Entries.erase {map : AList fun _ : Key Chan => MuxInfo} (h : Entries chan link map) :
    Entries chan link (map.erase k) := by
  have hold {k' info'} (hk' : (map.erase k).lookup k' = some info') :
      map.lookup k' = some info' := by
    by_cases heq : k' = k
    · subst heq
      rw [AList.lookup_erase] at hk'
      exact absurd hk' (by simp)
    · rwa [AList.lookup_erase_ne heq] at hk'
  exact ⟨fun hk' => h.chan (hold hk'), fun hk' => h.side (hold hk')⟩

theorem makeCircuitActive_eq (h : Entries chan link m.chanidCircidMap) (hs : Sides chan link)
    (hk : m.chanidCircidMap.lookup k = some info) (hactive : k ∉ m.active) :
    circuitmuxMakeCircuitActive (link info.circ) m = some { m with active := k :: m.active } := by
  rw [circuitmuxMakeCircuitActive, h.find hs hk]
  simp [torAssert, hactive]

theorem makeCircuitInactive_eq (h : Entries chan link m.chanidCircidMap) (hs : Sides chan link)
    (hk : m.chanidCircidMap.lookup k = some info) (hactive : k ∈ m.active) :
    circuitmuxMakeCircuitInactive (link info.circ) m =
      some { m with active := m.active.erase k } := by
  rw [circuitmuxMakeCircuitInactive, h.find hs hk]
  simp [torAssert, hactive]

/-- The active circuits when the entry `k` has `new` cells and not `old`. -/
def reactive (k : Key Chan) (old new : UInt32) (l : List (Key Chan)) : List (Key Chan) :=
  if 0 < old ∧ new = 0 then l.erase k else if old = 0 ∧ 0 < new then k :: l else l

theorem updateActive_eq (h : Entries chan link m.chanidCircidMap) (hs : Sides chan link)
    (hk : m.chanidCircidMap.lookup k = some info) (hactive : k ∈ m.active ↔ 0 < info.cellCount)
    (n : UInt32) :
    updateActive (link info.circ) info.cellCount n m = some { m with
      nActiveCircuits := m.nActiveCircuits - UInt32.ofNat (activeOf info.cellCount) +
        UInt32.ofNat (activeOf n)
      active := reactive k info.cellCount n m.active } := by
  rw [updateActive, reactive]
  by_cases hout : 0 < info.cellCount ∧ n = 0
  · obtain ⟨hold, rfl⟩ := hout
    rw [if_pos ⟨hold, rfl⟩, if_pos ⟨hold, rfl⟩, makeCircuitInactive_eq
      (m := { m with nActiveCircuits := m.nActiveCircuits - 1 }) h hs hk (hactive.mpr hold)]
    simp [activeOf, hold]
  · rw [if_neg hout, if_neg hout]
    by_cases hin : info.cellCount = 0 ∧ 0 < n
    · have hold : k ∉ m.active := by
        rw [hactive, hin.1]
        exact UInt32.lt_irrefl 0
      rw [if_pos hin, if_pos hin, makeCircuitActive_eq
        (m := { m with nActiveCircuits := m.nActiveCircuits + 1 }) h hs hk hold]
      simp [activeOf, hin.1, hin.2]
    · rw [if_neg hin, if_neg hin]
      have hsame : activeOf n = activeOf info.cellCount := by
        simp only [activeOf, UInt32.lt_iff_toNat_lt, ← UInt32.toNat_inj, UInt32.toNat_zero] at *
        split_ifs <;> omega
      rw [hsame, UInt32.sub_add_cancel]

theorem mem_reactive {l : List (Key Chan)} {old new : UInt32} (hl : l.Nodup)
    (hk : k ∈ l ↔ 0 < old) (k' : Key Chan) :
    k' ∈ reactive k old new l ↔ if k' = k then 0 < new else k' ∈ l := by
  rw [reactive]
  by_cases hout : 0 < old ∧ new = 0
  · rw [if_pos hout, hl.mem_erase_iff]
    by_cases heq : k' = k
    · simp [heq, hout.2]
    · simp [heq]
  · rw [if_neg hout]
    by_cases hin : old = 0 ∧ 0 < new
    · rw [if_pos hin, List.mem_cons]
      by_cases heq : k' = k
      · simp [heq, hin.2]
      · simp [heq]
    · rw [if_neg hin]
      by_cases heq : k' = k
      · subst heq
        rw [if_pos rfl, hk]
        simp only [UInt32.lt_iff_toNat_lt, ← UInt32.toNat_inj, UInt32.toNat_zero] at *
        omega
      · rw [if_neg heq]

theorem nodup_reactive {l : List (Key Chan)} {old new : UInt32} (hl : l.Nodup)
    (hk : k ∈ l ↔ 0 < old) : (reactive k old new l).Nodup := by
  rw [reactive]
  split_ifs with hout hin
  · exact hl.erase k
  · refine List.nodup_cons.mpr ⟨?_, hl⟩
    rw [hk, hin.1]
    exact UInt32.lt_irrefl 0
  · exact hl

/-! ### The invariant -/

structure Ok (chan : Chan) (link : ℕ → CellDirection → Link Chan) (m : Mux Chan) : Prop where
  sides : Sides chan link
  entries : Entries chan link m.chanidCircidMap
  tallied : Tallied m
  nodup : m.active.Nodup
  mem_active : ∀ k, k ∈ m.active ↔
    ∃ info, m.chanidCircidMap.lookup k = some info ∧ 0 < info.cellCount

theorem Ok.mem_active_iff (h : Ok chan link m) (hk : m.chanidCircidMap.lookup k = some info) :
    k ∈ m.active ↔ 0 < info.cellCount := by
  rw [h.mem_active, hk]
  simp

def recount (k : Key Chan) (info : MuxInfo) (n : UInt32) (m : Mux Chan) : Mux Chan :=
  setCount k info n { m with
    nCells := m.nCells - info.cellCount + n
    nActiveCircuits := m.nActiveCircuits - UInt32.ofNat (activeOf info.cellCount) +
      UInt32.ofNat (activeOf n)
    active := reactive k info.cellCount n m.active }

theorem Ok.recount (h : Ok chan link m) (hk : m.chanidCircidMap.lookup k = some info)
    (n : UInt32) : Ok chan link (recount k info n m) := by
  have hactive := h.mem_active_iff hk
  refine ⟨h.sides, ?_, ⟨?_, ?_, ?_⟩, nodup_reactive h.nodup hactive, ?_⟩
  · have hside := h.entries.side hk
    exact h.entries.insert (h.entries.chan hk) hside
  · show m.nCircuits = UInt32.ofNat (tally _ (m.chanidCircidMap.insert k _))
    rw [h.tallied.nCircuits, tally_insert, tally_erase _ hk]
  · show m.nActiveCircuits - _ + _ = UInt32.ofNat (tally _ (m.chanidCircidMap.insert k _))
    rw [h.tallied.nActiveCircuits, tally_insert]
    exact ofNat_replace (tally_erase _ hk)
  · show m.nCells - info.cellCount + n = UInt32.ofNat (tally _ (m.chanidCircidMap.insert k _))
    have hreplace := @ofNat_replace _ _ _ n.toNat
      (tally_erase (fun info => info.cellCount.toNat) hk)
    rw [UInt32.ofNat_toNat, UInt32.ofNat_toNat] at hreplace
    rw [h.tallied.nCells, tally_insert]
    exact hreplace
  · intro k'
    show k' ∈ reactive k info.cellCount n m.active ↔
      ∃ info', (m.chanidCircidMap.insert k _).lookup k' = some info' ∧ 0 < info'.cellCount
    rw [mem_reactive h.nodup hactive]
    by_cases heq : k' = k
    · subst heq
      rw [if_pos rfl, AList.lookup_insert]
      simp
    · rw [if_neg heq, AList.lookup_insert_ne heq]
      exact h.mem_active k'

theorem circuitmuxSetNumCells_eq (h : Ok chan link m)
    (hk : m.chanidCircidMap.lookup k = some info) (n : UInt32) :
    circuitmuxSetNumCells (link info.circ) n m = some (recount k info n m) := by
  rw [circuitmuxSetNumCells, h.entries.find h.sides hk]
  simp only [Option.bind_eq_bind, Option.bind_some]
  rw [updateActive_eq (m := { m with nCells := m.nCells - info.cellCount + n }) h.entries h.sides
    hk (h.mem_active_iff hk)]
  rfl

theorem circuitmuxNotifyXmitCells_eq (h : Ok chan link m)
    (hk : m.chanidCircidMap.lookup k = some info) {n : UInt32} (hn : n ≤ info.cellCount)
    (hpos : n ≠ 0) :
    circuitmuxNotifyXmitCells (link info.circ) n m =
      some (recount k info (info.cellCount - n) m) := by
  have hcount : 0 < info.cellCount := by
    rw [UInt32.lt_iff_toNat_lt, UInt32.toNat_zero]
    rw [UInt32.le_iff_toNat_le] at hn
    rw [ne_eq, ← UInt32.toNat_inj, UInt32.toNat_zero] at hpos
    omega
  have hcells : m.nCells - info.cellCount + (info.cellCount - n) = m.nCells - n := by grind
  have hside := h.entries.side hk
  have hentries : Entries chan link (m.chanidCircidMap.insert k
      { info with cellCount := info.cellCount - n }) :=
    h.entries.insert (h.entries.chan hk) hside
  rw [circuitmuxNotifyXmitCells, if_neg hpos, h.entries.find h.sides hk]
  simp only [Option.bind_eq_bind, Option.bind_some, torAssert, if_pos hn]
  -- the circuit leaves the active ones with its last cell
  by_cases hleft : info.cellCount - n = 0
  · have hinactive := makeCircuitInactive_eq
      (m := { m with
        nCells := m.nCells - n
        chanidCircidMap := m.chanidCircidMap.insert k { info with cellCount := info.cellCount - n }
        nActiveCircuits := m.nActiveCircuits - 1 })
      hentries h.sides (AList.lookup_insert _) ((h.mem_active_iff hk).mpr hcount)
    have hn' : n = info.cellCount := by grind
    rw [if_pos hleft]
    refine hinactive.trans ?_
    simp [recount, setCount, reactive, activeOf, hn', hcount]
  · have hpos' : 0 < info.cellCount - n := by
      rw [UInt32.lt_iff_toNat_lt, UInt32.toNat_zero]
      rw [← UInt32.toNat_inj, UInt32.toNat_zero] at hleft
      omega
    rw [if_neg hleft]
    have hne : info.cellCount ≠ 0 := by
      rintro hzero
      rw [hzero] at hcount
      exact UInt32.lt_irrefl 0 hcount
    simp [recount, setCount, reactive, activeOf, hcells, hcount, hpos', hne, hleft]

/-- What is there when the circuit `circ` has got an entry. -/
def attached (k : Key Chan) (info : MuxInfo) (m : Mux Chan) : Mux Chan :=
  { m with
    chanidCircidMap := m.chanidCircidMap.insert k info
    nCircuits := m.nCircuits + 1
    nActiveCircuits := m.nActiveCircuits + UInt32.ofNat (activeOf info.cellCount)
    nCells := m.nCells + info.cellCount
    active := reactive k 0 info.cellCount m.active }

theorem Ok.attached (h : Ok chan link m) (hk : m.chanidCircidMap.lookup k = none)
    (hchan : k.1 = chan ∧ k.2 ≠ 0)
    (hside : (link info.circ info.direction).chan = some k.1 ∧
      (link info.circ info.direction).circId = k.2) :
    Ok chan link (attached k info m) := by
  have hactive : k ∈ m.active ↔ (0 : UInt32) < 0 := by
    rw [h.mem_active, hk]
    simp
  -- each counter of the multiplexer is a sum over the entries, and gains that of
  -- the new one
  have hnew (f : MuxInfo → ℕ) : UInt32.ofNat (tally f m.chanidCircidMap) + UInt32.ofNat (f info) =
      UInt32.ofNat (tally f (m.chanidCircidMap.insert k info)) := by
    rw [tally_insert, tally_erase_of_none f hk, UInt32.ofNat_add, UInt32.add_comm]
  refine ⟨h.sides, h.entries.insert hchan hside, ⟨?_, ?_, ?_⟩, nodup_reactive h.nodup hactive, ?_⟩
  · show m.nCircuits + 1 = _
    rw [h.tallied.nCircuits]
    exact hnew _
  · show m.nActiveCircuits + _ = _
    rw [h.tallied.nActiveCircuits]
    exact hnew _
  · show m.nCells + info.cellCount = _
    rw [h.tallied.nCells, ← UInt32.ofNat_toNat (x := info.cellCount)]
    exact hnew _
  · intro k'
    show k' ∈ reactive k 0 info.cellCount m.active ↔
      ∃ info', (m.chanidCircidMap.insert k info).lookup k' = some info' ∧ 0 < info'.cellCount
    rw [mem_reactive h.nodup hactive]
    by_cases heq : k' = k
    · subst heq
      rw [if_pos rfl, AList.lookup_insert]
      simp
    · rw [if_neg heq, AList.lookup_insert_ne heq]
      exact h.mem_active k'

theorem Ok.circuitmuxAttachCircuit (h : Ok chan link m) {p : ℕ} {dir : CellDirection}
    (hchan : (link p dir).chan = some chan) (hid : (link p dir).circId ≠ 0) (n : UInt32) :
    ∃ m', circuitmuxAttachCircuit p (link p) dir n m = some m' ∧ Ok chan link m' ∧
      m'.destroyCtr = m.destroyCtr ∧ m'.destroyCellQueue = m.destroyCellQueue := by
  rw [Circuitmux.circuitmuxAttachCircuit, hchan]
  simp only [torAssert, if_pos hid, Option.bind_eq_bind, Option.bind_some]
  rcases hk : m.chanidCircidMap.lookup (chan, (link p dir).circId) with _ | info
  · refine ⟨Circuitmux.attached (chan, (link p dir).circId) ⟨n, dir, p⟩ m, ?_,
      h.attached hk ⟨rfl, hid⟩ ⟨hchan, rfl⟩, rfl, rfl⟩
    -- a circuit that comes with cells is active at once
    by_cases hn : 0 < n
    · have hentries : Entries chan link (m.chanidCircidMap.insert (chan, (link p dir).circId)
          ⟨n, dir, p⟩) := h.entries.insert ⟨rfl, hid⟩ ⟨hchan, rfl⟩
      have hnotin : (chan, (link p dir).circId) ∉ m.active := by
        rw [h.mem_active, hk]
        simp
      have hactive := makeCircuitActive_eq
        (m := { m with
          chanidCircidMap := m.chanidCircidMap.insert (chan, (link p dir).circId) ⟨n, dir, p⟩
          nCircuits := m.nCircuits + 1
          nActiveCircuits := m.nActiveCircuits + 1 })
        hentries h.sides (AList.lookup_insert _) hnotin
      simp only [if_pos hn]
      rw [hactive]
      simp [Circuitmux.attached, reactive, activeOf, hn]
    · simp [Circuitmux.attached, reactive, activeOf, hn]
  · -- it is attached already: the entry is its own, and only the count is set
    obtain ⟨hp, hdir⟩ := h.entries.of_lookup h.sides hk hchan rfl
    refine ⟨Circuitmux.recount (chan, (link p dir).circId) info n m, ?_, h.recount hk n, rfl, rfl⟩
    have hupdate := updateActive_eq h.entries h.sides hk (h.mem_active_iff hk) n
    rw [hp] at hupdate
    simp only [if_pos hdir, Option.bind_some, hupdate]
    rfl

/-- What is there when the entry `k` is gone. -/
def detached (k : Key Chan) (info : MuxInfo) (m : Mux Chan) : Mux Chan :=
  { m with
    chanidCircidMap := m.chanidCircidMap.erase k
    nCircuits := m.nCircuits - 1
    nActiveCircuits := m.nActiveCircuits - UInt32.ofNat (activeOf info.cellCount)
    nCells := m.nCells - info.cellCount
    active := reactive k info.cellCount 0 m.active }

theorem Ok.detached (h : Ok chan link m) (hk : m.chanidCircidMap.lookup k = some info) :
    Ok chan link (detached k info m) := by
  have hactive := h.mem_active_iff hk
  have hrest (f : MuxInfo → ℕ) : UInt32.ofNat (tally f m.chanidCircidMap) - UInt32.ofNat (f info) =
      UInt32.ofNat (tally f (m.chanidCircidMap.erase k)) := by
    rw [tally_erase f hk, UInt32.ofNat_add, UInt32.add_comm, UInt32.add_sub_cancel]
  refine ⟨h.sides, h.entries.erase, ⟨?_, ?_, ?_⟩, nodup_reactive h.nodup hactive, ?_⟩
  · show m.nCircuits - 1 = _
    rw [h.tallied.nCircuits]
    exact hrest _
  · show m.nActiveCircuits - _ = _
    rw [h.tallied.nActiveCircuits]
    exact hrest _
  · show m.nCells - info.cellCount = _
    rw [h.tallied.nCells, ← UInt32.ofNat_toNat (x := info.cellCount)]
    exact hrest _
  · intro k'
    show k' ∈ reactive k info.cellCount 0 m.active ↔
      ∃ info', (m.chanidCircidMap.erase k).lookup k' = some info' ∧ 0 < info'.cellCount
    rw [mem_reactive h.nodup hactive]
    by_cases heq : k' = k
    · subst heq
      rw [if_pos rfl, AList.lookup_erase]
      simp
    · rw [if_neg heq, AList.lookup_erase_ne heq]
      exact h.mem_active k'

theorem Ok.circuitmuxDetachCircuit (h : Ok chan link m) {p : ℕ}
    (hchan : (link p .dirOut).chan ≠ none ∨ (link p .dirIn).chan ≠ none) :
    ∃ m', circuitmuxDetachCircuit (link p) m = some m' ∧ Ok chan link m' ∧
      m'.destroyCtr = m.destroyCtr ∧ m'.destroyCellQueue = m.destroyCellQueue := by
  rw [Circuitmux.circuitmuxDetachCircuit]
  simp only [torAssert, if_pos hchan, Option.bind_eq_bind, Option.bind_some]
  -- The entry that is found, on whichever side, is the circuit's.
  have hfound {dir : CellDirection} {e : Key Chan × MuxInfo}
      (he : entryAt (link p dir) m = some e) :
      m.chanidCircidMap.lookup e.1 = some e.2 ∧ e.2.circ = p ∧ dir = e.2.direction := by
    obtain ⟨hk, hp, hdir⟩ := h.entries.of_entryAt h.sides he
    exact ⟨hk, hp, hdir.symm⟩
  have hdetach {e : Key Chan × MuxInfo} (hk : m.chanidCircidMap.lookup e.1 = some e.2)
      (hp : e.2.circ = p) :
      (if 0 < e.2.cellCount then
        (circuitmuxMakeCircuitInactive (link p) { m with
          nCircuits := m.nCircuits - 1
          nActiveCircuits := m.nActiveCircuits - 1 }).bind fun m' => some { m' with
            nCells := m'.nCells - e.2.cellCount
            chanidCircidMap := m'.chanidCircidMap.erase e.1 }
      else some { m with
        nCircuits := m.nCircuits - 1
        nCells := m.nCells - e.2.cellCount
        chanidCircidMap := m.chanidCircidMap.erase e.1 }) =
        some (Circuitmux.detached e.1 e.2 m) := by
    by_cases hcount : 0 < e.2.cellCount
    · have hinactive := makeCircuitInactive_eq
        (m := { m with
          nCircuits := m.nCircuits - 1
          nActiveCircuits := m.nActiveCircuits - 1 })
        h.entries h.sides hk ((h.mem_active_iff hk).mpr hcount)
      rw [hp] at hinactive
      rw [if_pos hcount, hinactive]
      simp [Circuitmux.detached, reactive, activeOf, hcount]
    · have hzero : e.2.cellCount = 0 := by
        rw [UInt32.lt_iff_toNat_lt, UInt32.toNat_zero] at hcount
        rw [← UInt32.toNat_inj, UInt32.toNat_zero]
        omega
      rw [if_neg hcount]
      simp [Circuitmux.detached, reactive, activeOf, hzero]
  rcases hout : entryAt (link p .dirOut) m with _ | e
  · rcases hin : entryAt (link p .dirIn) m with _ | e
    · exact ⟨m, rfl, h, rfl, rfl⟩
    · obtain ⟨hk, hp, hdir⟩ := hfound hin
      refine ⟨Circuitmux.detached e.1 e.2 m, ?_, h.detached hk, rfl, rfl⟩
      simp only [Option.map_some, if_pos hdir, Option.bind_some]
      exact hdetach hk hp
  · obtain ⟨hk, hp, hdir⟩ := hfound hout
    refine ⟨Circuitmux.detached e.1 e.2 m, ?_, h.detached hk, rfl, rfl⟩
    simp only [if_pos hdir, Option.bind_some]
    exact hdetach hk hp

theorem Ok.frame (h : Ok chan link m) (q : List (UInt32 × UInt8)) (b : Bool) (d : ℤ) :
    Ok chan link { m with destroyCellQueue := q, lastCellWasDestroy := b, destroyCtr := d } :=
  ⟨h.sides, h.entries, ⟨h.tallied.nCircuits, h.tallied.nActiveCircuits, h.tallied.nCells⟩,
    h.nodup, h.mem_active⟩

/-! ### What the counters can hold -/

omit [DecidableEq Chan] in
theorem tally_le {f g : MuxInfo → ℕ} {map : AList fun _ : Key Chan => MuxInfo}
    (h : ∀ info, f info ≤ g info) : tally f map ≤ tally g map :=
  List.sum_le_sum fun e _ => h e.2

abbrev cells (m : Mux Chan) : ℕ := tally (fun info => info.cellCount.toNat) m.chanidCircidMap

theorem activeOf_le (n : UInt32) : activeOf n ≤ 1 ∧ activeOf n ≤ n.toNat := by
  rw [activeOf]
  split_ifs with hn
  · exact ⟨Nat.le_refl 1, hn⟩
  · exact ⟨Nat.zero_le 1, Nat.zero_le _⟩

theorem Ok.circuits_lt (h : Ok chan link m) : tally (fun _ => 1) m.chanidCircidMap < 2 ^ 32 := by
  have hlength : tally (fun _ => 1) m.chanidCircidMap = m.chanidCircidMap.keys.length := by
    rw [tally, AList.keys, List.keys]
    simp
  have hkey {k : Key Chan} (hk : k ∈ m.chanidCircidMap.keys) : k.1 = chan ∧ k.2 ≠ 0 := by
    obtain ⟨info, hinfo⟩ : ∃ info, m.chanidCircidMap.lookup k = some info :=
      Option.isSome_iff_exists.mp (AList.lookup_isSome.mpr hk)
    exact h.entries.chan hinfo
  have hnodup : (m.chanidCircidMap.keys.map fun k => k.2.toNat).Nodup := by
    refine List.Nodup.map_on ?_ m.chanidCircidMap.keys_nodup
    intro k hk k' hk' heq
    exact Prod.ext ((hkey hk).1.trans (hkey hk').1.symm) (UInt32.toNat_inj.mp heq)
  have hsub : (m.chanidCircidMap.keys.map fun k => k.2.toNat).toFinset ⊆
      (Finset.range (2 ^ 32)).erase 0 := by
    intro n hn
    rw [List.mem_toFinset, List.mem_map] at hn
    obtain ⟨k, hk, rfl⟩ := hn
    rw [Finset.mem_erase, Finset.mem_range]
    refine ⟨fun hzero => (hkey hk).2 (UInt32.toNat_inj.mp hzero), k.2.toNat_lt⟩
  have hcard := Finset.card_le_card hsub
  rw [List.toFinset_card_of_nodup hnodup, List.length_map, Finset.card_erase_of_mem,
    Finset.card_range] at hcard
  · rw [hlength]
    omega
  · rw [Finset.mem_range]
    omega

theorem Ok.active_lt (h : Ok chan link m) :
    tally (fun info => activeOf info.cellCount) m.chanidCircidMap < 2 ^ 32 :=
  Nat.lt_of_le_of_lt (tally_le fun info => (activeOf_le info.cellCount).1) h.circuits_lt

theorem Ok.toNat_nCircuits (h : Ok chan link m) :
    m.nCircuits.toNat = tally (fun _ => 1) m.chanidCircidMap := by
  rw [h.tallied.nCircuits, UInt32.toNat_ofNat_of_lt' h.circuits_lt]

theorem Ok.toNat_nActiveCircuits (h : Ok chan link m) : m.nActiveCircuits.toNat =
    tally (fun info => activeOf info.cellCount) m.chanidCircidMap := by
  rw [h.tallied.nActiveCircuits, UInt32.toNat_ofNat_of_lt' h.active_lt]

theorem Ok.toNat_nCells (h : Ok chan link m) (hcells : cells m < 2 ^ 32) :
    m.nCells.toNat = cells m := by
  rw [h.tallied.nCells, UInt32.toNat_ofNat_of_lt' hcells]

theorem Ok.cells_eq_zero (h : Ok chan link m) (hactive : m.nActiveCircuits = 0) :
    cells m = 0 := by
  have hzero := h.toNat_nActiveCircuits
  rw [hactive, UInt32.toNat_zero] at hzero
  have hnone : ∀ e ∈ m.chanidCircidMap.entries, activeOf e.2.cellCount = 0 := by
    intro e he
    have hle := List.le_sum_of_mem (List.mem_map_of_mem (f := fun e => activeOf e.2.cellCount) he)
    have hsum : (m.chanidCircidMap.entries.map fun e => activeOf e.2.cellCount).sum = 0 := hzero.symm
    omega
  rw [cells, tally, List.sum_eq_zero]
  intro n hn
  obtain ⟨e, he, rfl⟩ := List.mem_map.mp hn
  have hcount : ¬0 < e.2.cellCount := by
    intro hpos
    have hone := hnone e he
    rw [activeOf, if_pos hpos] at hone
    omega
  rw [UInt32.lt_iff_toNat_lt, UInt32.toNat_zero] at hcount
  omega

def takesDestroy (m : Mux Chan) : Prop :=
  m.destroyCellQueue ≠ [] ∧ (m.lastCellWasDestroy = false ∨ m.nActiveCircuits = 0)

def Choice.Sound (m : Mux Chan) : Choice → Prop
  | .destroyQueue => takesDestroy m
  | .circuit p => ∃ k info, m.chanidCircidMap.lookup k = some info ∧ info.circ = p ∧
      0 < info.cellCount
  | .nothing => True

theorem Ok.getFirst_sound (h : Ok chan link m) {first : Key Chan}
    (hfirst : m.active ≠ [] → first ∈ m.active) {choice : Choice} {m' : Mux Chan}
    (hget : circuitmuxGetFirstActiveCircuit first m = some (choice, m')) :
    (∃ b, m' = { m with lastCellWasDestroy := b }) ∧ choice.Sound m ∧
      (choice ≠ .destroyQueue → ¬takesDestroy m) := by
  rw [circuitmuxGetFirstActiveCircuit] at hget
  by_cases hdestroy : m.destroyCellQueue ≠ [] ∧
      (m.lastCellWasDestroy = false ∨ m.nActiveCircuits = 0)
  · -- the destroy cells go first, unless the last cell was one and a circuit waits
    rw [if_pos hdestroy, Option.some_inj, Prod.mk.injEq] at hget
    obtain ⟨rfl, rfl⟩ := hget
    exact ⟨⟨true, rfl⟩, hdestroy, fun hne => absurd rfl hne⟩
  · rw [if_neg hdestroy] at hget
    by_cases hactive : 0 < m.nActiveCircuits
    · rw [if_pos hactive, torAssert] at hget
      by_cases hcells : 0 < m.nCells
      · rw [if_pos hcells] at hget
        simp only [Option.bind_eq_bind, Option.bind_some, Option.some_inj, Prod.mk.injEq] at hget
        obtain ⟨rfl, rfl⟩ := hget
        refine ⟨⟨false, rfl⟩, ?_, fun _ => hdestroy⟩
        by_cases hnone : m.active = []
        · rw [if_pos hnone]
          trivial
        · obtain ⟨info, hk, hcount⟩ := (h.mem_active first).mp (hfirst hnone)
          rw [if_neg hnone, hk]
          exact ⟨first, info, hk, rfl, hcount⟩
      · rw [if_neg hcells] at hget
        exact absurd hget (by simp)
    · -- nothing is active, and both assertions say that nothing is left
      rw [if_neg hactive, torAssert, torAssert] at hget
      by_cases hcells : m.nCells = 0
      · by_cases hqueue : m.destroyCellQueue = []
        · rw [if_pos hcells, if_pos hqueue] at hget
          simp only [Option.bind_eq_bind, Option.bind_some, Option.some_inj,
            Prod.mk.injEq] at hget
          obtain ⟨rfl, rfl⟩ := hget
          exact ⟨⟨m.lastCellWasDestroy, rfl⟩, trivial, fun _ => hdestroy⟩
        · rw [if_pos hcells, if_neg hqueue] at hget
          exact absurd hget (by simp)
      · rw [if_neg hcells] at hget
        exact absurd hget (by simp)

/-- The assertions about `n_cells` hold as long as the number of cells fits there. -/
theorem Ok.getFirst_isSome (h : Ok chan link m) (hcells : cells m < 2 ^ 32) (first : Key Chan) :
    ∃ choice m', circuitmuxGetFirstActiveCircuit first m = some (choice, m') := by
  rw [circuitmuxGetFirstActiveCircuit]
  by_cases hdestroy : m.destroyCellQueue ≠ [] ∧
      (m.lastCellWasDestroy = false ∨ m.nActiveCircuits = 0)
  · rw [if_pos hdestroy]
    exact ⟨_, _, rfl⟩
  · rw [if_neg hdestroy]
    by_cases hactive : 0 < m.nActiveCircuits
    · have hpos : 0 < m.nCells := by
        rw [UInt32.lt_iff_toNat_lt, UInt32.toNat_zero] at hactive ⊢
        rw [h.toNat_nActiveCircuits] at hactive
        rw [h.toNat_nCells hcells]
        exact Nat.lt_of_lt_of_le hactive (tally_le fun info => (activeOf_le info.cellCount).2)
      rw [if_pos hactive, torAssert, if_pos hpos]
      exact ⟨_, _, rfl⟩
    · have hnone : m.nActiveCircuits = 0 := by
        rw [UInt32.lt_iff_toNat_lt, UInt32.toNat_zero] at hactive
        rw [← UInt32.toNat_inj, UInt32.toNat_zero]
        omega
      have hzero : m.nCells = 0 := by
        rw [← UInt32.toNat_inj, h.toNat_nCells hcells, h.cells_eq_zero hnone, UInt32.toNat_zero]
      have hqueue : m.destroyCellQueue = [] := by
        by_contra hne
        exact hdestroy ⟨hne, .inr hnone⟩
      rw [if_neg hactive, torAssert, torAssert, if_pos hzero, if_pos hqueue]
      exact ⟨_, _, rfl⟩

def lost (m : Mux Chan) : ℤ := m.destroyCtr - m.destroyCellQueue.length

theorem Ok.flushFirstActive (h : Ok chan link m) {first : Key Chan}
    (hfirst : m.active ≠ [] → first ∈ m.active) {o : Flushed} {choice : Choice} {m₁ : Mux Chan}
    (hget : circuitmuxGetFirstActiveCircuit first m = some (choice, m₁)) :
    ∃ m', flushFirstActive link first o m = some m' ∧ Ok chan link m' ∧
      ((takesDestroy m → o.written = true) → lost m' = lost m) := by
  obtain ⟨⟨b, rfl⟩, hsound, hother⟩ := h.getFirst_sound hfirst hget
  have h₁ : Ok chan link { m with lastCellWasDestroy := b } := h.frame _ b _
  rw [Circuitmux.flushFirstActive, hget]
  simp only [Option.bind_eq_bind, Option.bind_some]
  cases choice with
  -- a cell leaves the queue and the counter together, if it is written
  | destroyQueue =>
    obtain ⟨hqueue, hlast⟩ := hsound
    simp only [torAssert, if_pos hqueue, Option.bind_some]
    refine ⟨_, rfl, ?_, ?_⟩
    · split
      · exact h.frame _ b _
      · exact h.frame _ b _
    · intro hwritten
      rw [if_pos (hwritten ⟨hqueue, hlast⟩)]
      show m.destroyCtr - 1 - (m.destroyCellQueue.tail.length : ℤ) = lost m
      have hlength := List.length_pos_iff.mpr hqueue
      rw [lost, List.length_tail]
      omega
  | circuit p =>
    obtain ⟨k, info, hk, rfl, hcount⟩ := hsound
    simp only
    -- the circuit had no cell after all, and its count is put right
    by_cases hqueued : o.queued = 0
    · rw [if_pos hqueued, circuitmuxSetNumCells_eq h₁ hk]
      exact ⟨_, rfl, h₁.recount hk 0, fun _ => rfl⟩
    · rw [if_neg hqueued]
      by_cases hwritten : o.written = true
      · have hn : (1 : UInt32) ≤ info.cellCount := hcount
        have h₂ := h₁.recount hk (info.cellCount - 1)
        have hlookup : (Circuitmux.recount k info (info.cellCount - 1)
            { m with lastCellWasDestroy := b }).chanidCircidMap.lookup k =
            some { info with cellCount := info.cellCount - 1 } := AList.lookup_insert _
        rw [if_pos hwritten, circuitmuxNotifyXmitCells_eq h₁ hk hn (by decide), Option.bind_some,
          circuitmuxSetNumCells_eq h₂ hlookup]
        exact ⟨_, rfl, h₂.recount (AList.lookup_insert _) _, fun _ => rfl⟩
      · rw [if_neg hwritten]
        exact ⟨_, rfl, h₁, fun _ => rfl⟩
  | nothing => exact ⟨_, rfl, h₁, fun _ => rfl⟩

end

/-! ### Runs -/

def circuitmuxIsCircuitAttached (sides : CellDirection → Link Chan) (m : Mux Chan) : Bool :=
  match circuitmuxFindMapEntry sides m with
  | some (some _) => true
  | _ => false

def circuitmuxNumCellsForCircuit (sides : CellDirection → Link Chan) (m : Mux Chan) : UInt32 :=
  match circuitmuxFindMapEntry sides m with
  | some (some e) => e.2.cellCount
  | _ => 0

structure State (Chan : Type*) where
  link : ℕ → CellDirection → Link Chan
  mux : Mux Chan

/-- What happens to one multiplexer.  `setLink` is a change of the channel and the id on
one side of a circuit. -/
inductive Op (Chan : Type*)
  | attachCircuit (p : ℕ) (dir : CellDirection) (cellCount : UInt32)
  | detachCircuit (p : ℕ)
  | setNumCells (p : ℕ) (n : UInt32)
  | notifyXmitCells (p : ℕ) (n : UInt32)
  | appendDestroyCell (circId : UInt32) (reason : UInt8)
  | getFirstActiveCircuit (first : Key Chan)
  | flushFirstActive (first : Key Chan) (o : Flushed)
  | setLink (p : ℕ) (dir : CellDirection) (l : Link Chan)

def exec (s : State Chan) : Op Chan → Option (Mux Chan)
  | .attachCircuit p dir cellCount => circuitmuxAttachCircuit p (s.link p) dir cellCount s.mux
  | .detachCircuit p => circuitmuxDetachCircuit (s.link p) s.mux
  | .setNumCells p n => circuitmuxSetNumCells (s.link p) n s.mux
  | .notifyXmitCells p n => circuitmuxNotifyXmitCells (s.link p) n s.mux
  | .appendDestroyCell circId reason => some (circuitmuxAppendDestroyCell circId reason s.mux)
  | .getFirstActiveCircuit first => (circuitmuxGetFirstActiveCircuit first s.mux).map Prod.snd
  | .flushFirstActive first o => flushFirstActive s.link first o s.mux
  | .setLink _ _ _ => some s.mux

/-- What the callers see to: a circuit is attached to the channel it is on; the count is
set of circuits that are attached, and not more cells are reported sent than there are;
the policy picks one of its active circuits; and a side of a circuit is changed when it
is detached, to an id that is not in use. -/
def Allowed (chan : Chan) (s : State Chan) : Op Chan → Prop
  | .attachCircuit p dir _ => (s.link p dir).chan = some chan ∧ (s.link p dir).circId ≠ 0
  | .detachCircuit p => (s.link p .dirOut).chan ≠ none ∨ (s.link p .dirIn).chan ≠ none
  | .setNumCells p _ => circuitmuxIsCircuitAttached (s.link p) s.mux = true
  | .notifyXmitCells p n => circuitmuxIsCircuitAttached (s.link p) s.mux = true ∧
      n ≤ circuitmuxNumCellsForCircuit (s.link p) s.mux
  | .appendDestroyCell _ _ => True
  | .getFirstActiveCircuit first => s.mux.active ≠ [] → first ∈ s.mux.active
  | .flushFirstActive first _ => s.mux.active ≠ [] → first ∈ s.mux.active
  | .setLink p dir l => entryAt (s.link p dir) s.mux = none ∧
      Sides chan (updateAt s.link p dir l)

def Op.link (s : State Chan) : Op Chan → ℕ → CellDirection → Link Chan
  | .setLink p dir l => updateAt s.link p dir l
  | _ => s.link

def circuitmux (chan : Chan) : System (State Chan) (Op Chan) where
  init s := Sides chan s.link ∧ s.mux = .alloc
  step s op s' := Allowed chan s op ∧ exec s op = some s'.mux ∧ s'.link = op.link s

def writesDestroys (s : State Chan) : Op Chan → Prop
  | .flushFirstActive _ o => takesDestroy s.mux → o.written = true
  | _ => True

section
variable {chan : Chan} {s : State Chan} {op : Op Chan}

theorem Ok.of_attached (h : Ok chan s.link s.mux) {p : ℕ}
    (hp : circuitmuxIsCircuitAttached (s.link p) s.mux = true) :
    ∃ k info, s.mux.chanidCircidMap.lookup k = some info ∧ info.circ = p ∧
      circuitmuxNumCellsForCircuit (s.link p) s.mux = info.cellCount := by
  rcases h.entries.find_eq h.sides p with hnone | ⟨k, info, hk, hcirc, hfind⟩
  · rw [circuitmuxIsCircuitAttached, hnone] at hp
    exact absurd hp (by simp)
  · refine ⟨k, info, hk, hcirc, ?_⟩
    rw [circuitmuxNumCellsForCircuit, hfind]

theorem Ok.setLink (h : Ok chan s.link s.mux) {p : ℕ} {dir : CellDirection} {l : Link Chan}
    (hdetached : entryAt (s.link p dir) s.mux = none)
    (hsides : Sides chan (updateAt s.link p dir l)) :
    Ok chan (updateAt s.link p dir l) s.mux := by
  refine ⟨hsides, ⟨h.entries.chan, ?_⟩, h.tallied, h.nodup, h.mem_active⟩
  intro k info hk
  have hne : ¬(info.circ = p ∧ info.direction = dir) := by
    rintro ⟨rfl, rfl⟩
    have hentry := h.entries.entryAt hk
    rw [hdetached] at hentry
    exact absurd hentry (by simp)
  rw [updateAt_of_ne _ _ hne]
  exact h.entries.side hk

theorem Ok.exec (h : Ok chan s.link s.mux) (hallowed : Allowed chan s op)
    (hget : ∀ first, (op = .getFirstActiveCircuit first ∨ ∃ o, op = .flushFirstActive first o) →
      ∃ choice m, circuitmuxGetFirstActiveCircuit first s.mux = some (choice, m)) :
    ∃ m', exec s op = some m' ∧ Ok chan (op.link s) m' ∧
      (writesDestroys s op → lost m' = lost s.mux) := by
  cases op with
  | attachCircuit p dir n =>
    obtain ⟨m', hexec, hok, hctr, hqueue⟩ := h.circuitmuxAttachCircuit hallowed.1 hallowed.2 n
    exact ⟨m', hexec, hok, fun _ => by rw [lost, hctr, hqueue, lost]⟩
  | detachCircuit p =>
    obtain ⟨m', hexec, hok, hctr, hqueue⟩ := h.circuitmuxDetachCircuit hallowed
    exact ⟨m', hexec, hok, fun _ => by rw [lost, hctr, hqueue, lost]⟩
  | setNumCells p n =>
    obtain ⟨k, info, hk, rfl, -⟩ := h.of_attached hallowed
    exact ⟨_, circuitmuxSetNumCells_eq h hk n, h.recount hk n, fun _ => rfl⟩
  | notifyXmitCells p n =>
    obtain ⟨hattached, hn⟩ := hallowed
    obtain ⟨k, info, hk, rfl, hcells⟩ := h.of_attached hattached
    rw [hcells] at hn
    by_cases hzero : n = 0
    · refine ⟨s.mux, ?_, h, fun _ => rfl⟩
      rw [Circuitmux.exec, circuitmuxNotifyXmitCells, if_pos hzero]
    · exact ⟨_, circuitmuxNotifyXmitCells_eq h hk hn hzero, h.recount hk _, fun _ => rfl⟩
  | appendDestroyCell circId reason =>
    refine ⟨_, rfl, h.frame _ _ _, fun _ => ?_⟩
    show s.mux.destroyCtr + 1 - ((s.mux.destroyCellQueue ++ [(circId, reason)]).length : ℤ) = _
    rw [lost, List.length_append, List.length_singleton]
    omega
  | getFirstActiveCircuit first =>
    obtain ⟨choice, m, hsome⟩ := hget first (.inl rfl)
    obtain ⟨⟨b, rfl⟩, -⟩ := h.getFirst_sound hallowed hsome
    refine ⟨_, ?_, h.frame _ b _, fun _ => rfl⟩
    rw [Circuitmux.exec, hsome]
    rfl
  | flushFirstActive first o =>
    obtain ⟨choice, m, hsome⟩ := hget first (.inr ⟨o, rfl⟩)
    exact h.flushFirstActive hallowed hsome
  | setLink p dir l => exact ⟨_, rfl, h.setLink hallowed.1 hallowed.2, fun _ => rfl⟩

theorem picked_of_exec {m' : Mux Chan} (hexec : exec s op = some m') (first : Key Chan)
    (hop : op = .getFirstActiveCircuit first ∨ ∃ o, op = .flushFirstActive first o) :
    ∃ choice m, circuitmuxGetFirstActiveCircuit first s.mux = some (choice, m) := by
  rcases hpick : circuitmuxGetFirstActiveCircuit first s.mux with _ | ⟨choice, m⟩
  · rcases hop with rfl | ⟨o, rfl⟩
    · rw [exec, hpick] at hexec
      exact absurd hexec (by simp)
    · rw [exec, flushFirstActive, hpick] at hexec
      exact absurd hexec (by simp)
  · exact ⟨choice, m, rfl⟩

end

theorem ok_inductive (chan : Chan) :
    Inductive (circuitmux chan) writesDestroys fun s => Ok chan s.link s.mux ∧ lost s.mux = 0 where
  init s hs := by
    obtain ⟨hsides, halloc⟩ := hs
    rw [halloc]
    have hnone {k : Key Chan} {info : MuxInfo} :
        (Mux.alloc : Mux Chan).chanidCircidMap.lookup k ≠ some info := by
      rw [Mux.alloc, AList.lookup_empty]
      exact fun hk => absurd hk (by simp)
    refine ⟨⟨hsides, ⟨fun hk => absurd hk hnone, fun hk => absurd hk hnone⟩, ⟨rfl, rfl, rfl⟩,
      List.nodup_nil, fun k => ?_⟩, rfl⟩
    simp [Mux.alloc]
  step s op s' h hok hstep := by
    obtain ⟨hallowed, hexec, hlink⟩ := hstep
    obtain ⟨m', hexec', h', hlost⟩ := h.1.exec hallowed (picked_of_exec hexec)
    obtain rfl : m' = s'.mux := Option.some_inj.mp (hexec'.symm.trans hexec)
    rw [hlink]
    exact ⟨h', (hlost hok).trans h.2⟩

/-- In every run in which no write of a DESTROY fails, the totals are right, and no
assertion fails in any operation that may come next, as long as there are fewer cells
than an `unsigned int` can count. -/
theorem counts_agree {chan : Chan} {s : State Chan}
    (hr : Reached (circuitmux chan) writesDestroys s) :
    s.mux.nCircuits.toNat = s.mux.chanidCircidMap.entries.length ∧
    s.mux.nActiveCircuits.toNat =
      s.mux.chanidCircidMap.entries.countP (fun e => decide (0 < e.2.cellCount)) ∧
    (cells s.mux < 2 ^ 32 → s.mux.nCells.toNat = cells s.mux) ∧
    s.mux.destroyCtr = s.mux.destroyCellQueue.length ∧
    (cells s.mux < 2 ^ 32 → ∀ op, Allowed chan s op → ∃ m', exec s op = some m') := by
  obtain ⟨h, hlost⟩ := hr.invariant (ok_inductive chan)
  refine ⟨?_, ?_, h.toNat_nCells, ?_, ?_⟩
  · rw [h.toNat_nCircuits, tally]
    simp
  · rw [h.toNat_nActiveCircuits, tally]
    induction s.mux.chanidCircidMap.entries with
    | nil => rfl
    | cons e l ih =>
      rw [List.map_cons, List.sum_cons, ih, List.countP_cons, activeOf, Nat.add_comm]
      simp only [decide_eq_true_eq]
  · rw [lost] at hlost
    omega
  · intro hcells op hallowed
    obtain ⟨m', hexec, -⟩ :=
      h.exec hallowed fun first _ => h.getFirst_isSome hcells first
    exact ⟨m', hexec⟩

def sampleLink : ℕ → CellDirection → Link ℕ :=
  updateAt (fun _ _ => ⟨none, 0, false⟩) 0 .dirOut ⟨some 7, 5, false⟩

theorem sampleLink_sides : Sides 7 sampleLink := by
  have honly {p : ℕ} {d : CellDirection} (h : (sampleLink p d).chan = some 7) :
      p = 0 ∧ d = .dirOut := by
    by_contra hne
    rw [sampleLink, updateAt_of_ne _ _ hne] at h
    exact absurd h (by simp)
  refine ⟨fun hp hq _ => (honly hp).1.trans (honly hq).1.symm, fun p _ hin => ?_⟩
  exact absurd (honly hin).2 (by decide)

theorem counts_agree_append :
    (circuitmuxAppendDestroyCell 5 1 (.alloc : Mux ℕ)).destroyCtr = 1 := by
  have hstep : (circuitmux 7).step ⟨sampleLink, .alloc⟩ (.appendDestroyCell 5 1)
      ⟨sampleLink, circuitmuxAppendDestroyCell 5 1 .alloc⟩ := ⟨trivial, rfl, rfl⟩
  have hwrites : writesDestroys ⟨sampleLink, .alloc⟩ (.appendDestroyCell 5 1) := trivial
  exact (counts_agree (.step (.init ⟨sampleLink_sides, rfl⟩) hwrites hstep)).2.2.2.1

/-- A DESTROY cell that is taken from the queue and cannot be written stays counted. -/
theorem destroyCtr_lost_write :
    ¬∀ s : State ℕ, Reached (circuitmux 7) (fun _ _ => True) s →
      s.mux.destroyCtr = s.mux.destroyCellQueue.length := by
  intro h
  have happend : (circuitmux 7).step ⟨sampleLink, .alloc⟩ (.appendDestroyCell 5 1)
      ⟨sampleLink, circuitmuxAppendDestroyCell 5 1 .alloc⟩ := ⟨trivial, rfl, rfl⟩
  have hflush : (circuitmux 7).step ⟨sampleLink, circuitmuxAppendDestroyCell 5 1 .alloc⟩
      (.flushFirstActive (7, 5) ⟨0, false⟩)
      ⟨sampleLink, { circuitmuxAppendDestroyCell 5 1 (.alloc : Mux ℕ) with
        destroyCellQueue := []
        lastCellWasDestroy := true }⟩ := ⟨fun hne => absurd rfl hne, rfl, rfl⟩
  exact absurd (h _ (.step (.step (.init ⟨sampleLink_sides, rfl⟩) trivial happend) trivial hflush))
    (by decide)

end Circuitmux
