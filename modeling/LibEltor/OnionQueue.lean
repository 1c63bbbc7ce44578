/-
The queues of CREATE cells that wait for a worker (`feature/relay/onion_queue.c`).

There is a queue for each kind of handshake, with a counter of its entries, and a circuit
knows its entry.  An entry that is too old is taken out when another one is added, and
its circuit is closed.
-/
import LibEltor.Onion
import LibEltor.Transition
import Mathlib.Data.List.Nodup

open Transition
open Onion (CreateCell onionHandshakeTypeTap onionHandshakeTypeNtor onionHandshakeTypeNtorV3)

namespace OnionQueue

/-! ### The queues -/

abbrev maxOnionHandshakeType : UInt16 := 3
abbrev maxQueueIdx : UInt16 := onionHandshakeTypeNtor

/-- `onion_queue_t` -/
structure Entry where
  circ : ℕ
  queueIdx : UInt16
  onionskin : Option CreateCell
  whenAdded : ℤ

/-- The queues, what circuits know of them, and which circuits are marked.  Entries are
numbers, in the order of their allocation.  `answers` is no field of the source: it
counts how often the CREATE cell of a circuit has been answered. -/
structure Queues where
  allocated : ℕ
  entry : ℕ → Entry
  olList : UInt16 → List ℕ
  olEntries : UInt16 → ℤ
  recentlyChosenNtors : ℤ
  onionqueueEntry : ℕ → Option ℕ
  markedForClose : ℕ → Bool
  answers : ℕ → ℕ

def Queues.initial : Queues where
  allocated := 0
  entry := fun _ => ⟨0, 0, none, 0⟩
  olList := fun _ => []
  olEntries := fun _ => 0
  recentlyChosenNtors := 0
  onionqueueEntry := fun _ => none
  markedForClose := fun _ => false
  answers := fun _ => 0

/-- A circuit is closed for want of another answer to its CREATE cell. -/
def closeAsAnswer (p : ℕ) (q : Queues) : Queues :=
  { q with
    markedForClose := Function.update q.markedForClose p true
    answers := Function.update q.answers p (q.answers p + 1) }

def onionskinTypeToQueue (type : UInt16) : UInt16 :=
  if type = onionHandshakeTypeNtorV3 then onionHandshakeTypeNtor
  else if type > maxQueueIdx then maxQueueIdx
  else type

/-- `delayed` is what the measurements of earlier handshakes say: that it would take too
long to clear the queues. -/
def haveRoomForOnionskin (delayed : Bool) (type : UInt16) (q : Queues) : Bool :=
  q.olEntries type < 50 || !delayed

def onionQueueEntryRemove (victim : ℕ) (q : Queues) : Queues :=
  let e := q.entry victim
  if e.queueIdx > maxQueueIdx then q
  else
    { q with
      olList := Function.update q.olList e.queueIdx ((q.olList e.queueIdx).erase victim)
      onionqueueEntry := Function.update q.onionqueueEntry e.circ none
      olEntries := if e.onionskin.isSome then
        Function.update q.olEntries e.queueIdx (q.olEntries e.queueIdx - 1) else q.olEntries }

/-- The loop that culls elderly requests; a round takes one entry out.  It has no value
where it looks for the time of an entry in an empty queue. -/
def cullElderly (now cutoff : ℤ) (queueIdx : UInt16) : ℕ → Queues → Option Queues
  | 0, _ => none
  | n + 1, q =>
    match (q.olList queueIdx).head? with
    | none => none
    | some head =>
      if now - (q.entry head).whenAdded < cutoff then some q
      else
        let circ := (q.entry head).circ
        -- the circuit forgets the entry first, and is closed if it was not marked yet
        let q := onionQueueEntryRemove head
          { q with onionqueueEntry := Function.update q.onionqueueEntry circ none }
        cullElderly now cutoff queueIdx n (if q.markedForClose circ then q else closeAsAnswer circ q)

def insertTail (circ : ℕ) (onionskin : CreateCell) (now : ℤ) (q : Queues) : Queues :=
  let queueIdx := onionskinTypeToQueue onionskin.handshakeType
  { q with
    allocated := q.allocated + 1
    entry := Function.update q.entry q.allocated ⟨circ, queueIdx, some onionskin, now⟩
    olEntries := Function.update q.olEntries queueIdx (q.olEntries queueIdx + 1)
    onionqueueEntry := Function.update q.onionqueueEntry circ (some q.allocated)
    olList := Function.update q.olList queueIdx (q.olList queueIdx ++ [q.allocated]) }

def onionPendingAdd (now cutoff : ℤ) (delayed : Bool) (circ : ℕ) (onionskin : CreateCell)
    (q : Queues) : Option (Bool × Queues) :=
  if onionskin.handshakeType > maxOnionHandshakeType then some (false, q)
  else
    let queueIdx := onionskinTypeToQueue onionskin.handshakeType
    if haveRoomForOnionskin delayed queueIdx q = false then some (false, q)
    else
      let q := insertTail circ onionskin now q
      (cullElderly now cutoff queueIdx ((q.olList queueIdx).length + 1) q).map fun q => (true, q)

def decideNextHandshakeType (numNtorsPerTap : ℤ) (q : Queues) : UInt16 × Queues :=
  if q.olEntries onionHandshakeTypeNtor = 0 then (onionHandshakeTypeTap, q)
  else if q.olEntries onionHandshakeTypeTap = 0 then
    (onionHandshakeTypeNtor,
      if q.recentlyChosenNtors ≤ numNtorsPerTap then
        { q with recentlyChosenNtors := q.recentlyChosenNtors + 1 } else q)
  else if q.recentlyChosenNtors + 1 ≤ numNtorsPerTap then
    (onionHandshakeTypeNtor, { q with recentlyChosenNtors := q.recentlyChosenNtors + 1 })
  else (onionHandshakeTypeTap, { q with recentlyChosenNtors := 0 })

def onionNextTask (numNtorsPerTap : ℤ) (q : Queues) :
    Option (ℕ × Option CreateCell) × Queues :=
  let (handshakeToChoose, q) := decideNextHandshakeType numNtorsPerTap q
  match (q.olList handshakeToChoose).head? with
  | none => (none, q)
  | some head =>
    let e := q.entry head
    let q := { q with
      olEntries := if e.onionskin.isSome then
        Function.update q.olEntries e.queueIdx (q.olEntries e.queueIdx - 1) else q.olEntries
      -- The cell goes to the caller, and is not freed with the entry.
      entry := Function.update q.entry head { e with onionskin := none }
      onionqueueEntry := Function.update q.onionqueueEntry e.circ none }
    (some (e.circ, e.onionskin), onionQueueEntryRemove head q)

def removePending (circ : ℕ) (q : Queues) : Queues :=
  match q.onionqueueEntry circ with
  | some victim => onionQueueEntryRemove victim q
  | none => q

def clearPendingOnions (q : Queues) : Queues :=
  let clear (q : Queues) (i : UInt16) : Queues :=
    (q.olList i).foldl (fun q victim => onionQueueEntryRemove victim q) q
  { clear (clear (clear q 0) 1) 2 with olEntries := fun _ => 0 }

structure Ok (q : Queues) : Prop where
  count : ∀ i ≤ maxQueueIdx, q.olEntries i = (q.olList i).length
  nodup : ∀ i, (q.olList i).Nodup
  mem : ∀ {i e}, e ∈ q.olList i → (q.entry e).queueIdx = i ∧ i ≤ maxQueueIdx ∧
    (q.entry e).onionskin.isSome = true ∧ e < q.allocated
  entry : ∀ p e, q.onionqueueEntry p = some e ↔ (q.entry e).circ = p ∧ ∃ i, e ∈ q.olList i

theorem ok_initial : Ok .initial where
  count _ _ := rfl
  nodup _ := List.nodup_nil
  mem h := absurd h List.not_mem_nil
  entry p e := by simp [Queues.initial]

section
variable {q : Queues} {i : UInt16} {e : ℕ}

theorem Ok.of_entry (h : Ok q) {p : ℕ} (hp : q.onionqueueEntry p = some e) :
    (q.entry e).circ = p ∧ ∃ i, e ∈ q.olList i :=
  (h.entry p e).mp hp

theorem Ok.knows (h : Ok q) (he : e ∈ q.olList i) :
    q.onionqueueEntry (q.entry e).circ = some e :=
  (h.entry _ e).mpr ⟨rfl, i, he⟩

theorem Ok.congr (h : Ok q) {entry : ℕ → Entry} (hentry : ∀ i, ∀ e ∈ q.olList i, entry e = q.entry e)
    (n : ℤ) (marked : ℕ → Bool) (answers : ℕ → ℕ) :
    Ok { q with
      entry := entry
      recentlyChosenNtors := n
      markedForClose := marked
      answers := answers } := by
  refine ⟨h.count, h.nodup, fun {i e} he => ?_, fun p e => ?_⟩
  · show (entry e).queueIdx = i ∧ _ ∧ (entry e).onionskin.isSome = true ∧ _
    rw [hentry i e he]
    exact h.mem he
  · show _ ↔ (entry e).circ = p ∧ _
    rw [h.entry]
    constructor
    · rintro ⟨hcirc, i, he⟩
      exact ⟨(hentry i e he) ▸ hcirc, i, he⟩
    · rintro ⟨hcirc, i, he⟩
      exact ⟨(hentry i e he) ▸ hcirc, i, he⟩

theorem Ok.closeAsAnswer (h : Ok q) (p : ℕ) : Ok (closeAsAnswer p q) :=
  h.congr (fun _ _ _ => rfl) _ _ _

/-! ### Taking an entry out -/

/-- What is there when the entry `e` has been taken out. -/
def removed (e : ℕ) (q : Queues) : Queues :=
  let i := (q.entry e).queueIdx
  { q with
    olList := Function.update q.olList i ((q.olList i).erase e)
    onionqueueEntry := Function.update q.onionqueueEntry (q.entry e).circ none
    olEntries := Function.update q.olEntries i (q.olEntries i - 1) }

theorem Ok.mem_removed (h : Ok q) (he : e ∈ q.olList i) (e' : ℕ) (j : UInt16) :
    e' ∈ (removed e q).olList j ↔ e' ∈ q.olList j ∧ e' ≠ e := by
  obtain ⟨hi, -⟩ := h.mem he
  rw [removed]
  simp only [hi]
  by_cases hj : j = i
  · subst hj
    rw [Function.update_self, (h.nodup j).mem_erase_iff, and_comm]
  · rw [Function.update_of_ne hj]
    refine ⟨fun he' => ⟨he', ?_⟩, fun he' => he'.1⟩
    rintro rfl
    exact hj ((h.mem he').1.symm.trans hi)

theorem Ok.removed (h : Ok q) (he : e ∈ q.olList i) : Ok (removed e q) := by
  obtain ⟨hi, hle, -⟩ := h.mem he
  refine ⟨fun j hj => ?_, fun j => ?_, fun {j e'} he' => ?_, fun p e' => ?_⟩
  · -- only the counter of its own queue goes down, with the queue
    rw [OnionQueue.removed]
    simp only [hi]
    by_cases hji : j = i
    · subst hji
      have hpos := List.length_pos_of_mem he
      rw [Function.update_self, Function.update_self, List.length_erase_of_mem he, h.count j hj]
      omega
    · rw [Function.update_of_ne hji, Function.update_of_ne hji]
      exact h.count j hj
  · rw [OnionQueue.removed]
    simp only [Function.update_apply]
    split
    · exact (h.nodup _).erase e
    · exact h.nodup j
  · exact h.mem ((h.mem_removed he e' j).mp he').1
  · -- the circuit of the entry has lost it, and every other circuit knows what it knew
    simp only [h.mem_removed he]
    show Function.update q.onionqueueEntry (q.entry e).circ none p = some e' ↔ (q.entry e').circ = p ∧ _
    by_cases hp : p = (q.entry e).circ
    · subst hp
      rw [Function.update_self]
      refine iff_of_false (by simp) ?_
      -- A circuit has no second entry.
      rintro ⟨hcirc, j, he', hne⟩
      have hknows := h.knows he'
      rw [hcirc, h.knows he] at hknows
      exact hne (Option.some_inj.mp hknows).symm
    · rw [Function.update_of_ne hp, h.entry]
      constructor
      · rintro ⟨rfl, j, he'⟩
        refine ⟨rfl, j, he', ?_⟩
        rintro rfl
        exact hp rfl
      · rintro ⟨rfl, j, he', -⟩
        exact ⟨rfl, j, he'⟩

theorem Ok.onionQueueEntryRemove_eq (h : Ok q) (he : e ∈ q.olList i) :
    onionQueueEntryRemove e q = OnionQueue.removed e q := by
  obtain ⟨hi, hle, hskin, -⟩ := h.mem he
  have hle' : ¬(q.entry e).queueIdx > maxQueueIdx := by
    rw [hi]
    exact UInt16.not_lt.mpr hle
  rw [onionQueueEntryRemove, if_neg hle', if_pos hskin]
  rfl

theorem Ok.cull_eq (h : Ok q) (he : e ∈ q.olList i) :
    onionQueueEntryRemove e { q with
      onionqueueEntry := Function.update q.onionqueueEntry (q.entry e).circ none } =
        OnionQueue.removed e q := by
  obtain ⟨hi, hle, hskin, -⟩ := h.mem he
  have hle' : ¬(q.entry e).queueIdx > maxQueueIdx := by
    rw [hi]
    exact UInt16.not_lt.mpr hle
  rw [onionQueueEntryRemove, if_neg hle', if_pos hskin, Function.update_idem]
  rfl

theorem Ok.removePending (h : Ok q) (p : ℕ) : Ok (removePending p q) := by
  rw [OnionQueue.removePending]
  rcases hp : q.onionqueueEntry p with _ | victim
  · exact h
  · obtain ⟨-, i, hi⟩ := h.of_entry hp
    simp only [h.onionQueueEntryRemove_eq hi]
    exact h.removed hi

theorem Ok.cullElderly (now cutoff : ℤ) {n : ℕ} : ∀ {q q' : Queues}, Ok q →
    cullElderly now cutoff i n q = some q' → Ok q' := by
  induction n with
  | zero =>
    intro q q' _ hq'
    exact absurd hq' (by simp [OnionQueue.cullElderly])
  | succ n ih =>
    intro q q' h hq'
    rw [OnionQueue.cullElderly] at hq'
    rcases hhead : (q.olList i).head? with _ | head
    · rw [hhead] at hq'
      exact absurd hq' (by simp)
    · have hmem : head ∈ q.olList i := List.mem_of_mem_head? hhead
      rw [hhead] at hq'
      simp only [h.cull_eq hmem] at hq'
      split at hq'
      · exact Option.some_inj.mp hq' ▸ h
      · refine ih ?_ hq'
        split
        · exact h.removed hmem
        · exact (h.removed hmem).closeAsAnswer _

theorem onionskinTypeToQueue_le (type : UInt16) : onionskinTypeToQueue type ≤ maxQueueIdx := by
  rw [onionskinTypeToQueue]
  split_ifs with hv3 hout
  · decide
  · decide
  · exact UInt16.not_lt.mp hout

theorem Ok.insertTail (h : Ok q) {p : ℕ} (hp : q.onionqueueEntry p = none)
    (onionskin : CreateCell) (now : ℤ) : Ok (insertTail p onionskin now q) := by
  set i := onionskinTypeToQueue onionskin.handshakeType with hi
  have hle : i ≤ maxQueueIdx := onionskinTypeToQueue_le _
  -- the number of the new entry has never been in a queue
  have hfresh (j : UInt16) : q.allocated ∉ q.olList j :=
    fun he => Nat.lt_irrefl _ (h.mem he).2.2.2
  have hmem (e : ℕ) (j : UInt16) : e ∈ Function.update q.olList i (q.olList i ++ [q.allocated]) j ↔
      e ∈ q.olList j ∨ (j = i ∧ e = q.allocated) := by
    by_cases hj : j = i
    · subst hj
      simp
    · simp [hj]
  refine ⟨fun j hj => ?_, fun j => ?_, fun {j e} he => ?_, fun p' e => ?_⟩
  · simp only [OnionQueue.insertTail, ← hi]
    by_cases hji : j = i
    · rw [hji, Function.update_self, Function.update_self, h.count i hle, List.length_append,
        List.length_singleton]
      omega
    · rw [Function.update_of_ne hji, Function.update_of_ne hji]
      exact h.count j hj
  · simp only [OnionQueue.insertTail, ← hi, Function.update_apply]
    split
    · refine List.nodup_append.mpr ⟨h.nodup i, List.nodup_singleton _, ?_⟩
      intro e he e' he'
      rw [List.mem_singleton] at he'
      subst he'
      exact ne_of_mem_of_not_mem he (hfresh i)
    · exact h.nodup j
  · rcases (hmem e j).mp he with hold | ⟨rfl, rfl⟩
    · have hne : e ≠ q.allocated := ne_of_mem_of_not_mem hold (hfresh j)
      obtain ⟨hidx, hj, hskin, hlt⟩ := h.mem hold
      simp only [OnionQueue.insertTail, Function.update_of_ne hne]
      exact ⟨hidx, hj, hskin, by omega⟩
    · simp only [OnionQueue.insertTail, Function.update_self]
      exact ⟨rfl, hle, rfl, Nat.lt_succ_self _⟩
  · -- the circuit had no entry, so the new one is its only one
    simp only [OnionQueue.insertTail, ← hi, hmem]
    have hnone : q.onionqueueEntry p' ≠ some q.allocated := by
      intro hentry
      obtain ⟨-, j, hj⟩ := h.of_entry hentry
      exact hfresh j hj
    -- the new entry is for `p`, and for no other circuit
    by_cases he : e = q.allocated
    · subst he
      rw [Function.update_self]
      by_cases hp' : p' = p
      · subst hp'
        rw [Function.update_self]
        exact iff_of_true rfl ⟨rfl, i, .inr ⟨rfl, rfl⟩⟩
      · rw [Function.update_of_ne hp']
        exact iff_of_false hnone fun hcirc => hp' hcirc.1.symm
    · have hold : (∃ j, e ∈ q.olList j ∨ j = i ∧ e = q.allocated) ↔ ∃ j, e ∈ q.olList j :=
        exists_congr fun j => or_iff_left fun hnew => he hnew.2
      rw [Function.update_of_ne he, hold, ← h.entry]
      by_cases hp' : p' = p
      · subst hp'
        rw [Function.update_self, hp]
        exact iff_of_false (fun heq => he (Option.some_inj.mp heq).symm) (by simp)
      · rw [Function.update_of_ne hp']

theorem Ok.onionPendingAdd (h : Ok q) {now cutoff : ℤ} {delayed : Bool} {p : ℕ}
    {onionskin : CreateCell} (hp : q.onionqueueEntry p = none) {b : Bool} {q' : Queues}
    (hadd : onionPendingAdd now cutoff delayed p onionskin q = some (b, q')) : Ok q' := by
  simp only [OnionQueue.onionPendingAdd] at hadd
  split_ifs at hadd
  · obtain ⟨-, rfl⟩ := Prod.mk.inj (Option.some_inj.mp hadd)
    exact h
  · obtain ⟨-, rfl⟩ := Prod.mk.inj (Option.some_inj.mp hadd)
    exact h
  · rw [Option.map_eq_some_iff] at hadd
    obtain ⟨q'', hcull, hq⟩ := hadd
    obtain ⟨-, rfl⟩ := Prod.mk.inj hq
    exact (h.insertTail hp onionskin now).cullElderly now cutoff hcull

theorem decideNextHandshakeType_eq (k : ℤ) (q : Queues) :
    ∃ n, (decideNextHandshakeType k q).2 = { q with recentlyChosenNtors := n } := by
  rw [decideNextHandshakeType]
  split_ifs
  · exact ⟨q.recentlyChosenNtors, rfl⟩
  · exact ⟨_, rfl⟩
  · exact ⟨q.recentlyChosenNtors, rfl⟩
  · exact ⟨_, rfl⟩
  · exact ⟨_, rfl⟩

theorem Ok.onionNextTask_cases (h : Ok q) (k : ℤ) :
    (∃ n, onionNextTask k q = (none, { q with recentlyChosenNtors := n })) ∨
    ∃ i e n, e ∈ q.olList i ∧ onionNextTask k q =
      (some ((q.entry e).circ, (q.entry e).onionskin), { OnionQueue.removed e q with
        entry := Function.update q.entry e { q.entry e with onionskin := none }
        recentlyChosenNtors := n }) := by
  obtain ⟨n, hn⟩ := decideNextHandshakeType_eq k q
  rw [onionNextTask]
  rcases hdecide : decideNextHandshakeType k q with ⟨i, q₁⟩
  rw [hdecide] at hn
  obtain rfl : q₁ = _ := hn
  rcases hhead : (q.olList i).head? with _ | e
  · left
    refine ⟨n, ?_⟩
    simp only [hhead]
  · -- the cell leaves the entry before the counter is asked about it, so the counter
    -- goes down once
    right
    have he : e ∈ q.olList i := List.mem_of_mem_head? hhead
    obtain ⟨hi, hle, hskin, -⟩ := h.mem he
    have hle' : ¬i > maxQueueIdx := UInt16.not_lt.mpr hle
    refine ⟨i, e, n, he, ?_⟩
    simp only [hhead, onionQueueEntryRemove, Function.update_self, hi, if_neg hle', hskin, if_true,
      OnionQueue.removed, Function.update_idem]
    rfl

theorem Ok.onionNextTask (h : Ok q) (k : ℤ) : Ok (onionNextTask k q).2 := by
  rcases h.onionNextTask_cases k with ⟨n, heq⟩ | ⟨i, e, n, he, heq⟩
  · rw [heq]
    exact h.congr (fun _ _ _ => rfl) n _ _
  · rw [heq]
    refine (h.removed he).congr (fun j e' he' => ?_) n _ _
    exact Function.update_of_ne ((h.mem_removed he e' j).mp he').2 ..

/-! ### The loop that culls -/

/-- What a round of the culling leaves: the rest `l` of the queue `i`, the other queues, and the
entries. -/
structure Popped (i : UInt16) (l : List ℕ) (q q' : Queues) : Prop where
  ok : Ok q'
  rest : q'.olList i = l
  others : ∀ j, j ≠ i → q'.olList j = q.olList j
  entry : q'.entry = q.entry
  recently : q'.recentlyChosenNtors = q.recentlyChosenNtors
  allocated : q'.allocated = q.allocated

theorem Ok.popped (h : Ok q) {head : ℕ} {l : List ℕ} (hlist : q.olList i = head :: l) :
    Popped i l q (OnionQueue.removed head q) := by
  have hhead : head ∈ q.olList i := by
    rw [hlist]
    exact List.mem_cons_self
  have hi := (h.mem hhead).1
  refine ⟨h.removed hhead, ?_, fun j hj => ?_, rfl, rfl, rfl⟩
  · rw [OnionQueue.removed]
    simp only [hi]
    rw [Function.update_self, hlist, List.erase_cons_head]
  · rw [OnionQueue.removed]
    simp only [hi]
    exact Function.update_of_ne hj ..

theorem Popped.closeAsAnswer {l : List ℕ} {q' : Queues} (h : Popped i l q q') (p : ℕ) :
    Popped i l q (OnionQueue.closeAsAnswer p q') :=
  ⟨h.ok.closeAsAnswer p, h.rest, h.others, h.entry, h.recently, h.allocated⟩

theorem Ok.cullElderly_cons (h : Ok q) {head : ℕ} {l : List ℕ} (hlist : q.olList i = head :: l)
    (now cutoff : ℤ) : ∃ q', Popped i l q q' ∧ ∀ n,
      OnionQueue.cullElderly now cutoff i (n + 1) q =
        if now - (q.entry head).whenAdded < cutoff then some q
        else OnionQueue.cullElderly now cutoff i n q' := by
  have hhead : head ∈ q.olList i := by
    rw [hlist]
    exact List.mem_cons_self
  have hpopped := h.popped hlist
  by_cases hmarked : (OnionQueue.removed head q).markedForClose (q.entry head).circ
  · refine ⟨_, hpopped, fun n => ?_⟩
    rw [OnionQueue.cullElderly, hlist, List.head?_cons]
    simp only [h.cull_eq hhead]
    rw [if_pos hmarked]
  · refine ⟨_, hpopped.closeAsAnswer (q.entry head).circ, fun n => ?_⟩
    rw [OnionQueue.cullElderly, hlist, List.head?_cons]
    simp only [h.cull_eq hhead]
    rw [if_neg hmarked]

theorem Ok.cullElderly_rounds {now cutoff : ℤ} {l : List ℕ} : ∀ {q : Queues} {m n : ℕ}, Ok q →
    q.olList i = l → l.length < m → l.length < n →
      OnionQueue.cullElderly now cutoff i m q = OnionQueue.cullElderly now cutoff i n q := by
  induction l with
  | nil =>
    intro q m n h hlist hm hn
    obtain ⟨m, rfl⟩ := Nat.exists_eq_add_one.mpr (Nat.zero_lt_of_lt hm)
    obtain ⟨n, rfl⟩ := Nat.exists_eq_add_one.mpr (Nat.zero_lt_of_lt hn)
    rw [OnionQueue.cullElderly, OnionQueue.cullElderly, hlist]
    rfl
  | cons head l ih =>
    intro q m n h hlist hm hn
    obtain ⟨m, rfl⟩ := Nat.exists_eq_add_one.mpr (Nat.zero_lt_of_lt hm)
    obtain ⟨n, rfl⟩ := Nat.exists_eq_add_one.mpr (Nat.zero_lt_of_lt hn)
    rw [List.length_cons] at hm hn
    obtain ⟨q', hpopped, heq⟩ := h.cullElderly_cons hlist now cutoff
    have hsame : OnionQueue.cullElderly now cutoff i m q' = OnionQueue.cullElderly now cutoff i n q' :=
      ih hpopped.ok hpopped.rest (by omega) (by omega)
    rw [heq, heq, hsame]

theorem Ok.cullElderly_isSome {now cutoff : ℤ} {l : List ℕ} {last : ℕ} : ∀ {q : Queues} {n : ℕ},
    Ok q → q.olList i = l ++ [last] →
      (∃ e ∈ l ++ [last], now - (q.entry e).whenAdded < cutoff) → l.length < n →
        ∃ q', OnionQueue.cullElderly now cutoff i n q = some q' ∧ last ∈ q'.olList i := by
  induction l with
  | nil =>
    intro q n h hlist hyoung hn
    obtain ⟨n, rfl⟩ := Nat.exists_eq_add_one.mpr (Nat.zero_lt_of_lt hn)
    obtain ⟨q', -, heq⟩ := h.cullElderly_cons hlist now cutoff
    obtain ⟨e, he, hyoung⟩ := hyoung
    rw [List.nil_append, List.mem_singleton] at he
    subst he
    exact ⟨q, by rw [heq, if_pos hyoung], by rw [hlist]; simp⟩
  | cons head l ih =>
    intro q n h hlist hyoung hn
    obtain ⟨n, rfl⟩ := Nat.exists_eq_add_one.mpr (Nat.zero_lt_of_lt hn)
    rw [List.length_cons] at hn
    obtain ⟨q', hpopped, heq⟩ := h.cullElderly_cons hlist now cutoff
    rw [heq]
    split
    · exact ⟨q, rfl, by rw [hlist]; simp⟩
    · rename_i hold
      -- the head is taken off, and the young entry stays
      obtain ⟨e, he, hyoung⟩ := hyoung
      have hne : e ≠ head := by
        rintro rfl
        exact hold hyoung
      have he' : e ∈ l ++ [last] := (List.mem_cons.mp he).resolve_left hne
      exact ih hpopped.ok hpopped.rest ⟨e, he', by rw [hpopped.entry]; exact hyoung⟩ (by omega)

theorem Ok.cullElderly_eq_none {now cutoff : ℤ} {n : ℕ} : ∀ {q : Queues}, Ok q →
    (∀ e ∈ q.olList i, cutoff ≤ now - (q.entry e).whenAdded) →
      OnionQueue.cullElderly now cutoff i n q = none := by
  induction n with
  | zero => exact fun _ _ => rfl
  | succ n ih =>
    intro q h hold
    rcases hlist : q.olList i with _ | ⟨head, l⟩
    · rw [OnionQueue.cullElderly, hlist]
      rfl
    · obtain ⟨q', hpopped, heq⟩ := h.cullElderly_cons hlist now cutoff
      rw [hlist] at hold
      have hhead := hold head List.mem_cons_self
      rw [heq, if_neg (by omega)]
      refine ih hpopped.ok fun e he => ?_
      rw [hpopped.entry]
      exact hold e (List.mem_cons_of_mem _ (hpopped.rest ▸ he))

theorem Ok.cullElderly_spec {now cutoff : ℤ} {n : ℕ} : ∀ {q q' : Queues}, Ok q →
    OnionQueue.cullElderly now cutoff i n q = some q' →
      ∃ old, q.olList i = old ++ q'.olList i ∧
        (∀ e ∈ old, cutoff ≤ now - (q.entry e).whenAdded) ∧ Popped i (q'.olList i) q q' := by
  induction n with
  | zero => exact fun _ hcull => absurd hcull (by simp [OnionQueue.cullElderly])
  | succ n ih =>
    intro q q' h hcull
    rcases hlist : q.olList i with _ | ⟨head, l⟩
    · rw [OnionQueue.cullElderly, hlist] at hcull
      exact absurd hcull (by simp)
    · obtain ⟨mid, hpopped, heq⟩ := h.cullElderly_cons hlist now cutoff
      rw [heq] at hcull
      split at hcull
      · obtain rfl := Option.some_inj.mp hcull
        exact ⟨[], hlist.symm, by simp, h, rfl, fun _ _ => rfl, rfl, rfl, rfl⟩
      · rename_i hhead
        obtain ⟨old, hold, hage, hrest⟩ := ih hpopped.ok hcull
        refine ⟨head :: old, ?_, ?_, hrest.ok, rfl, fun j hj => ?_, ?_, ?_, ?_⟩
        · rw [List.cons_append, ← hold, hpopped.rest]
        · intro e he
          rcases List.mem_cons.mp he with rfl | he
          · omega
          · rw [← hpopped.entry]
            exact hage e he
        · rw [hrest.others j hj, hpopped.others j hj]
        · rw [hrest.entry, hpopped.entry]
        · rw [hrest.recently, hpopped.recently]
        · rw [hrest.allocated, hpopped.allocated]

theorem olList_insertTail (p : ℕ) (onionskin : CreateCell) (now : ℤ) (q : Queues) :
    (OnionQueue.insertTail p onionskin now q).olList
      (onionskinTypeToQueue onionskin.handshakeType) =
        q.olList (onionskinTypeToQueue onionskin.handshakeType) ++ [q.allocated] := by
  simp [OnionQueue.insertTail]

theorem whenAdded_insertTail (p : ℕ) (onionskin : CreateCell) (now : ℤ) (q : Queues) :
    ((OnionQueue.insertTail p onionskin now q).entry q.allocated).whenAdded = now := by
  simp [OnionQueue.insertTail]

theorem Ok.entry_insertTail (h : Ok q) (p : ℕ) (onionskin : CreateCell) (now : ℤ)
    (he : e ∈ q.olList i) : (OnionQueue.insertTail p onionskin now q).entry e = q.entry e := by
  have hne : e ≠ q.allocated := fun heq => Nat.lt_irrefl _ (heq ▸ (h.mem he).2.2.2)
  exact Function.update_of_ne hne ..

def Refused (delayed : Bool) (onionskin : CreateCell) (q : Queues) : Prop :=
  onionskin.handshakeType > maxOnionHandshakeType ∨
    haveRoomForOnionskin delayed (onionskinTypeToQueue onionskin.handshakeType) q = false

/-- The loop of `onion_pending_add` has an entry to look at in every round, and leaves the entry
that was added. -/
def AddsSafely (now cutoff : ℤ) (delayed : Bool) (circ : ℕ) (onionskin : CreateCell) (q : Queues) :
    Prop :=
  ∃ added q', onionPendingAdd now cutoff delayed circ onionskin q = some (added, q') ∧
    (added = true → q.allocated ∈ q'.olList (onionskinTypeToQueue onionskin.handshakeType))

theorem onionPendingAdd_of_refused {now cutoff : ℤ} {delayed : Bool} {p : ℕ}
    {onionskin : CreateCell} (hr : Refused delayed onionskin q) :
    onionPendingAdd now cutoff delayed p onionskin q = some (false, q) := by
  simp only [OnionQueue.onionPendingAdd]
  split_ifs with htype hroom
  · rfl
  · rfl
  · exact absurd hr (not_or.mpr ⟨htype, hroom⟩)

theorem onionPendingAdd_of_not_refused {now cutoff : ℤ} {delayed : Bool} {p : ℕ}
    {onionskin : CreateCell} (hr : ¬Refused delayed onionskin q) :
    onionPendingAdd now cutoff delayed p onionskin q =
      (OnionQueue.cullElderly now cutoff (onionskinTypeToQueue onionskin.handshakeType)
        ((q.olList (onionskinTypeToQueue onionskin.handshakeType)).length + 2)
        (OnionQueue.insertTail p onionskin now q)).map fun q => (true, q) := by
  obtain ⟨htype, hroom⟩ := not_or.mp hr
  simp only [OnionQueue.onionPendingAdd, if_neg htype, if_neg hroom, olList_insertTail,
    List.length_append, List.length_singleton]

theorem Ok.addsSafely_iff (h : Ok q) {p : ℕ} (hp : q.onionqueueEntry p = none) (now cutoff : ℤ)
    (delayed : Bool) (onionskin : CreateCell) :
    AddsSafely now cutoff delayed p onionskin q ↔ Refused delayed onionskin q ∨ 0 < cutoff ∨
      ∃ e ∈ q.olList (onionskinTypeToQueue onionskin.handshakeType),
        now - (q.entry e).whenAdded < cutoff := by
  by_cases hr : Refused delayed onionskin q
  · exact iff_of_true ⟨false, q, onionPendingAdd_of_refused hr, by simp⟩ (.inl hr)
  have hadd := @onionPendingAdd_of_not_refused q now cutoff delayed p onionskin hr
  have hlist := olList_insertTail p onionskin now q
  have hok := h.insertTail hp onionskin now
  by_cases hyoung : 0 < cutoff ∨ ∃ e ∈ q.olList (onionskinTypeToQueue onionskin.handshakeType),
      now - (q.entry e).whenAdded < cutoff
  · refine iff_of_true ?_ (.inr hyoung)
    have hstop : ∃ e ∈ q.olList (onionskinTypeToQueue onionskin.handshakeType) ++ [q.allocated],
        now - ((OnionQueue.insertTail p onionskin now q).entry e).whenAdded < cutoff := by
      rcases hyoung with hpos | ⟨e, he, hyoung⟩
      · exact ⟨q.allocated, by simp, by rw [whenAdded_insertTail]; omega⟩
      · exact ⟨e, by simp [he], by rw [h.entry_insertTail p onionskin now he]; exact hyoung⟩
    obtain ⟨q', hcull, hlast⟩ := hok.cullElderly_isSome hlist hstop (Nat.lt_add_of_pos_right Nat.zero_lt_two)
    exact ⟨true, q', by rw [hadd, hcull]; rfl, fun _ => hlast⟩
  · refine iff_of_false ?_ (not_or.mpr ⟨hr, hyoung⟩)
    obtain ⟨hzero, hold⟩ := not_or.mp hyoung
    rintro ⟨added, q', hsome, -⟩
    -- the new entry is culled after all that were before it
    rw [hadd, hok.cullElderly_eq_none] at hsome
    · exact absurd hsome (by simp)
    · intro e he
      rw [hlist, List.mem_append, List.mem_singleton] at he
      rcases he with he | rfl
      · rw [h.entry_insertTail p onionskin now he]
        by_contra hlt
        exact hold ⟨e, he, by omega⟩
      · rw [whenAdded_insertTail]
        omega

theorem Ok.foldl_remove {l : List ℕ} : ∀ {q : Queues}, Ok q → l.Nodup → (∀ e ∈ l, e ∈ q.olList i) →
    Ok (l.foldl (fun q victim => onionQueueEntryRemove victim q) q) ∧
      ∀ e j, e ∈ (l.foldl (fun q victim => onionQueueEntryRemove victim q) q).olList j ↔
        e ∈ q.olList j ∧ e ∉ l := by
  induction l with
  | nil =>
    intro q h _ _
    exact ⟨h, fun e j => by simp⟩
  | cons victim l ih =>
    intro q h hnodup hl
    obtain ⟨hnotin, hnodup'⟩ := List.nodup_cons.mp hnodup
    have hvictim := hl victim List.mem_cons_self
    have hrest (e : ℕ) (he : e ∈ l) : e ∈ (OnionQueue.removed victim q).olList i :=
      (h.mem_removed hvictim e i).mpr
        ⟨hl e (List.mem_cons_of_mem _ he), ne_of_mem_of_not_mem he hnotin⟩
    obtain ⟨hok, hleft⟩ := ih (h.removed hvictim) hnodup' hrest
    rw [List.foldl_cons, h.onionQueueEntryRemove_eq hvictim]
    refine ⟨hok, fun e j => ?_⟩
    rw [hleft, h.mem_removed hvictim, List.mem_cons]
    tauto

theorem Ok.clear (h : Ok q) (i : UInt16) :
    Ok ((q.olList i).foldl (fun q victim => onionQueueEntryRemove victim q) q) ∧
      ∀ e j, e ∈ ((q.olList i).foldl (fun q victim => onionQueueEntryRemove victim q) q).olList j ↔
        e ∈ q.olList j ∧ j ≠ i := by
  obtain ⟨hok, hleft⟩ := h.foldl_remove (l := q.olList i) (h.nodup i) fun _ he => he
  refine ⟨hok, fun e j => (hleft e j).trans ?_⟩
  refine and_congr_right fun he => not_congr ?_
  constructor
  · intro hi
    exact (h.mem he).1.symm.trans (h.mem hi).1
  · rintro rfl
    exact he

theorem Ok.clearPendingOnions (h : Ok q) :
    Ok (clearPendingOnions q) ∧ ∀ i, (clearPendingOnions q).olList i = [] := by
  obtain ⟨h₀, hleft₀⟩ := h.clear 0
  obtain ⟨h₁, hleft₁⟩ := h₀.clear 1
  obtain ⟨h₂, hleft₂⟩ := h₁.clear 2
  have hempty (i : UInt16) : (OnionQueue.clearPendingOnions q).olList i = [] := by
    rw [List.eq_nil_iff_forall_not_mem]
    intro e he
    obtain ⟨he', hne₂⟩ := (hleft₂ e i).mp he
    obtain ⟨he'', hne₁⟩ := (hleft₁ e i).mp he'
    obtain ⟨he₀, hne₀⟩ := (hleft₀ e i).mp he''
    -- There are three queues.
    have hi := (h.mem he₀).2.1
    rw [UInt16.le_iff_toNat_le] at hi
    have hmax : maxQueueIdx.toNat = 2 := rfl
    rw [ne_eq, ← UInt16.toNat_inj] at hne₀ hne₁ hne₂
    have htwo : (2 : UInt16).toNat = 2 := rfl
    have hone : (1 : UInt16).toNat = 1 := rfl
    have hzero : (0 : UInt16).toNat = 0 := rfl
    omega
  refine ⟨⟨fun i _ => ?_, h₂.nodup, h₂.mem, h₂.entry⟩, hempty⟩
  rw [hempty]
  rfl

end

/-! ### Runs -/

inductive Op
  | onionPendingAdd (now cutoff : ℤ) (delayed : Bool) (circ : ℕ) (onionskin : CreateCell)
  | onionNextTask (numNtorsPerTap : ℤ)
  | onionPendingRemove (circ : ℕ)
  | clearPendingOnions
  | circuitMarkForClose (circ : ℕ)

/-- A CREATE cell is queued for a circuit that has none in a queue: it is the cell that
the circuit has been made for. -/
def onionQueue : System Queues Op where
  init q := q = .initial
  step q op q' := match op with
    | .onionPendingAdd now cutoff delayed circ onionskin =>
      q.onionqueueEntry circ = none ∧
        ∃ b, onionPendingAdd now cutoff delayed circ onionskin q = some (b, q')
    | .onionNextTask numNtorsPerTap => q' = (onionNextTask numNtorsPerTap q).2
    | .onionPendingRemove circ => q' = removePending circ q
    | .clearPendingOnions => q' = clearPendingOnions q
    | .circuitMarkForClose circ =>
      q' = { q with markedForClose := Function.update q.markedForClose circ true }

theorem ok_inductive : Inductive onionQueue (fun _ _ => True) Ok where
  init q hq := hq ▸ ok_initial
  step q op q' h _ hstep := by
    cases op with
    | onionPendingAdd now cutoff delayed circ onionskin =>
      obtain ⟨hcirc, b, hadd⟩ := hstep
      exact h.onionPendingAdd hcirc hadd
    | onionNextTask k =>
      obtain rfl : q' = _ := hstep
      exact h.onionNextTask k
    | onionPendingRemove circ =>
      obtain rfl : q' = _ := hstep
      exact h.removePending circ
    | clearPendingOnions =>
      obtain rfl : q' = _ := hstep
      exact h.clearPendingOnions.1
    | circuitMarkForClose circ =>
      obtain rfl : q' = _ := hstep
      exact h.congr (fun _ _ _ => rfl) _ _ _

def entriesOf (p : ℕ) (q : Queues) : List ℕ :=
  (q.olList 0 ++ q.olList 1 ++ q.olList 2).filter fun e => (q.entry e).circ = p

theorem Ok.mem_entriesOf {q : Queues} (h : Ok q) (p e : ℕ) :
    e ∈ entriesOf p q ↔ q.onionqueueEntry p = some e := by
  rw [entriesOf, List.mem_filter, h.entry, decide_eq_true_eq, and_comm]
  refine and_congr_right fun _ => ?_
  rw [List.mem_append, List.mem_append]
  constructor
  · rintro ((he | he) | he)
    · exact ⟨0, he⟩
    · exact ⟨1, he⟩
    · exact ⟨2, he⟩
  · rintro ⟨i, he⟩
    have hi := (h.mem he).2.1
    rw [UInt16.le_iff_toNat_le] at hi
    have hmax : maxQueueIdx.toNat = 2 := rfl
    -- an entry is in a queue that there is
    have hcases : i = 0 ∨ i = 1 ∨ i = 2 := by
      simp only [← UInt16.toNat_inj]
      have htwo : (2 : UInt16).toNat = 2 := rfl
      have hone : (1 : UInt16).toNat = 1 := rfl
      have hzero : (0 : UInt16).toNat = 0 := rfl
      omega
    rcases hcases with rfl | rfl | rfl
    · exact .inl (.inl he)
    · exact .inl (.inr he)
    · exact .inr he

theorem Ok.nodup_entriesOf {q : Queues} (h : Ok q) (p : ℕ) : (entriesOf p q).Nodup := by
  refine List.Nodup.filter _ ?_
  have hdiff {i j : UInt16} (hij : i ≠ j) (e : ℕ) (he : e ∈ q.olList i) (e' : ℕ)
      (he' : e' ∈ q.olList j) : e ≠ e' := by
    rintro rfl
    exact hij ((h.mem he).1.symm.trans (h.mem he').1)
  refine List.nodup_append.mpr ⟨List.nodup_append.mpr ⟨h.nodup 0, h.nodup 1,
    hdiff (by decide)⟩, h.nodup 2, ?_⟩
  intro e he
  rcases List.mem_append.mp he with he | he
  · exact hdiff (by decide) e he
  · exact hdiff (by decide) e he

/-- In every run each counter has the number of the entries of its queue, and a circuit
knows of an entry exactly when one and only one entry is for it; it never has two. -/
theorem queues_agree {q : Queues} (hr : Reached onionQueue (fun _ _ => True) q) :
    (∀ i ≤ maxQueueIdx, q.olEntries i = (q.olList i).length) ∧
    (∀ p, (q.onionqueueEntry p ≠ none ↔ (entriesOf p q).length = 1) ∧
      (entriesOf p q).length ≤ 1) := by
  have h : Ok q := hr.invariant ok_inductive
  refine ⟨h.count, fun p => ?_⟩
  rcases hp : q.onionqueueEntry p with _ | e
  · have hnil : entriesOf p q = [] := by
      rw [List.eq_nil_iff_forall_not_mem]
      intro e he
      rw [h.mem_entriesOf, hp] at he
      exact absurd he (by simp)
    rw [hnil]
    simp
  · have hone : entriesOf p q = [e] := by
      have hperm : (entriesOf p q).Perm [e] := by
        refine (List.perm_ext_iff_of_nodup (h.nodup_entriesOf p) (List.nodup_singleton e)).mpr ?_
        intro e'
        rw [h.mem_entriesOf, hp, List.mem_singleton, Option.some_inj, eq_comm]
      exact List.perm_singleton.mp hperm
    rw [hone]
    simp

def sampleCell : CreateCell := ⟨10, 2, 0, default⟩

def sampleQueues : Queues := insertTail 7 sampleCell 0 .initial

theorem queues_agree_sampleQueues :
    sampleQueues.olEntries 2 = (sampleQueues.olList 2).length ∧
      (entriesOf 7 sampleQueues).length = 1 := by
  have hstep : onionQueue.step .initial (.onionPendingAdd 0 5 false 7 sampleCell) sampleQueues :=
    ⟨rfl, true, rfl⟩
  obtain ⟨hcount, hentries⟩ := queues_agree (.step (.init rfl) trivial hstep)
  exact ⟨hcount 2 (by decide), (hentries 7).1.mp (by decide)⟩

/-- From `ONION_QUEUE_WAIT_CUTOFF_MIN` to `ONION_QUEUE_WAIT_CUTOFF_MAX`, which is `INT32_MAX`: what
the consensus may say. -/
def WaitCutoff (cutoff : ℤ) : Prop := 0 ≤ cutoff ∧ cutoff ≤ 2147483647

/-- **The culling is safe** for every queue of a run unless the cutoff is zero and no entry of the
queue is from later than now: then the new entry is culled too, and the head of the empty queue is
read.  In any case the loop ends after at most one round more than there are entries. -/
theorem onionPendingAdd_safe_iff {q : Queues} (hr : Reached onionQueue (fun _ _ => True) q) {p : ℕ}
    (hp : q.onionqueueEntry p = none) {cutoff : ℤ} (hcutoff : WaitCutoff cutoff) (now : ℤ)
    (delayed : Bool) (onionskin : CreateCell) :
    (∀ n, (q.olList (onionskinTypeToQueue onionskin.handshakeType)).length + 2 ≤ n →
      cullElderly now cutoff (onionskinTypeToQueue onionskin.handshakeType) n
          (insertTail p onionskin now q) =
        cullElderly now cutoff (onionskinTypeToQueue onionskin.handshakeType)
          ((q.olList (onionskinTypeToQueue onionskin.handshakeType)).length + 2)
          (insertTail p onionskin now q)) ∧
    (AddsSafely now cutoff delayed p onionskin q ↔ Refused delayed onionskin q ∨ 0 < cutoff ∨
      ∃ e ∈ q.olList (onionskinTypeToQueue onionskin.handshakeType),
        now < (q.entry e).whenAdded) := by
  have h : Ok q := hr.invariant ok_inductive
  constructor
  · intro n hn
    refine (h.insertTail hp onionskin now).cullElderly_rounds (olList_insertTail p onionskin now q)
      ?_ ?_
    all_goals
      rw [List.length_append, List.length_singleton]
      omega
  · rw [h.addsSafely_iff hp now cutoff delayed onionskin]
    refine or_congr_right (or_congr_right' fun hzero => ?_)
    have hcut : cutoff = 0 := le_antisymm (not_lt.mp hzero) hcutoff.1
    rw [hcut]
    exact exists_congr fun e => and_congr_right fun _ => by omega

theorem onionPendingAdd_safe_default : AddsSafely 0 5 false 7 sampleCell .initial :=
  (onionPendingAdd_safe_iff (.init rfl) rfl ⟨by decide, by decide⟩ 0 false sampleCell).2.mpr
    (.inr (.inl (by decide)))

/-- With a cutoff of zero, one cell in an empty queue is too many. -/
theorem cutoff_zero_unsafe :
    ¬∀ q, Reached onionQueue (fun _ _ => True) q → ∀ p, q.onionqueueEntry p = none →
      ∀ cutoff, WaitCutoff cutoff → AddsSafely 0 cutoff false p sampleCell q := by
  intro h
  have hsafe := h .initial (.init rfl) 7 rfl 0 ⟨by decide, by decide⟩
  rw [ok_initial.addsSafely_iff rfl] at hsafe
  rcases hsafe with (htype | hroom) | hpos | ⟨e, he, -⟩
  · exact absurd htype (by decide)
  · exact absurd hroom (by decide)
  · exact absurd hpos (by decide)
  · exact absurd he List.not_mem_nil

end OnionQueue
