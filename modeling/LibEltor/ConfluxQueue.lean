/-
The bytes of all out-of-order queues (`core/or/conflux.c`, `core/or/conflux_pool.c`).

`total_ooo_q_bytes` is what the handler of low memory reads.  It is charged when
a cell is queued and refunded when one is dequeued.  A set that is freed takes
its queue along without a refund.
-/
import LibEltor.ConfluxLink
import LibEltor.Transition

open Word Transition

namespace Conflux

/-- `sizeof(cell_t)`: a circuit id of four bytes, a command, `CELL_PAYLOAD_SIZE` bytes of payload,
aligned to four bytes. -/
abbrev sizeofCell : ℕ := 2056

/-- The live sets and the global counter; `freedCells` is not in the source: it counts the cells
that were queued in a set when it was freed. -/
structure OooQueues (κ : Type) where
  sets : List (Conflux κ)
  totalOooQBytes : ℕ
  freedCells : ℕ

variable {κ : Type}

def OooQueues.queuedCells (s : OooQueues κ) : ℕ := (s.sets.map (·.oooQ.length)).sum

/-- `total_ooo_q_bytes += sizeof(cell_t)`, where `conflux_process_cell` queued the cell. -/
def chargeOooQ (total : ℕ) : Processed → ℕ
  | .queued => u64 (total + sizeofCell)
  | .inOrder => total
  | .closed => total

/-- What happens to the queues: a set is made; a cell comes in on a circuit of a set, from its last
hop or not; a cell is taken from a queue; a set changes in another way, its queue left as it is; a
set is freed by `conflux_free_`. -/
inductive QueueAction (κ : Type)
  | newSet (nonce : Nonce)
  | processCell (i : ℕ) (inCirc : Circ) (sourceHop : Bool) (cell : κ)
  | dequeueCell (i : ℕ)
  | other (i : ℕ) (cfx : Conflux κ)
  | freeSet (i : ℕ)

inductive QueueStep : OooQueues κ → QueueAction κ → OooQueues κ → Prop
  | newSet (s : OooQueues κ) (nonce : Nonce) :
      QueueStep s (.newSet nonce) { s with sets := s.sets ++ [confluxNew κ nonce] }
  | refused (s : OooQueues κ) {i : ℕ} {cfx : Conflux κ} {inCirc : Circ} {sourceHop : Bool} (cell : κ)
      (hset : s.sets[i]? = some cfx) (h : confluxGetLeg cfx inCirc = none ∨ sourceHop = false) :
      QueueStep s (.processCell i inCirc sourceHop cell) s
  | processCell (s : OooQueues κ) {i : ℕ} {cfx : Conflux κ} {inCirc : Circ} {leg : ConfluxLeg}
      (cell : κ) (hset : s.sets[i]? = some cfx) (hleg : confluxGetLeg cfx inCirc = some leg) :
      QueueStep s (.processCell i inCirc true cell)
        { s with sets := s.sets.set i (confluxProcessCell cfx leg cell).1
                 totalOooQBytes :=
                   chargeOooQ s.totalOooQBytes (confluxProcessCell cfx leg cell).2 }
  | dequeueNone (s : OooQueues κ) {i : ℕ} {cfx : Conflux κ} (hset : s.sets[i]? = some cfx)
      (h : confluxDequeueCell cfx = none) : QueueStep s (.dequeueCell i) s
  | dequeueCell (s : OooQueues κ) {i : ℕ} {cfx cfx' : Conflux κ} {top : ConfluxCell κ}
      (hset : s.sets[i]? = some cfx) (h : confluxDequeueCell cfx = some (top, cfx')) :
      QueueStep s (.dequeueCell i)
        { s with sets := s.sets.set i cfx'
                 totalOooQBytes := u64 ((s.totalOooQBytes : ℤ) - sizeofCell) }
  | other (s : OooQueues κ) {i : ℕ} {cfx cfx' : Conflux κ} (hset : s.sets[i]? = some cfx)
      (h : cfx'.oooQ = cfx.oooQ) :
      QueueStep s (.other i cfx') { s with sets := s.sets.set i cfx' }
  | freeSet (s : OooQueues κ) {i : ℕ} {cfx : Conflux κ} (hset : s.sets[i]? = some cfx) :
      QueueStep s (.freeSet i)
        { s with sets := s.sets.eraseIdx i, freedCells := s.freedCells + cfx.oooQ.length }

def queueSystem (κ : Type) : System (OooQueues κ) (QueueAction κ) where
  init s := s = ⟨[], 0, 0⟩
  step := QueueStep

theorem sum_map_set {α : Type*} (f : α → ℕ) (l : List α) (i : ℕ) {a : α} (b : α)
    (h : l[i]? = some a) : ((l.set i b).map f).sum + f a = (l.map f).sum + f b := by
  induction l generalizing i with
  | nil => simp at h
  | cons x l ih =>
    cases i with
    | zero =>
      obtain rfl : x = a := by simpa using h
      simp only [List.set_cons_zero, List.map_cons, List.sum_cons]
      omega
    | succ i =>
      have hrest := ih i (by simpa using h)
      simp only [List.set_cons_succ, List.map_cons, List.sum_cons]
      omega

theorem sum_map_eraseIdx {α : Type*} (f : α → ℕ) (l : List α) (i : ℕ) {a : α}
    (h : l[i]? = some a) : ((l.eraseIdx i).map f).sum + f a = (l.map f).sum := by
  induction l generalizing i with
  | nil => simp at h
  | cons x l ih =>
    cases i with
    | zero =>
      obtain rfl : x = a := by simpa using h
      simp only [List.eraseIdx_cons_zero, List.map_cons, List.sum_cons]
      omega
    | succ i =>
      have hrest := ih i (by simpa using h)
      simp only [List.eraseIdx_cons_succ, List.map_cons, List.sum_cons]
      omega

theorem length_confluxProcessCell (cfx : Conflux κ) (leg : ConfluxLeg) (cell : κ) :
    (confluxProcessCell cfx leg cell).1.oooQ.length =
      cfx.oooQ.length + (if (confluxProcessCell cfx leg cell).2 = .queued then 1 else 0) := by
  simp only [confluxProcessCell, updateLeg_oooQ]
  split_ifs <;> simp_all [length_smartlistPqueueAdd]

theorem length_confluxDequeueCell {cfx cfx' : Conflux κ} {top : ConfluxCell κ}
    (h : confluxDequeueCell cfx = some (top, cfx')) : cfx.oooQ.length = cfx'.oooQ.length + 1 := by
  unfold confluxDequeueCell at h
  split at h
  · exact absurd h (by simp)
  · rename_i first rest hq
    split_ifs at h
    obtain ⟨rfl, rfl⟩ := Prod.mk.inj (Option.some.inj h)
    simp [hq]

/-! ### The total -/

/-- The total is the price of the cells that are queued and of those that were freed in a queue. -/
def Accounted (s : OooQueues κ) : Prop :=
  s.totalOooQBytes = u64 (sizeofCell * (s.queuedCells + s.freedCells) : ℕ)

theorem u64_add_u64 (a : ℤ) (b : ℤ) : u64 ((u64 a : ℤ) + b) = u64 (a + b) := by
  have hnn : (0 : ℤ) ≤ a % 2 ^ 64 := Int.emod_nonneg _ (by norm_num)
  simp only [wrap, Int.toNat_of_nonneg hnn, Int.emod_add_emod]

theorem accounted_step {s s' : OooQueues κ} {a : QueueAction κ} (hs : Accounted s)
    (h : QueueStep s a s') : Accounted s' := by
  unfold Accounted at hs ⊢
  cases h with
  | newSet nonce =>
    simpa [OooQueues.queuedCells, confluxNew] using hs
  | refused cell hset hwhy => exact hs
  | @processCell i cfx inCirc leg cell hset hleg =>
    have hlen := length_confluxProcessCell cfx leg cell
    have hsum := sum_map_set (·.oooQ.length) s.sets i (confluxProcessCell cfx leg cell).1 hset
    simp only [OooQueues.queuedCells] at hs ⊢
    cases hres : (confluxProcessCell cfx leg cell).2 with
    | queued =>
      -- one cell more, and its price
      rw [hres, if_pos rfl] at hlen
      simp only [chargeOooQ, hs, u64_add_u64]
      congr 1
      generalize (s.sets.map fun cfx => cfx.oooQ.length).sum = before at hsum ⊢
      generalize ((s.sets.set i _).map fun cfx => cfx.oooQ.length).sum = after at hsum ⊢
      push_cast
      omega
    | inOrder | closed =>
      rw [hres, if_neg (by decide)] at hlen
      simp only [chargeOooQ, hs, sizeofCell]
      congr 2
      omega
  | dequeueNone hset hnone => exact hs
  | @dequeueCell i cfx cfx' top hset hdeq =>
    have hlen := length_confluxDequeueCell hdeq
    have hsum := sum_map_set (·.oooQ.length) s.sets i cfx' hset
    simp only [OooQueues.queuedCells] at hs ⊢
    rw [hs, sub_eq_add_neg, u64_add_u64]
    congr 1
    generalize (s.sets.map fun cfx => cfx.oooQ.length).sum = before at hsum ⊢
    generalize ((s.sets.set i _).map fun cfx => cfx.oooQ.length).sum = after at hsum ⊢
    push_cast
    omega
  | @other i cfx cfx' hset hq =>
    have hsum := sum_map_set (·.oooQ.length) s.sets i cfx' hset
    simp only [OooQueues.queuedCells, sizeofCell] at hs ⊢
    rw [hs]
    rw [hq] at hsum
    congr 2
    omega
  | @freeSet i cfx hset =>
    -- the freed set's cells move from one sum to the other, and the total does not change
    have hsum := sum_map_eraseIdx (·.oooQ.length) s.sets i hset
    simp only [OooQueues.queuedCells, sizeofCell] at hs ⊢
    rw [hs]
    congr 2
    omega

theorem totalOooQBytes_eq {ok : OooQueues κ → QueueAction κ → Prop} {s : OooQueues κ}
    (hr : Reached (queueSystem κ) ok s) :
    s.totalOooQBytes = u64 (sizeofCell * (s.queuedCells + s.freedCells) : ℕ) := by
  refine hr.invariant ⟨?_, fun _ _ _ hs _ hstep => accounted_step hs hstep⟩
  rintro _ rfl
  simp [Accounted, OooQueues.queuedCells, wrap]

/-- A set is freed with an empty queue, and what is queued fits the counter. -/
def FreedEmpty (s : OooQueues κ) : QueueAction κ → Prop
  | .freeSet i => ∀ cfx, s.sets[i]? = some cfx → cfx.oooQ = []
  | .processCell _ _ _ _ => sizeofCell * (s.queuedCells + 1) < 2 ^ 64
  | _ => True

def NothingLost (s : OooQueues κ) : Prop :=
  s.freedCells = 0 ∧ sizeofCell * s.queuedCells < 2 ^ 64

theorem nothingLost_step {s s' : OooQueues κ} {a : QueueAction κ} (hs : NothingLost s)
    (hok : FreedEmpty s a) (h : QueueStep s a s') : NothingLost s' := by
  obtain ⟨hfreed, hlt⟩ := hs
  unfold NothingLost
  cases h with
  | newSet nonce => exact ⟨hfreed, by simpa [OooQueues.queuedCells, confluxNew] using hlt⟩
  | refused cell hset hwhy => exact ⟨hfreed, hlt⟩
  | @processCell i cfx inCirc leg cell hset hleg =>
    have hlen := length_confluxProcessCell cfx leg cell
    have hsum := sum_map_set (·.oooQ.length) s.sets i (confluxProcessCell cfx leg cell).1 hset
    simp only [FreedEmpty, OooQueues.queuedCells, sizeofCell] at hok hlt ⊢
    refine ⟨hfreed, ?_⟩
    split_ifs at hlen <;> omega
  | dequeueNone hset hnone => exact ⟨hfreed, hlt⟩
  | @dequeueCell i cfx cfx' top hset hdeq =>
    have hlen := length_confluxDequeueCell hdeq
    have hsum := sum_map_set (·.oooQ.length) s.sets i cfx' hset
    simp only [OooQueues.queuedCells, sizeofCell] at hlt ⊢
    exact ⟨hfreed, by omega⟩
  | @other i cfx cfx' hset hq =>
    have hsum := sum_map_set (·.oooQ.length) s.sets i cfx' hset
    rw [hq] at hsum
    simp only [OooQueues.queuedCells, sizeofCell] at hlt ⊢
    exact ⟨hfreed, by omega⟩
  | @freeSet i cfx hset =>
    have hsum := sum_map_eraseIdx (·.oooQ.length) s.sets i hset
    have hempty : cfx.oooQ = [] := hok cfx hset
    simp only [OooQueues.queuedCells, sizeofCell] at hlt ⊢
    rw [hempty] at hsum ⊢
    exact ⟨by simpa using hfreed, by simp only [List.length_nil] at hsum; omega⟩

/-- A set with one leg, on which a SWITCH cell has told of four cells that went over other legs. -/
def switchedSet : Conflux Unit :=
  { confluxNew Unit (freshLink 7 0).nonce with
    legs := [{ lastSeqRecv := 4, lastSeqSent := 0, circRttsUsec := 1, linkedSentUsec := 1, circ := 0 }] }

theorem reached_newSet (ok : OooQueues Unit → QueueAction Unit → Prop)
    (h : ok ⟨[], 0, 0⟩ (.newSet (freshLink 7 0).nonce)) :
    Reached (queueSystem Unit) ok ⟨[confluxNew Unit (freshLink 7 0).nonce], 0, 0⟩ :=
  (Reached.init rfl).step h (QueueStep.newSet ⟨[], 0, 0⟩ _)

end Conflux
