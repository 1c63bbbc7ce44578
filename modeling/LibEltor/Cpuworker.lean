/-
The CREATE cells that are given to workers (`core/mainloop/cpuworker.c`).

A CREATE cell goes to a worker at once, or waits in a queue while there is too much to
do; whenever a worker has replied, the next ones are taken from the queues.  Meanwhile
the circuit can be marked, cancelled or freed.
-/
import LibEltor.OnionQueue

open OnionQueue Transition
open Onion (CreateCell)

namespace Cpuworker

/-! ### Jobs and circuits -/

/-- Where a job is: in the queue of the thread pool, with a worker, or in the queue of the
replies. -/
inductive Stage
  | pending
  | working
  | replied (success : Bool)
deriving DecidableEq

structure Job where
  circ : ℕ
  stage : Stage

/-- `dead` is `DEAD_CIRCUIT_MAGIC`: the circuit is left for the reply to free. -/
inductive Life
  | unused
  | live
  | dead
  | freed
deriving DecidableEq

/-- Jobs and circuits are numbers, in the order of their allocation.  `outstanding` has
the jobs in the thread pool. -/
structure State where
  queues : Queues
  totalPendingTasks : UInt32
  maxPendingTasks : UInt32
  nJobs : ℕ
  job : ℕ → Job
  outstanding : List ℕ
  allocated : ℕ
  life : ℕ → Life
  pChan : ℕ → Bool
  onionskinPending : ℕ → Bool
  workqueueEntry : ℕ → Option ℕ

def State.initial (maxPendingTasks : UInt32) : State where
  queues := .initial
  totalPendingTasks := 0
  maxPendingTasks := maxPendingTasks
  nJobs := 0
  job := fun _ => ⟨0, .pending⟩
  outstanding := []
  allocated := 0
  life := fun _ => .unused
  pChan := fun _ => false
  onionskinPending := fun _ => false
  workqueueEntry := fun _ => none

/-- What the time, the consensus and the measurements say when a cell is to be queued. -/
structure Clock where
  now : ℤ
  cutoff : ℤ
  delayed : Bool
  numNtorsPerTap : ℤ

/-- A job for the circuit `p` goes to the thread pool. -/
def submit (p : ℕ) (s : State) : State :=
  { s with
    totalPendingTasks := s.totalPendingTasks + 1
    nJobs := s.nJobs + 1
    job := Function.update s.job s.nJobs ⟨p, .pending⟩
    outstanding := s.outstanding ++ [s.nJobs]
    workqueueEntry := Function.update s.workqueueEntry p (some s.nJobs) }

def assignOnionskinToCpuworker (t : Clock) (p : ℕ) (onionskin : CreateCell) (s : State) :
    Option (Bool × State) :=
  if s.pChan p = false then some (false, s)
  else if s.totalPendingTasks ≥ s.maxPendingTasks then
    (onionPendingAdd t.now t.cutoff t.delayed p onionskin s.queues).map fun r =>
      (r.1, { s with queues := r.2 })
  else some (true, submit p s)

def queuePendingTasks (t : Clock) : ℕ → State → Option State
  | 0, s => some s
  | n + 1, s =>
    if s.totalPendingTasks < s.maxPendingTasks then
      match onionNextTask t.numNtorsPerTap s.queues with
      | (none, q) => some { s with queues := q }
      | (some (_, none), _) => none
      | (some (p, some onionskin), q) =>
        (assignOnionskinToCpuworker t p onionskin { s with queues := q }).bind fun r =>
          queuePendingTasks t n r.2
    else some s

def waiting (q : Queues) : ℕ :=
  (q.olList 0).length + (q.olList 1).length + (q.olList 2).length

def closeUnlessMarked (p : ℕ) (q : Queues) : Queues :=
  if q.markedForClose p then q else closeAsAnswer p q

/-- `onionskin_answer`: `sent` says whether the CREATED cell could be sent. -/
def onionskinAnswer (sent : Bool) (p : ℕ) (s : State) : State :=
  let s := { s with onionskinPending := Function.update s.onionskinPending p false }
  if sent then { s with queues := { s.queues with
    answers := Function.update s.queues.answers p (s.queues.answers p + 1) } }
  else { s with queues := closeUnlessMarked p s.queues }

/-- `cpuworker_onion_handshake_replyfn`, until the next tasks are queued. -/
def processReply (sent success : Bool) (j : ℕ) (s : State) : Option State :=
  if s.totalPendingTasks = 0 then none
  else
    let s := { s with
      totalPendingTasks := s.totalPendingTasks - 1
      outstanding := s.outstanding.erase j }
    let p := (s.job j).circ
    match s.life p with
    | .dead => some { s with life := Function.update s.life p .freed }
    | .live =>
      let s := { s with workqueueEntry := Function.update s.workqueueEntry p none }
      if s.queues.markedForClose p then some s
      else if success = false then some { s with queues := closeUnlessMarked p s.queues }
      else some (onionskinAnswer sent p s)
    | _ => none

def cpuworkerOnionHandshakeReplyfn (t : Clock) (sent success : Bool) (j : ℕ) (s : State) :
    Option State :=
  (processReply sent success j s).bind fun s => queuePendingTasks t (waiting s.queues + 1) s

def cpuworkerCancelCircHandshake (p : ℕ) (s : State) : Option State :=
  match s.workqueueEntry p with
  | none => some s
  | some j =>
    if (s.job j).stage = .pending then
      if s.totalPendingTasks = 0 then none
      else some { s with
        totalPendingTasks := s.totalPendingTasks - 1
        outstanding := s.outstanding.erase j
        workqueueEntry := Function.update s.workqueueEntry p none }
    else some s

def onionPendingRemove (p : ℕ) (s : State) : Option State :=
  cpuworkerCancelCircHandshake p { s with queues := removePending p s.queues }

/-- `circuit_about_to_free` and `circuit_free_`, as far as they are about handshakes. -/
def circuitFree (p : ℕ) (s : State) : Option State :=
  (if s.onionskinPending p then onionPendingRemove p s else some s).map fun s =>
    let after : Life := if (s.workqueueEntry p).isSome then .dead else .freed
    { s with life := Function.update s.life p after }

def processCreateCell (t : Clock) (onionskin : CreateCell) (s : State) : Option State :=
  let p := s.allocated
  (assignOnionskinToCpuworker t p onionskin { s with
    allocated := s.allocated + 1
    life := Function.update s.life p .live
    pChan := Function.update s.pChan p true
    onionskinPending := Function.update s.onionskinPending p true
    workqueueEntry := Function.update s.workqueueEntry p none }).map fun r =>
      if r.1 then r.2 else { r.2 with queues := closeUnlessMarked p r.2.queues }

def setStage (j : ℕ) (stage : Stage) (s : State) : State :=
  { s with job := Function.update s.job j { s.job j with stage := stage } }

/-! ### What is still to be answered -/

def waits (p : ℕ) (q : Queues) : ℕ := if (q.onionqueueEntry p).isSome then 1 else 0

/-- How often the CREATE cell of `p` has been answered, or waits in a queue. -/
def tokens (p : ℕ) (q : Queues) : ℕ := q.answers p + waits p q

theorem waits_le_tokens (p : ℕ) (q : Queues) : waits p q ≤ tokens p q := Nat.le_add_left ..

section
variable {q q' : Queues} {p e : ℕ} {i : UInt16}

theorem waits_removed (h : OnionQueue.Ok q) (he : e ∈ q.olList i) (p : ℕ) :
    waits p (removed e q) + (if p = (q.entry e).circ then 1 else 0) = waits p q := by
  have hentry : (removed e q).onionqueueEntry =
      Function.update q.onionqueueEntry (q.entry e).circ none := rfl
  rw [waits, waits, hentry]
  by_cases hp : p = (q.entry e).circ
  · subst hp
    rw [Function.update_self, h.knows he]
    simp
  · rw [Function.update_of_ne hp, if_neg hp, Nat.add_zero]

theorem tokens_closeAsAnswer (p p' : ℕ) (q : Queues) :
    tokens p (closeAsAnswer p' q) = tokens p q + (if p = p' then 1 else 0) := by
  rw [tokens, tokens, closeAsAnswer]
  by_cases hp : p = p'
  · subst hp
    simp only [Function.update_self, waits, if_true]
    omega
  · simp only [Function.update_of_ne hp, waits, if_neg hp]
    omega

theorem tokens_closeUnlessMarked_le (p p' : ℕ) (q : Queues) :
    tokens p (closeUnlessMarked p' q) ≤ tokens p q + (if p = p' then 1 else 0) ∧
      waits p (closeUnlessMarked p' q) = waits p q := by
  rw [closeUnlessMarked]
  split
  · exact ⟨Nat.le_add_right .., rfl⟩
  · exact ⟨Nat.le_of_eq (tokens_closeAsAnswer p p' q), rfl⟩

/-- Nobody has more to be answered in `q'` than in `q`, or waits there only. -/
def Fewer (q q' : Queues) : Prop := ∀ p, tokens p q' ≤ tokens p q ∧ waits p q' ≤ waits p q

theorem Fewer.refl (q : Queues) : Fewer q q := fun _ => ⟨Nat.le_refl _, Nat.le_refl _⟩

theorem Fewer.trans {q₁ q₂ q₃ : Queues} (h : Fewer q₁ q₂) (h' : Fewer q₂ q₃) : Fewer q₁ q₃ :=
  fun p => ⟨(h' p).1.trans (h p).1, (h' p).2.trans (h p).2⟩

theorem fewer_removed (h : OnionQueue.Ok q) (he : e ∈ q.olList i) : Fewer q (removed e q) := by
  intro p
  have hwaits := waits_removed h he p
  have hanswers : (removed e q).answers p = q.answers p := rfl
  rw [tokens, tokens, hanswers]
  constructor <;> omega

theorem fewer_removePending (h : OnionQueue.Ok q) (p : ℕ) :
    Fewer q (removePending p q) ∧ waits p (removePending p q) = 0 := by
  rw [removePending]
  rcases hp : q.onionqueueEntry p with _ | victim
  · refine ⟨Fewer.refl q, ?_⟩
    simp [waits, hp]
  · obtain ⟨hcirc, i, hi⟩ := h.of_entry hp
    simp only [h.onionQueueEntryRemove_eq hi]
    refine ⟨fewer_removed h hi, ?_⟩
    rw [waits, removed]
    simp [hcirc]

theorem fewer_cull (h : OnionQueue.Ok q) (he : e ∈ q.olList i) :
    Fewer q (closeUnlessMarked (q.entry e).circ (removed e q)) := by
  intro p
  obtain ⟨htokens, hwaits'⟩ := tokens_closeUnlessMarked_le p (q.entry e).circ (removed e q)
  have hwaits := waits_removed h he p
  have hremoved : tokens p (removed e q) = q.answers p + waits p (removed e q) := rfl
  have hbefore : tokens p q = q.answers p + waits p q := rfl
  constructor <;> omega

theorem fewer_cullElderly (now cutoff : ℤ) {n : ℕ} : ∀ {q q' : Queues}, OnionQueue.Ok q →
    cullElderly now cutoff i n q = some q' → Fewer q q' := by
  induction n with
  | zero =>
    intro q q' _ hq'
    exact absurd hq' (by simp [cullElderly])
  | succ n ih =>
    intro q q' h hq'
    rw [cullElderly] at hq'
    rcases hhead : (q.olList i).head? with _ | head
    · rw [hhead] at hq'
      exact absurd hq' (by simp)
    · have hmem : head ∈ q.olList i := List.mem_of_mem_head? hhead
      rw [hhead] at hq'
      simp only [h.cull_eq hmem] at hq'
      split at hq'
      · exact Option.some_inj.mp hq' ▸ Fewer.refl q
      · have hcull := fewer_cull h hmem
        rw [closeUnlessMarked] at hcull
        refine hcull.trans (ih ?_ hq')
        split
        · exact h.removed hmem
        · exact (h.removed hmem).closeAsAnswer _

theorem tokens_onionPendingAdd (h : OnionQueue.Ok q) (hp : q.onionqueueEntry p = none)
    {now cutoff : ℤ} {delayed : Bool} {onionskin : CreateCell} {b : Bool}
    (hadd : onionPendingAdd now cutoff delayed p onionskin q = some (b, q')) (p' : ℕ) :
    tokens p' q' ≤ tokens p' q + (if p' = p then 1 else 0) ∧
      waits p' q' ≤ waits p' q + (if p' = p then 1 else 0) ∧ (b = false → q' = q) := by
  have hsame : tokens p' q ≤ tokens p' q + (if p' = p then 1 else 0) ∧
      waits p' q ≤ waits p' q + (if p' = p then 1 else 0) ∧ (b = false → q = q) :=
    ⟨Nat.le_add_right .., Nat.le_add_right .., fun _ => rfl⟩
  simp only [onionPendingAdd] at hadd
  split_ifs at hadd
  · obtain ⟨-, rfl⟩ := Prod.mk.inj (Option.some_inj.mp hadd)
    exact hsame
  · obtain ⟨-, rfl⟩ := Prod.mk.inj (Option.some_inj.mp hadd)
    exact hsame
  · rw [Option.map_eq_some_iff] at hadd
    obtain ⟨q'', hcull, hq⟩ := hadd
    obtain ⟨rfl, rfl⟩ := Prod.mk.inj hq
    -- the culling answers what it takes out, so it adds nothing to the count
    have hfewer := fewer_cullElderly now cutoff (h.insertTail hp onionskin now) hcull p'
    have hwaits : waits p' (insertTail p onionskin now q) =
        waits p' q + (if p' = p then 1 else 0) := by
      rw [waits, waits, insertTail]
      by_cases hp' : p' = p
      · subst hp'
        simp [hp]
      · simp [hp']
    have hanswers : (insertTail p onionskin now q).answers p' = q.answers p' := rfl
    rw [tokens, tokens, hanswers, hwaits] at hfewer
    refine ⟨?_, hfewer.2, fun hb => absurd hb (by decide)⟩
    rw [tokens, tokens]
    omega

theorem tokens_onionNextTask (h : OnionQueue.Ok q) (k : ℤ) :
    (∃ q', onionNextTask k q = (none, q') ∧ Fewer q q') ∨
    ∃ p onionskin q', onionNextTask k q = (some (p, some onionskin), q') ∧ Fewer q q' ∧
      tokens p q' + 1 = tokens p q ∧ waits p q = 1 := by
  rcases h.onionNextTask_cases k with ⟨n, heq⟩ | ⟨i, e, n, he, heq⟩
  · exact .inl ⟨_, heq, Fewer.refl q⟩
  · right
    obtain ⟨-, -, hskin, -⟩ := h.mem he
    obtain ⟨onionskin, honionskin⟩ := Option.isSome_iff_exists.mp hskin
    rw [honionskin] at heq
    refine ⟨(q.entry e).circ, onionskin, _, heq, fewer_removed h he, ?_, ?_⟩
    · have hwaits := waits_removed h he (q.entry e).circ
      rw [if_pos rfl] at hwaits
      show q.answers _ + waits (q.entry e).circ (removed e q) + 1 = _
      rw [tokens]
      omega
    · rw [waits, h.knows he]
      rfl

end

/-! ### The invariant -/

/-- The number of jobs for the circuit `p` that have not come back. -/
def jobsOf (p : ℕ) (s : State) : ℕ := s.outstanding.countP fun j => (s.job j).circ = p

/-- The CREATE cell of a circuit has been answered, or waits in a queue, or is with a
worker, and not two of these; and the circuits that are spoken of are still there. -/
structure Ok (s : State) : Prop where
  queues : OnionQueue.Ok s.queues
  count : s.totalPendingTasks.toNat = s.outstanding.length
  le : s.totalPendingTasks ≤ s.maxPendingTasks
  nodup : s.outstanding.Nodup
  fresh : ∀ j ∈ s.outstanding, j < s.nJobs
  known : ∀ p, s.life p = .live → ∀ j, s.workqueueEntry p = some j ↔
    j ∈ s.outstanding ∧ (s.job j).circ = p
  once : ∀ p, tokens p s.queues + jobsOf p s ≤ 1
  unused : ∀ p, s.allocated ≤ p → s.life p = .unused ∧ tokens p s.queues + jobsOf p s = 0
  waiting : ∀ p, waits p s.queues = 1 → s.life p = .live ∧ s.onionskinPending p = true
  away : ∀ j ∈ s.outstanding,
    (s.life (s.job j).circ = .live ∧ s.onionskinPending (s.job j).circ = true) ∨
      s.life (s.job j).circ = .dead

theorem ok_initial (max : UInt32) : Ok (.initial max) where
  queues := OnionQueue.ok_initial
  count := rfl
  le := UInt32.zero_le
  nodup := List.nodup_nil
  fresh j hj := absurd hj List.not_mem_nil
  known p hp := absurd hp (by simp [State.initial])
  once p := Nat.zero_le 1
  unused p _ := ⟨rfl, rfl⟩
  waiting p hp := absurd hp (by simp [waits, State.initial, Queues.initial])
  away j hj := absurd hj List.not_mem_nil

section
variable {s s' : State} {p j : ℕ}

theorem jobsOf_pos (hj : j ∈ s.outstanding) : 0 < jobsOf (s.job j).circ s :=
  List.countP_pos_iff.mpr ⟨j, hj, by simp⟩

theorem notMem_of_jobsOf (h : jobsOf p s = 0) (hj : j ∈ s.outstanding) : (s.job j).circ ≠ p := by
  rintro rfl
  exact absurd (jobsOf_pos hj) (by omega)

theorem Ok.withQueues (h : Ok s) {q : Queues} (hq : OnionQueue.Ok q)
    (honce : ∀ p, tokens p q + jobsOf p s ≤ 1)
    (hunused : ∀ p, s.allocated ≤ p → tokens p q ≤ tokens p s.queues)
    (hwaiting : ∀ p, waits p q = 1 → s.life p = .live ∧ s.onionskinPending p = true) :
    Ok { s with queues := q } :=
  ⟨hq, h.count, h.le, h.nodup, h.fresh, h.known, honce, fun p hp => by
    obtain ⟨hlife, hzero⟩ := h.unused p hp
    have := hunused p hp
    exact ⟨hlife, show tokens p q + jobsOf p s = 0 by omega⟩, hwaiting, h.away⟩

theorem Ok.withFewer (h : Ok s) {q : Queues} (hq : OnionQueue.Ok q) (hfewer : Fewer s.queues q) :
    Ok { s with queues := q } := by
  refine h.withQueues hq (fun p => ?_) (fun p _ => (hfewer p).1) fun p hp => h.waiting p ?_
  · have := h.once p
    have := (hfewer p).1
    omega
  · have := (hfewer p).2
    have := h.once p
    have := waits_le_tokens p s.queues
    omega

theorem Ok.withOne (h : Ok s) {q : Queues} (hq : OnionQueue.Ok q)
    (hlive : s.life p = .live) (hnone : tokens p s.queues + jobsOf p s = 0)
    (hmore : ∀ p', tokens p' q ≤ tokens p' s.queues + (if p' = p then 1 else 0) ∧
      waits p' q ≤ waits p' s.queues + (if p' = p then 1 else 0))
    (hpending : waits p q = 1 → s.onionskinPending p = true) :
    Ok { s with queues := q } := by
  refine h.withQueues hq (fun p' => ?_) (fun p' hp' => ?_) fun p' hp' => ?_
  · have := h.once p'
    have := (hmore p').1
    split_ifs at this with heq
    · subst heq
      omega
    · omega
  · -- a number that is not in use is not that of a live circuit
    have hne : p' ≠ p := by
      rintro rfl
      rw [(h.unused p' hp').1] at hlive
      exact absurd hlive (by decide)
    have := (hmore p').1
    rw [if_neg hne] at this
    exact this
  · by_cases heq : p' = p
    · subst heq
      exact ⟨hlive, hpending hp'⟩
    · have hmore' := (hmore p').2
      rw [if_neg heq] at hmore'
      refine h.waiting p' ?_
      have := h.once p'
      have := waits_le_tokens p' s.queues
      omega

theorem Ok.submit (h : Ok s) (hlive : s.life p = .live) (hpending : s.onionskinPending p = true)
    (hnone : tokens p s.queues + jobsOf p s = 0)
    (hroom : ¬s.totalPendingTasks ≥ s.maxPendingTasks) : Ok (submit p s) := by
  have hlt : s.totalPendingTasks.toNat < s.maxPendingTasks.toNat :=
    UInt32.lt_iff_toNat_lt.mp (UInt32.not_le.mp hroom)
  have hmax := s.maxPendingTasks.toNat_lt
  have hadd : (s.totalPendingTasks + 1).toNat = s.totalPendingTasks.toNat + 1 := by
    rw [UInt32.toNat_add, UInt32.toNat_one, Nat.mod_eq_of_lt (by omega)]
  have hnotin : s.nJobs ∉ s.outstanding := fun hj => Nat.lt_irrefl _ (h.fresh _ hj)
  -- The jobs that have been given away before are as they were.
  have hold {j : ℕ} (hj : j ∈ s.outstanding) :
      Function.update s.job s.nJobs ⟨p, .pending⟩ j = s.job j :=
    Function.update_of_ne (ne_of_mem_of_not_mem hj hnotin) ..
  have hnew : Function.update s.job s.nJobs ⟨p, .pending⟩ s.nJobs = ⟨p, .pending⟩ :=
    Function.update_self ..
  have hjobs (p' : ℕ) : jobsOf p' (Cpuworker.submit p s) = jobsOf p' s + (if p' = p then 1 else 0) := by
    show (s.outstanding ++ [s.nJobs]).countP (fun j =>
      decide ((Function.update s.job s.nJobs ⟨p, .pending⟩ j).circ = p')) = _
    rw [List.countP_append, List.countP_singleton, hnew, jobsOf]
    congr 1
    · refine List.countP_congr fun j hj => ?_
      rw [hold hj]
    · by_cases heq : p' = p
      · simp [heq]
      · simp [heq, Ne.symm heq]
  have hmem {j : ℕ} (hj : j ∈ s.outstanding ++ [s.nJobs]) : j ∈ s.outstanding ∨ j = s.nJobs := by
    rw [List.mem_append, List.mem_singleton] at hj
    exact hj
  refine ⟨h.queues, ?_, ?_, ?_, ?_, ?_, ?_, ?_, h.waiting, ?_⟩
  · show (s.totalPendingTasks + 1).toNat = (s.outstanding ++ [s.nJobs]).length
    rw [hadd, h.count, List.length_append, List.length_singleton]
  · show s.totalPendingTasks + 1 ≤ s.maxPendingTasks
    rw [UInt32.le_iff_toNat_le, hadd]
    omega
  · refine List.nodup_append.mpr ⟨h.nodup, List.nodup_singleton _, ?_⟩
    intro j hj j' hj'
    rw [List.mem_singleton] at hj'
    exact hj' ▸ ne_of_mem_of_not_mem hj hnotin
  · intro j hj
    show j < s.nJobs + 1
    rcases hmem hj with hj | rfl
    · have := h.fresh j hj
      omega
    · omega
  · intro p' hp' j
    show Function.update s.workqueueEntry p (some s.nJobs) p' = some j ↔
      j ∈ s.outstanding ++ [s.nJobs] ∧ (Function.update s.job s.nJobs ⟨p, .pending⟩ j).circ = p'
    rw [List.mem_append, List.mem_singleton]
    by_cases heq : p' = p
    · subst heq
      rw [Function.update_self, Option.some_inj]
      constructor
      · rintro rfl
        exact ⟨.inr rfl, by rw [hnew]⟩
      · rintro ⟨hj | rfl, hcirc⟩
        · rw [hold hj] at hcirc
          exact absurd hcirc (notMem_of_jobsOf (by omega) hj)
        · rfl
    · rw [Function.update_of_ne heq, h.known p' hp']
      constructor
      · rintro ⟨hj, hcirc⟩
        exact ⟨.inl hj, by rwa [hold hj]⟩
      · rintro ⟨hj | rfl, hcirc⟩
        · rw [hold hj] at hcirc
          exact ⟨hj, hcirc⟩
        · rw [hnew] at hcirc
          exact absurd hcirc.symm heq
  · intro p'
    show tokens p' s.queues + jobsOf p' (Cpuworker.submit p s) ≤ 1
    rw [hjobs]
    have := h.once p'
    split_ifs with heq
    · subst heq
      omega
    · omega
  · intro p' hp'
    obtain ⟨hlife, hzero⟩ := h.unused p' hp'
    refine ⟨hlife, ?_⟩
    have hne : p' ≠ p := by
      rintro rfl
      rw [hlife] at hlive
      exact absurd hlive (by decide)
    show tokens p' s.queues + jobsOf p' (Cpuworker.submit p s) = 0
    rw [hjobs, if_neg hne]
    exact hzero
  · intro j hj
    show (s.life (Function.update s.job s.nJobs ⟨p, .pending⟩ j).circ = .live ∧
      s.onionskinPending (Function.update s.job s.nJobs ⟨p, .pending⟩ j).circ = true) ∨
        s.life (Function.update s.job s.nJobs ⟨p, .pending⟩ j).circ = .dead
    rcases hmem hj with hj | rfl
    · rw [hold hj]
      exact h.away j hj
    · rw [hnew]
      exact .inl ⟨hlive, hpending⟩

theorem Ok.assign (h : Ok s) (hlive : s.life p = .live) (hpending : s.onionskinPending p = true)
    (hnone : tokens p s.queues + jobsOf p s = 0) {t : Clock} {onionskin : CreateCell} {b : Bool}
    (hassign : assignOnionskinToCpuworker t p onionskin s = some (b, s')) :
    Ok s' ∧ (b = false → s' = s) := by
  rw [assignOnionskinToCpuworker] at hassign
  split_ifs at hassign with hchan hroom
  · obtain ⟨-, rfl⟩ := Prod.mk.inj (Option.some_inj.mp hassign)
    exact ⟨h, fun _ => rfl⟩
  · rw [Option.map_eq_some_iff] at hassign
    obtain ⟨⟨b', q⟩, hadd, heq⟩ := hassign
    obtain ⟨rfl, rfl⟩ := Prod.mk.inj heq
    have hentry : s.queues.onionqueueEntry p = none := by
      have hwaits : waits p s.queues = 0 := by
        have := waits_le_tokens p s.queues
        omega
      rw [waits] at hwaits
      split_ifs at hwaits with hsome
      exact Option.not_isSome_iff_eq_none.mp hsome
    have htokens := tokens_onionPendingAdd h.queues hentry hadd
    refine ⟨h.withOne (h.queues.onionPendingAdd hentry hadd) hlive hnone
      (fun p' => ⟨(htokens p').1, (htokens p').2.1⟩) fun _ => hpending, fun hb => ?_⟩
    rw [(htokens p).2.2 hb]
  · obtain ⟨rfl, rfl⟩ := Prod.mk.inj (Option.some_inj.mp hassign)
    exact ⟨h.submit hlive hpending hnone hroom, fun hb => absurd hb (by decide)⟩

theorem Ok.queuePendingTasks (t : Clock) {n : ℕ} : ∀ {s : State}, Ok s →
    ∃ s', queuePendingTasks t n s = some s' ∧ Ok s' := by
  induction n with
  | zero => exact fun {s} h => ⟨s, rfl, h⟩
  | succ n ih =>
    intro s h
    rw [Cpuworker.queuePendingTasks]
    split_ifs with hroom
    · rcases tokens_onionNextTask h.queues t.numNtorsPerTap with
        ⟨q, hnext, hfewer⟩ | ⟨p, onionskin, q, hnext, hfewer, htokens, hwaits⟩
      · rw [hnext]
        have hq := h.queues.onionNextTask t.numNtorsPerTap
        rw [hnext] at hq
        exact ⟨_, rfl, h.withFewer hq hfewer⟩
      · -- the circuit has waited, so its cell is in no other place
        have hq := h.queues.onionNextTask t.numNtorsPerTap
        rw [hnext] at hq
        have h₁ : Ok { s with queues := q } := h.withFewer hq hfewer
        have hnone : tokens p q + jobsOf p s = 0 := by
          have := h.once p
          omega
        obtain ⟨hlive, hpending⟩ := h.waiting p hwaits
        rw [hnext]
        simp only
        have hassign : ∃ b s', assignOnionskinToCpuworker t p onionskin { s with queues := q } =
            some (b, s') := by
          rw [assignOnionskinToCpuworker]
          split_ifs with hchan hfull
          · exact ⟨_, _, rfl⟩
          · -- there was room when the cell was taken, and nothing has been assigned since
            exact absurd hroom (UInt32.not_lt.mpr hfull)
          · exact ⟨_, _, rfl⟩
        obtain ⟨b, s₁, hassign⟩ := hassign
        rw [hassign]
        exact ih (h₁.assign hlive hpending hnone hassign).1
    · exact ⟨s, rfl, h⟩

/-! ### Jobs that come back -/

/-- What is left when the job `j` has come back or has been cancelled. -/
def returned (j : ℕ) (s : State) : State :=
  { s with
    totalPendingTasks := s.totalPendingTasks - 1
    outstanding := s.outstanding.erase j
    workqueueEntry := Function.update s.workqueueEntry (s.job j).circ none }

theorem Ok.totalPendingTasks_ne_zero (h : Ok s) (hj : j ∈ s.outstanding) :
    s.totalPendingTasks ≠ 0 := by
  rw [ne_eq, ← UInt32.toNat_inj, h.count, UInt32.toNat_zero]
  have := List.length_pos_of_mem hj
  omega

theorem jobsOf_erase (hj : j ∈ s.outstanding) (p : ℕ) :
    (s.outstanding.erase j).countP (fun j => decide ((s.job j).circ = p)) +
      (if p = (s.job j).circ then 1 else 0) = jobsOf p s := by
  rw [jobsOf, (List.perm_cons_erase hj).countP_eq, List.countP_cons]
  congr 1
  simp [eq_comm]

theorem Ok.pred_count (h : Ok s) (hj : j ∈ s.outstanding) :
    (s.totalPendingTasks - 1).toNat = (s.outstanding.erase j).length ∧
      s.totalPendingTasks - 1 ≤ s.maxPendingTasks := by
  have hpos := List.length_pos_of_mem hj
  have hsub : (s.totalPendingTasks - 1).toNat = s.totalPendingTasks.toNat - 1 := by
    rw [UInt32.toNat_sub_of_le]
    · rfl
    · rw [UInt32.le_iff_toNat_le, h.count]
      exact hpos
  have hle := UInt32.le_iff_toNat_le.mp h.le
  refine ⟨by rw [hsub, h.count, List.length_erase_of_mem hj], ?_⟩
  rw [UInt32.le_iff_toNat_le, hsub]
  omega

theorem Ok.returned (h : Ok s) (hj : j ∈ s.outstanding) (hlive : s.life (s.job j).circ = .live) :
    Ok (returned j s) ∧ tokens (s.job j).circ s.queues + jobsOf (s.job j).circ (returned j s) = 0 := by
  have hjobs (p : ℕ) : jobsOf p (Cpuworker.returned j s) + (if p = (s.job j).circ then 1 else 0) =
      jobsOf p s := jobsOf_erase hj p
  have hself := hjobs (s.job j).circ
  rw [if_pos rfl] at hself
  have honce := h.once (s.job j).circ
  -- the job was the one place of the cell
  have hnone : tokens (s.job j).circ s.queues + jobsOf (s.job j).circ (Cpuworker.returned j s) = 0 := by
    omega
  refine ⟨⟨h.queues, (h.pred_count hj).1, (h.pred_count hj).2, h.nodup.erase j, ?_, ?_, ?_, ?_,
    h.waiting, ?_⟩, hnone⟩
  · exact fun j' hj' => h.fresh j' (List.mem_of_mem_erase hj')
  · -- the circuit forgets its job, and it had no other
    intro p hp j'
    show Function.update s.workqueueEntry (s.job j).circ none p = some j' ↔
      j' ∈ s.outstanding.erase j ∧ (s.job j').circ = p
    by_cases heq : p = (s.job j).circ
    · subst heq
      rw [Function.update_self]
      refine iff_of_false (by simp) ?_
      rintro ⟨hj', hcirc⟩
      exact notMem_of_jobsOf (s := Cpuworker.returned j s) (by omega) hj' hcirc
    · rw [Function.update_of_ne heq, h.known p hp, h.nodup.mem_erase_iff]
      constructor
      · rintro ⟨hj', hcirc⟩
        refine ⟨⟨?_, hj'⟩, hcirc⟩
        rintro rfl
        exact heq hcirc.symm
      · rintro ⟨⟨-, hj'⟩, hcirc⟩
        exact ⟨hj', hcirc⟩
  · intro p
    show tokens p s.queues + jobsOf p (Cpuworker.returned j s) ≤ 1
    have := h.once p
    have := hjobs p
    omega
  · intro p hp
    obtain ⟨hlife, hzero⟩ := h.unused p hp
    refine ⟨hlife, ?_⟩
    show tokens p s.queues + jobsOf p (Cpuworker.returned j s) = 0
    have := hjobs p
    omega
  · exact fun j' hj' => h.away j' (List.mem_of_mem_erase hj')

theorem Ok.closeUnlessMarked (h : Ok s) (hlive : s.life p = .live)
    (hnone : tokens p s.queues + jobsOf p s = 0) :
    Ok { s with queues := closeUnlessMarked p s.queues } := by
  have hmore (p' : ℕ) := tokens_closeUnlessMarked_le p' p s.queues
  refine h.withOne ?_ hlive hnone (fun p' => ⟨(hmore p').1, ?_⟩) fun hwaits => ?_
  · rw [Cpuworker.closeUnlessMarked]
    split
    · exact h.queues
    · exact h.queues.closeAsAnswer p
  · rw [(hmore p').2]
    exact Nat.le_add_right ..
  · rw [(hmore p).2] at hwaits
    exact (h.waiting p hwaits).2

theorem Ok.notPending (h : Ok s) (hnone : tokens p s.queues + jobsOf p s = 0) :
    Ok { s with onionskinPending := Function.update s.onionskinPending p false } := by
  refine ⟨h.queues, h.count, h.le, h.nodup, h.fresh, h.known, h.once, h.unused, ?_, ?_⟩
  · intro p' hp'
    have hne : p' ≠ p := by
      rintro rfl
      have := waits_le_tokens p' s.queues
      have : waits p' s.queues = 1 := hp'
      omega
    obtain ⟨hlive, hpending⟩ := h.waiting p' hp'
    exact ⟨hlive, (Function.update_of_ne hne ..).trans hpending⟩
  · intro j hj
    have hne := notMem_of_jobsOf (s := s) (p := p) (by omega) hj
    rcases h.away j hj with ⟨hlive, hpending⟩ | hdead
    · exact .inl ⟨hlive, (Function.update_of_ne hne ..).trans hpending⟩
    · exact .inr hdead

theorem Ok.onionskinAnswer (h : Ok s) (hlive : s.life p = .live)
    (hnone : tokens p s.queues + jobsOf p s = 0) (sent : Bool) : Ok (onionskinAnswer sent p s) := by
  have h₁ := h.notPending hnone
  rw [Cpuworker.onionskinAnswer]
  cases sent with
  | false => exact h₁.closeUnlessMarked hlive hnone
  | true =>
    refine h₁.withOne (h.queues.congr (fun _ _ _ => rfl) _ _ _) hlive hnone (fun p' => ⟨?_, ?_⟩)
      fun hwaits => ?_
    · show Function.update s.queues.answers p (s.queues.answers p + 1) p' + waits p' s.queues ≤
        s.queues.answers p' + waits p' s.queues + _
      by_cases heq : p' = p
      · subst heq
        rw [Function.update_self, if_pos rfl]
        omega
      · rw [Function.update_of_ne heq]
        omega
    · exact Nat.le_add_right ..
    · have := waits_le_tokens p s.queues
      have : waits p s.queues = 1 := hwaits
      omega

theorem Ok.processReply (h : Ok s) (hj : j ∈ s.outstanding) (sent success : Bool) :
    ∃ s', processReply sent success j s = some s' ∧ Ok s' := by
  rw [Cpuworker.processReply, if_neg (h.totalPendingTasks_ne_zero hj)]
  rcases h.away j hj with ⟨hlive, -⟩ | hdead
  · obtain ⟨h₁, hnone⟩ := h.returned hj hlive
    simp only [hlive]
    split
    · exact ⟨_, rfl, h₁⟩
    · split
      · exact ⟨_, rfl, h₁.closeUnlessMarked hlive hnone⟩
      · exact ⟨_, rfl, h₁.onionskinAnswer hlive hnone sent⟩
  · simp only [hdead]
    refine ⟨_, rfl, ?_⟩
    have hjobs (p : ℕ) := jobsOf_erase hj p
    have hself := hjobs (s.job j).circ
    rw [if_pos rfl] at hself
    have honce := h.once (s.job j).circ
    -- The circuit that is freed has no other job, and waits nowhere.
    have hother {j' : ℕ} (hj' : j' ∈ s.outstanding.erase j) : (s.job j').circ ≠ (s.job j).circ :=
      notMem_of_jobsOf (s := { s with outstanding := s.outstanding.erase j })
        (show (s.outstanding.erase j).countP
          (fun j' => decide ((s.job j').circ = (s.job j).circ)) = 0 by omega) hj'
    refine ⟨h.queues, (h.pred_count hj).1, (h.pred_count hj).2, h.nodup.erase j,
      fun j' hj' => h.fresh j' (List.mem_of_mem_erase hj'), ?_, fun p => ?_, fun p hp => ?_,
      fun p hp => ?_, fun j' hj' => ?_⟩
    · intro p hp j'
      have hne : p ≠ (s.job j).circ := by
        rintro rfl
        exact absurd ((Function.update_self ..).symm.trans hp) (by decide)
      have hlive : s.life p = .live := (Function.update_of_ne hne ..).symm.trans hp
      refine (h.known p hlive j').trans (and_congr_left fun hcirc => ?_)
      rw [h.nodup.mem_erase_iff]
      refine ⟨fun hj' => ⟨?_, hj'⟩, fun hj' => hj'.2⟩
      rintro rfl
      exact hne hcirc.symm
    · have := h.once p
      have := hjobs p
      show tokens p s.queues +
        (s.outstanding.erase j).countP (fun j' => decide ((s.job j').circ = p)) ≤ 1
      omega
    · obtain ⟨hlife, hzero⟩ := h.unused p hp
      have := hjobs p
      have hne : p ≠ (s.job j).circ := by
        rintro rfl
        omega
      refine ⟨(Function.update_of_ne hne ..).trans hlife, ?_⟩
      show tokens p s.queues +
        (s.outstanding.erase j).countP (fun j' => decide ((s.job j').circ = p)) = 0
      omega
    · have hne : p ≠ (s.job j).circ := by
        rintro rfl
        have := waits_le_tokens (s.job j).circ s.queues
        have : waits (s.job j).circ s.queues = 1 := hp
        omega
      obtain ⟨hlive, hpending⟩ := h.waiting p hp
      exact ⟨(Function.update_of_ne hne ..).trans hlive, hpending⟩
    · rcases h.away j' (List.mem_of_mem_erase hj') with ⟨hlive, hpending⟩ | hdead'
      · exact .inl ⟨(Function.update_of_ne (hother hj') ..).trans hlive, hpending⟩
      · exact .inr ((Function.update_of_ne (hother hj') ..).trans hdead')

theorem Ok.replyfn (h : Ok s) (hj : j ∈ s.outstanding) (t : Clock) (sent success : Bool) :
    ∃ s', cpuworkerOnionHandshakeReplyfn t sent success j s = some s' ∧ Ok s' := by
  obtain ⟨s₁, hprocess, h₁⟩ := h.processReply hj sent success
  rw [cpuworkerOnionHandshakeReplyfn, hprocess]
  exact h₁.queuePendingTasks t

theorem Ok.cancel (h : Ok s) (hlive : s.life p = .live) :
    ∃ s', cpuworkerCancelCircHandshake p s = some s' ∧ Ok s' ∧ s'.queues = s.queues ∧
      s'.life = s.life := by
  rw [cpuworkerCancelCircHandshake]
  rcases hentry : s.workqueueEntry p with _ | j
  · exact ⟨s, rfl, h, rfl, rfl⟩
  · obtain ⟨hj, rfl⟩ := (h.known p hlive j).mp hentry
    simp only
    split
    · rw [if_neg (h.totalPendingTasks_ne_zero hj)]
      exact ⟨_, rfl, (h.returned hj hlive).1, rfl, rfl⟩
    · exact ⟨s, rfl, h, rfl, rfl⟩

theorem Ok.onionPendingRemove (h : Ok s) (hlive : s.life p = .live) :
    ∃ s', onionPendingRemove p s = some s' ∧ Ok s' ∧ waits p s'.queues = 0 ∧
      s'.life = s.life := by
  obtain ⟨hfewer, hwaits⟩ := fewer_removePending h.queues p
  have h₁ : Ok { s with queues := removePending p s.queues } :=
    h.withFewer (h.queues.removePending p) hfewer
  obtain ⟨s', hcancel, h', hqueues, hlife⟩ := h₁.cancel hlive
  exact ⟨s', hcancel, h', by rw [hqueues]; exact hwaits, hlife⟩

theorem Ok.free (h : Ok s) (hlive : s.life p = .live) (hwaits : waits p s.queues = 0)
    {after : Life} (hafter : after = if (s.workqueueEntry p).isSome then .dead else .freed) :
    Ok { s with life := Function.update s.life p after } := by
  -- freed or only dead, the circuit is no longer live
  have hgone : after ≠ .live := by
    rw [hafter]
    split <;> decide
  refine ⟨h.queues, h.count, h.le, h.nodup, h.fresh, fun p' hp' => ?_, h.once, fun p' hp' => ?_,
    fun p' hp' => ?_, fun j hj => ?_⟩
  · have hne : p' ≠ p := by
      rintro rfl
      exact hgone ((Function.update_self ..).symm.trans hp')
    exact h.known p' ((Function.update_of_ne hne ..).symm.trans hp')
  · obtain ⟨hlife, hzero⟩ := h.unused p' hp'
    have hne : p' ≠ p := by
      rintro rfl
      exact absurd (hlife.symm.trans hlive) (by decide)
    exact ⟨(Function.update_of_ne hne ..).trans hlife, hzero⟩
  · have hne : p' ≠ p := by
      rintro rfl
      have : waits p' s.queues = 1 := hp'
      omega
    obtain ⟨hlive', hpending⟩ := h.waiting p' hp'
    exact ⟨(Function.update_of_ne hne ..).trans hlive', hpending⟩
  · show (Function.update s.life p _ (s.job j).circ = .live ∧ _) ∨
      Function.update s.life p _ (s.job j).circ = .dead
    by_cases heq : (s.job j).circ = p
    · -- a circuit with a job outstanding is kept until the reply
      have hentry := (h.known p hlive j).mpr ⟨hj, heq⟩
      right
      rw [heq, Function.update_self, hafter, hentry]
      rfl
    · rw [Function.update_of_ne heq]
      exact h.away j hj

theorem Ok.circuitFree (h : Ok s) (hlive : s.life p = .live) :
    ∃ s', circuitFree p s = some s' ∧ Ok s' := by
  rw [Cpuworker.circuitFree]
  by_cases hpending : s.onionskinPending p = true
  · obtain ⟨s₁, hremove, h₁, hwaits, hlife⟩ := h.onionPendingRemove hlive
    rw [if_pos hpending, hremove]
    exact ⟨_, rfl, h₁.free (by rw [hlife]; exact hlive) hwaits rfl⟩
  · have hwaits : waits p s.queues = 0 := by
      have := h.once p
      have := waits_le_tokens p s.queues
      by_contra hne
      exact hpending (h.waiting p (by omega)).2
    rw [if_neg hpending]
    exact ⟨_, rfl, h.free hlive hwaits rfl⟩

def created (s : State) : State :=
  { s with
    allocated := s.allocated + 1
    life := Function.update s.life s.allocated .live
    pChan := Function.update s.pChan s.allocated true
    onionskinPending := Function.update s.onionskinPending s.allocated true
    workqueueEntry := Function.update s.workqueueEntry s.allocated none }

theorem Ok.created (h : Ok s) :
    Ok (created s) ∧ tokens s.allocated s.queues + jobsOf s.allocated s = 0 := by
  -- the number has not been used, so nothing is queued or outstanding for it
  obtain ⟨hlife, hnone⟩ := h.unused s.allocated (Nat.le_refl _)
  refine ⟨⟨h.queues, h.count, h.le, h.nodup, h.fresh, fun p hp j => ?_, h.once, fun p hp => ?_,
    fun p hp => ?_, fun j hj => ?_⟩, hnone⟩
  · show Function.update s.workqueueEntry s.allocated none p = some j ↔ _
    by_cases heq : p = s.allocated
    · subst heq
      rw [Function.update_self]
      refine iff_of_false (by simp) ?_
      rintro ⟨hj, hcirc⟩
      exact notMem_of_jobsOf (s := s) (by omega) hj hcirc
    · rw [Function.update_of_ne heq]
      exact h.known p ((Function.update_of_ne heq ..).symm.trans hp) j
  · have hp' : s.allocated + 1 ≤ p := hp
    obtain ⟨hlife', hzero⟩ := h.unused p (by omega)
    have hne : p ≠ s.allocated := by omega
    exact ⟨(Function.update_of_ne hne ..).trans hlife', hzero⟩
  · obtain ⟨hlive, hpending⟩ := h.waiting p hp
    have hne : p ≠ s.allocated := by
      rintro rfl
      exact absurd (hlife.symm.trans hlive) (by decide)
    exact ⟨(Function.update_of_ne hne ..).trans hlive, (Function.update_of_ne hne ..).trans hpending⟩
  · have hne := notMem_of_jobsOf (s := s) (p := s.allocated) (by omega) hj
    rcases h.away j hj with ⟨hlive, hpending⟩ | hdead
    · exact .inl ⟨(Function.update_of_ne hne ..).trans hlive,
        (Function.update_of_ne hne ..).trans hpending⟩
    · exact .inr ((Function.update_of_ne hne ..).trans hdead)

theorem Ok.processCreateCell (h : Ok s) {t : Clock} {onionskin : CreateCell}
    (hcreate : processCreateCell t onionskin s = some s') : Ok s' := by
  obtain ⟨h₁, hnone⟩ := h.created
  have hlive : (Cpuworker.created s).life s.allocated = .live := Function.update_self ..
  simp only [Cpuworker.processCreateCell, Option.map_eq_some_iff] at hcreate
  obtain ⟨⟨b, s₁⟩, hassign, rfl⟩ := hcreate
  obtain ⟨hok, hfailed⟩ := h₁.assign hlive (Function.update_self ..) hnone hassign
  cases b with
  | true => exact hok
  | false =>
    rw [hfailed rfl]
    exact h₁.closeUnlessMarked hlive hnone

/-! ### Runs -/

inductive Op
  | createCell (t : Clock) (onionskin : CreateCell)
  | begin (j : ℕ)
  | finish (j : ℕ) (success : Bool)
  | reply (t : Clock) (sent : Bool) (j : ℕ)
  | onionPendingRemove (p : ℕ)
  | circuitMarkForClose (p : ℕ)
  | dropChannel (p : ℕ)
  | circuitFree (p : ℕ)

/-- The circuits, the queues and the thread pool.  A worker begins with a job that nobody
has cancelled, and its reply comes when it has finished. -/
def cpuworker (max : UInt32) : System State Op where
  init s := s = .initial max
  step s op s' := match op with
    | .createCell t onionskin => processCreateCell t onionskin s = some s'
    | .begin j => j ∈ s.outstanding ∧ (s.job j).stage = .pending ∧ s' = setStage j .working s
    | .finish j success =>
      j ∈ s.outstanding ∧ (s.job j).stage = .working ∧ s' = setStage j (.replied success) s
    | .reply t sent j => ∃ success, j ∈ s.outstanding ∧ (s.job j).stage = .replied success ∧
        cpuworkerOnionHandshakeReplyfn t sent success j s = some s'
    | .onionPendingRemove p => s.life p = .live ∧ onionPendingRemove p s = some s'
    | .circuitMarkForClose p => s.life p = .live ∧ s' = { s with queues := { s.queues with
        markedForClose := Function.update s.queues.markedForClose p true } }
    | .dropChannel p => s.life p = .live ∧ s' = { s with
        pChan := Function.update s.pChan p false
        queues := { s.queues with
          markedForClose := Function.update s.queues.markedForClose p true } }
    | .circuitFree p => s.life p = .live ∧ s.queues.markedForClose p = true ∧
        circuitFree p s = some s'

theorem Ok.setStage (h : Ok s) (j : ℕ) (stage : Stage) : Ok (setStage j stage s) := by
  have hcirc (j' : ℕ) : ((Cpuworker.setStage j stage s).job j').circ = (s.job j').circ := by
    rw [Cpuworker.setStage]
    by_cases heq : j' = j
    · subst heq
      simp
    · simp [heq]
  have hjobs (p : ℕ) : jobsOf p (Cpuworker.setStage j stage s) = jobsOf p s := by
    rw [jobsOf]
    simp only [hcirc]
    rfl
  refine ⟨h.queues, h.count, h.le, h.nodup, h.fresh, ?_, ?_, ?_, h.waiting, ?_⟩
  · simp only [hcirc]
    exact h.known
  · simp only [hjobs]
    exact h.once
  · simp only [hjobs]
    exact h.unused
  · simp only [hcirc]
    exact h.away

theorem ok_inductive (max : UInt32) : Inductive (cpuworker max) (fun _ _ => True) Ok where
  init s hs := hs ▸ ok_initial max
  step s op s' h _ hstep := by
    cases op with
    | createCell t onionskin => exact h.processCreateCell hstep
    | begin j =>
      obtain ⟨-, -, rfl⟩ := hstep
      exact h.setStage j .working
    | finish j success =>
      obtain ⟨-, -, rfl⟩ := hstep
      exact h.setStage j (.replied success)
    | reply t sent j =>
      obtain ⟨success, hj, -, hreply⟩ := hstep
      obtain ⟨s₁, hreply', h₁⟩ := h.replyfn hj t sent success
      -- the reply goes through, and it is the one of the run
      exact Option.some_inj.mp (hreply'.symm.trans hreply) ▸ h₁
    | onionPendingRemove p =>
      obtain ⟨hlive, hremove⟩ := hstep
      obtain ⟨s₁, hremove', h₁, -, -⟩ := h.onionPendingRemove hlive
      exact Option.some_inj.mp (hremove'.symm.trans hremove) ▸ h₁
    | circuitMarkForClose p =>
      obtain ⟨-, rfl⟩ := hstep
      exact h.withFewer (h.queues.congr (fun _ _ _ => rfl) _ _ _) (Fewer.refl s.queues)
    | dropChannel p =>
      obtain ⟨-, rfl⟩ := hstep
      have h₁ := h.withFewer (h.queues.congr (fun _ _ _ => rfl) s.queues.recentlyChosenNtors
        (Function.update s.queues.markedForClose p true) s.queues.answers) (Fewer.refl s.queues)
      exact ⟨h₁.queues, h₁.count, h₁.le, h₁.nodup, h₁.fresh, h₁.known, h₁.once, h₁.unused,
        h₁.waiting, h₁.away⟩
    | circuitFree p =>
      obtain ⟨hlive, -, hfree⟩ := hstep
      obtain ⟨s₁, hfree', h₁⟩ := h.circuitFree hlive
      exact Option.some_inj.mp (hfree'.symm.trans hfree) ▸ h₁

end

def sampleTasks : State := submit 0 (created (.initial 1))

end Cpuworker
