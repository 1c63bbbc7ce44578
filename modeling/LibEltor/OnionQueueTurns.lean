/-
The turns of TAP and ntor handshakes (`feature/relay/onion_queue.c`).

While CREATE cells of both kinds wait, `decide_next_handshake_type` serves `num_ntors_per_tap`
ntor handshakes and then a TAP one.  The counter it keeps also runs while only ntor handshakes
wait, so what it holds when a run begins may be anything but negative.
-/
import LibEltor.OnionQueue
import Mathlib

open Transition
open Onion (CreateCell onionHandshakeTypeTap onionHandshakeTypeNtor)

namespace OnionQueue

variable {q q' : Queues} {k : ℤ} {i : UInt16} {e : ℕ}

theorem Ok.onionPendingAdd_spec (h : Ok q) {now cutoff : ℤ} {delayed : Bool} {p : ℕ}
    {onionskin : CreateCell} (hp : q.onionqueueEntry p = none) {b : Bool}
    (hadd : OnionQueue.onionPendingAdd now cutoff delayed p onionskin q = some (b, q')) :
    ∃ old new, q.olList (onionskinTypeToQueue onionskin.handshakeType) ++ new =
        old ++ q'.olList (onionskinTypeToQueue onionskin.handshakeType) ∧
      (∀ e ∈ old, e ∈ q.olList (onionskinTypeToQueue onionskin.handshakeType) →
        cutoff ≤ now - (q.entry e).whenAdded) ∧
      (∀ e ∈ new, e = q.allocated ∧ (q'.entry e).whenAdded = now) ∧
      (∀ j, j ≠ onionskinTypeToQueue onionskin.handshakeType → q'.olList j = q.olList j) ∧
      (∀ j, ∀ e ∈ q.olList j, q'.entry e = q.entry e) ∧
      q'.recentlyChosenNtors = q.recentlyChosenNtors ∧ q.allocated ≤ q'.allocated := by
  by_cases hr : Refused delayed onionskin q
  · rw [onionPendingAdd_of_refused hr] at hadd
    obtain ⟨-, rfl⟩ := Prod.mk.inj (Option.some_inj.mp hadd)
    exact ⟨[], [], by simp, by simp, by simp, fun _ _ => rfl, fun _ _ _ => rfl, rfl, le_rfl⟩
  · rw [onionPendingAdd_of_not_refused hr] at hadd
    obtain ⟨mid, hcull, heq⟩ := Option.map_eq_some_iff.mp hadd
    obtain ⟨-, rfl⟩ := Prod.mk.inj heq
    obtain ⟨old, hold, hage, hpopped⟩ := (h.insertTail hp onionskin now).cullElderly_spec hcull
    rw [olList_insertTail] at hold
    refine ⟨old, [q.allocated], hold, fun e he hmem => ?_, fun e he => ?_, fun j hj => ?_,
      fun j e he => ?_, hpopped.recently, ?_⟩
    · rw [← h.entry_insertTail p onionskin now hmem]
      exact hage e he
    · obtain rfl := List.mem_singleton.mp he
      exact ⟨rfl, by rw [hpopped.entry, whenAdded_insertTail]⟩
    · rw [hpopped.others j hj]
      exact Function.update_of_ne hj ..
    · rw [hpopped.entry, h.entry_insertTail p onionskin now he]
    · rw [hpopped.allocated]
      exact Nat.le_succ _

def Busy (q : Queues) : Prop :=
  q.olList onionHandshakeTypeTap ≠ [] ∧ q.olList onionHandshakeTypeNtor ≠ []

def turn (k : ℤ) (q : Queues) : UInt16 := (decideNextHandshakeType k q).1

theorem Ok.decide_busy (h : Ok q) (hbusy : Busy q) (k : ℤ) :
    decideNextHandshakeType k q = if q.recentlyChosenNtors + 1 ≤ k then
      (onionHandshakeTypeNtor, { q with recentlyChosenNtors := q.recentlyChosenNtors + 1 })
      else (onionHandshakeTypeTap, { q with recentlyChosenNtors := 0 }) := by
  have htap := List.length_pos_iff.mpr hbusy.1
  have hntor := List.length_pos_iff.mpr hbusy.2
  rw [decideNextHandshakeType, if_neg, if_neg]
  · rw [h.count _ (by decide)]
    omega
  · rw [h.count _ (by decide)]
    omega

def counted (k : ℤ) (q : Queues) : ℤ :=
  if q.recentlyChosenNtors + 1 ≤ k then q.recentlyChosenNtors + 1 else 0

theorem Ok.turn_busy (h : Ok q) (hbusy : Busy q) (k : ℤ) :
    turn k q = if q.recentlyChosenNtors + 1 ≤ k then onionHandshakeTypeNtor
      else onionHandshakeTypeTap := by
  rw [turn, h.decide_busy hbusy]
  split_ifs <;> rfl

theorem Ok.onionNextTask_busy (h : Ok q) (hbusy : Busy q) {rest : List ℕ}
    (hlist : q.olList (turn k q) = e :: rest) :
    (OnionQueue.onionNextTask k q).2.olList (turn k q) = rest ∧
    (∀ j, j ≠ turn k q → (OnionQueue.onionNextTask k q).2.olList j = q.olList j) ∧
    (∀ e', ((OnionQueue.onionNextTask k q).2.entry e').whenAdded = (q.entry e').whenAdded) ∧
    (OnionQueue.onionNextTask k q).2.recentlyChosenNtors = counted k q ∧
    (OnionQueue.onionNextTask k q).2.allocated = q.allocated := by
  have he : e ∈ q.olList (turn k q) := by
    rw [hlist]
    exact List.mem_cons_self
  obtain ⟨hi, hle, hskin, -⟩ := h.mem he
  have hle' : ¬turn k q > maxQueueIdx := UInt16.not_lt.mpr hle
  have hdecide : decideNextHandshakeType k q =
      (turn k q, { q with recentlyChosenNtors := counted k q }) := by
    rw [h.turn_busy hbusy, h.decide_busy hbusy, counted]
    split_ifs <;> rfl
  have htask : (OnionQueue.onionNextTask k q).2 = { OnionQueue.removed e q with
      entry := Function.update q.entry e { q.entry e with onionskin := none }
      recentlyChosenNtors := counted k q } := by
    simp only [OnionQueue.onionNextTask, hdecide, hlist, List.head?_cons, onionQueueEntryRemove,
      Function.update_self, hi, if_neg hle', hskin, if_true, OnionQueue.removed,
      Function.update_idem]
    rfl
  rw [htask]
  have hpopped := h.popped hlist
  refine ⟨hpopped.rest, hpopped.others, fun e' => ?_, rfl, rfl⟩
  by_cases heq : e' = e
  · subst heq
    simp
  · simp [Function.update_of_ne heq]

/-! ### Runs -/

def tooOld (now cutoff : ℤ) (i : UInt16) (q : Queues) : Set ℕ :=
  {e | e ∈ q.olList i ∧ cutoff ≤ now - (q.entry e).whenAdded}

/-- A run of additions and picks from `q` to `q'`, in all of which both kinds wait: the picks, with
their kinds, and the entries that additions found too old. -/
inductive Turns (k : ℤ) : Queues → List (UInt16 × ℕ) → Set ℕ → Queues → Prop
  | done {q : Queues} (hbusy : Busy q) : Turns k q [] ∅ q
  | add {q mid q' : Queues} {now cutoff : ℤ} {delayed : Bool} {circ : ℕ} {onionskin : CreateCell}
      {b : Bool} {picks : List (UInt16 × ℕ)} {old : Set ℕ} (hbusy : Busy q)
      (hcirc : q.onionqueueEntry circ = none)
      (hadd : onionPendingAdd now cutoff delayed circ onionskin q = some (b, mid))
      (hrest : Turns k mid picks old q') :
      Turns k q picks
        (tooOld now cutoff (onionskinTypeToQueue onionskin.handshakeType) q ∪ old) q'
  | pick {q q' : Queues} {e : ℕ} {rest : List ℕ} {picks : List (UInt16 × ℕ)} {old : Set ℕ}
      (hbusy : Busy q) (hlist : q.olList (turn k q) = e :: rest)
      (hrest : Turns k (onionNextTask k q).2 picks old q') :
      Turns k q ((turn k q, e) :: picks) old q'

structure Ready (q : Queues) : Prop where
  ok : Ok q
  nonneg : 0 ≤ q.recentlyChosenNtors

theorem Ready.add (h : Ready q) {now cutoff : ℤ} {delayed : Bool} {p : ℕ} {onionskin : CreateCell}
    (hp : q.onionqueueEntry p = none) {b : Bool}
    (hadd : onionPendingAdd now cutoff delayed p onionskin q = some (b, q')) : Ready q' := by
  obtain ⟨old, new, -, -, -, -, -, hrecent, -⟩ := h.ok.onionPendingAdd_spec hp hadd
  exact ⟨h.ok.onionPendingAdd hp hadd, by rw [hrecent]; exact h.nonneg⟩

theorem Ready.next (h : Ready q) (hbusy : Busy q) {rest : List ℕ}
    (hlist : q.olList (turn k q) = e :: rest) : Ready (onionNextTask k q).2 := by
  refine ⟨h.ok.onionNextTask k, ?_⟩
  rw [(h.ok.onionNextTask_busy hbusy hlist).2.2.2.1, counted]
  have := h.nonneg
  split_ifs <;> omega

theorem Turns.split {l₁ l₂ : List (UInt16 × ℕ)} {old : Set ℕ} {l : List (UInt16 × ℕ)}
    (ht : Turns k q l old q') : Ready q → l = l₁ ++ l₂ →
      ∃ mid old₁ old₂, Turns k q l₁ old₁ mid ∧ Ready mid ∧ Turns k mid l₂ old₂ q' ∧
        old = old₁ ∪ old₂ := by
  induction ht generalizing l₁ with
  | @done q hbusy =>
    intro h hl
    obtain ⟨rfl, rfl⟩ := List.append_eq_nil_iff.mp hl.symm
    exact ⟨q, ∅, ∅, .done hbusy, h, .done hbusy, by simp⟩
  | @add q mid q' now cutoff delayed circ onionskin b picks old hbusy hcirc hadd hrest ih =>
    intro h hl
    obtain ⟨m, old₁, old₂, h₁, hm, h₂, hold⟩ := ih (h.add hcirc hadd) hl
    exact ⟨m, _, old₂, .add hbusy hcirc hadd h₁, hm, h₂, by rw [hold, Set.union_assoc]⟩
  | @pick q q' e rest picks old hbusy hlist hrest ih =>
    intro h hl
    cases l₁ with
    | nil =>
      rw [List.nil_append] at hl
      exact ⟨q, ∅, old, .done hbusy, h, hl ▸ .pick hbusy hlist hrest, by simp⟩
    | cons x l₁ =>
      rw [List.cons_append, List.cons.injEq] at hl
      obtain ⟨rfl, hl⟩ := hl
      obtain ⟨m, old₁, old₂, h₁, hm, h₂, hold⟩ := ih (h.next hbusy hlist) hl
      exact ⟨m, old₁, old₂, .pick hbusy hlist h₁, hm, h₂, hold⟩

theorem Turns.ntors_le {l : List (UInt16 × ℕ)} {old : Set ℕ} (ht : Turns k q l old q') :
    Ready q → (∀ x ∈ l, x.1 ≠ onionHandshakeTypeTap) → l ≠ [] →
      q.recentlyChosenNtors + l.length ≤ k := by
  induction ht with
  | done hbusy => exact fun _ _ hne => absurd rfl hne
  | add hbusy hcirc hadd hrest ih =>
    intro h hl hne
    obtain ⟨-, -, -, -, -, -, -, hrecent, -⟩ := h.ok.onionPendingAdd_spec hcirc hadd
    rw [← hrecent]
    exact ih (h.add hcirc hadd) hl hne
  | @pick q q' e rest picks old hbusy hlist hrest ih =>
    intro h hl _
    have hturn := hl _ List.mem_cons_self
    rw [h.ok.turn_busy hbusy] at hturn
    split_ifs at hturn with hcount
    · -- a TAP handshake would have been due
      rcases picks with _ | ⟨x, picks⟩
      · simpa using hcount
      · have hcounted := (h.ok.onionNextTask_busy hbusy hlist).2.2.2.1
        have hle := ih (h.next hbusy hlist) (fun x hx => hl x (List.mem_cons_of_mem _ hx)) (by simp)
        rw [hcounted, counted, if_pos hcount] at hle
        simp only [List.length_cons] at hle ⊢
        push_cast at hle ⊢
        omega
    · exact absurd rfl hturn

theorem Turns.not_two_taps {l : List (UInt16 × ℕ)} {old : Set ℕ} (ht : Turns k q l old q')
    (hk : 1 ≤ k) : Ready q → (2 ≤ l.length → ∃ x ∈ l, x.1 = onionHandshakeTypeNtor) ∧
      (1 ≤ l.length → q.recentlyChosenNtors = 0 → ∃ x ∈ l, x.1 = onionHandshakeTypeNtor) := by
  induction ht with
  | done hbusy => exact fun _ => ⟨fun hlen => absurd hlen (by simp), fun hlen => absurd hlen (by simp)⟩
  | add hbusy hcirc hadd hrest ih =>
    intro h
    obtain ⟨-, -, -, -, -, -, -, hrecent, -⟩ := h.ok.onionPendingAdd_spec hcirc hadd
    rw [← hrecent]
    exact ih (h.add hcirc hadd)
  | @pick q q' e rest picks old hbusy hlist hrest ih =>
    intro h
    obtain ⟨-, hone⟩ := ih (h.next hbusy hlist)
    have hcounted := (h.ok.onionNextTask_busy hbusy hlist).2.2.2.1
    have hturn := h.ok.turn_busy hbusy k
    by_cases hcount : q.recentlyChosenNtors + 1 ≤ k
    · rw [if_pos hcount] at hturn
      exact ⟨fun _ => ⟨_, List.mem_cons_self, hturn⟩, fun _ _ => ⟨_, List.mem_cons_self, hturn⟩⟩
    · -- after a TAP handshake the counter begins again
      rw [counted, if_neg hcount] at hcounted
      refine ⟨fun hlen => ?_, fun _ hzero => absurd hcount (by omega)⟩
      rw [List.length_cons] at hlen
      obtain ⟨x, hx, hntor⟩ := hone (by omega) hcounted
      exact ⟨x, List.mem_cons_of_mem _ hx, hntor⟩

theorem Turns.window {l : List (UInt16 × ℕ)} {old : Set ℕ} (ht : Turns k q l old q') (h : Ready q)
    (hk : 1 ≤ k) (hlen : (l.length : ℤ) = k + 1) :
    (∃ x ∈ l, x.1 = onionHandshakeTypeTap) ∧ ∃ x ∈ l, x.1 = onionHandshakeTypeNtor := by
  constructor
  · by_contra hnone
    have hne : l ≠ [] := by
      rintro rfl
      simp at hlen
      omega
    have hle := ht.ntors_le h (fun x hx htap => hnone ⟨x, hx, htap⟩) hne
    have := h.nonneg
    omega
  · exact ((ht.not_two_taps hk) h).1 (by omega)

def picksOf (i : UInt16) (l : List (UInt16 × ℕ)) : ℕ := l.countP fun x => x.1 = i

theorem Ok.place_add (h : Ok q) {now cutoff : ℤ} {delayed : Bool} {p : ℕ} {onionskin : CreateCell}
    (hp : q.onionqueueEntry p = none) {b : Bool}
    (hadd : OnionQueue.onionPendingAdd now cutoff delayed p onionskin q = some (b, q'))
    {before after : List ℕ} (hlist : q.olList i = before ++ e :: after) :
    e ∈ tooOld now cutoff (onionskinTypeToQueue onionskin.handshakeType) q ∨
      ∃ before' after', q'.olList i = before' ++ e :: after' ∧ before'.length ≤ before.length := by
  obtain ⟨gone, new, hqueue, hage, -, hothers, -⟩ := h.onionPendingAdd_spec hp hadd
  by_cases hi : i = onionskinTypeToQueue onionskin.handshakeType
  · subst hi
    rw [hlist, List.append_assoc, List.cons_append] at hqueue
    rcases List.append_eq_append_iff.mp hqueue with ⟨mid, hgone, hrest⟩ | ⟨mid, hbefore, hrest⟩
    · rcases mid with _ | ⟨x, mid⟩
      · rw [List.nil_append] at hrest
        exact .inr ⟨[], after ++ new, by simpa using hrest.symm, by simp⟩
      · -- the culling goes past the entry
        rw [List.cons_append, List.cons.injEq] at hrest
        obtain ⟨rfl, -⟩ := hrest
        have hmem : e ∈ q.olList (onionskinTypeToQueue onionskin.handshakeType) := by simp [hlist]
        exact .inl ⟨hmem, hage e (by simp [hgone]) hmem⟩
    · exact .inr ⟨mid, after ++ new, hrest, by simp [hbefore]⟩
  · exact .inr ⟨before, after, by rw [hothers i hi, hlist], le_rfl⟩

theorem Turns.place {l : List (UInt16 × ℕ)} {old : Set ℕ} (ht : Turns k q l old q') :
    ∀ {before after : List ℕ}, Ready q → q.olList i = before ++ e :: after →
      (i, e) ∈ l ∨ e ∈ old ∨ ∃ before' after', q'.olList i = before' ++ e :: after' ∧
        before'.length + picksOf i l ≤ before.length := by
  induction ht with
  | done hbusy =>
    intro before after _ hlist
    exact .inr (.inr ⟨before, after, hlist, by simp [picksOf]⟩)
  | @add q mid q' now cutoff delayed circ onionskin b picks old hbusy hcirc hadd hrest ih =>
    intro before after h hlist
    rcases h.ok.place_add hcirc hadd hlist with hold | ⟨before₁, after₁, hlist₁, hle₁⟩
    · exact .inr (.inl (Set.mem_union_left _ hold))
    · rcases ih (h.add hcirc hadd) hlist₁ with hin | hold | ⟨before', after', hlist', hle⟩
      · exact .inl hin
      · exact .inr (.inl (Set.mem_union_right _ hold))
      · exact .inr (.inr ⟨before', after', hlist', by omega⟩)
  | @pick q q' head rest picks old hbusy hhead hrest ih =>
    intro before after h hlist
    obtain ⟨hself, hothers, -⟩ := h.ok.onionNextTask_busy hbusy hhead
    by_cases hi : i = turn k q
    · subst hi
      rw [hhead] at hlist
      rcases before with _ | ⟨x, before⟩
      · obtain rfl : head = e := by simpa using (List.cons.inj hlist).1
        exact .inl List.mem_cons_self
      · obtain ⟨rfl, hbehind⟩ := List.cons.inj hlist
        rw [hbehind] at hself
        rcases ih (h.next hbusy hhead) hself with hin | hold | ⟨before', after', hlist', hle⟩
        · exact .inl (List.mem_cons_of_mem _ hin)
        · exact .inr (.inl hold)
        · refine .inr (.inr ⟨before', after', hlist', ?_⟩)
          rw [picksOf, List.countP_cons_of_pos (by simp), List.length_cons]
          rw [picksOf] at hle
          omega
    · have hlist' : (onionNextTask k q).2.olList i = before ++ e :: after := by
        rw [hothers i hi, hlist]
      rcases ih (h.next hbusy hhead) hlist' with hin | hold | ⟨before', after', hlist', hle⟩
      · exact .inl (List.mem_cons_of_mem _ hin)
      · exact .inr (.inl hold)
      · refine .inr (.inr ⟨before', after', hlist', ?_⟩)
        rw [picksOf, List.countP_cons_of_neg (by simpa using fun heq => hi heq.symm)]
        exact hle

theorem Turns.le_picksOf (hk : 1 ≤ k) (hi : i = onionHandshakeTypeTap ∨ i = onionHandshakeTypeNtor)
    {n : ℕ} : ∀ {q : Queues} {l : List (UInt16 × ℕ)} {old : Set ℕ}, Turns k q l old q' → Ready q →
      n * (k + 1) ≤ l.length → n ≤ picksOf i l := by
  induction n with
  | zero => exact fun _ _ _ => Nat.zero_le _
  | succ n ih =>
    intro q l old ht h hlen
    have hsize : ((k + 1).toNat : ℤ) = k + 1 := Int.toNat_of_nonneg (by omega)
    have hfit : (k + 1).toNat ≤ l.length := by
      have hpos : 0 ≤ (n : ℤ) * (k + 1) := Int.mul_nonneg (by omega) (by omega)
      push_cast at hlen
      rw [Int.add_mul] at hlen
      omega
    obtain ⟨mid, old₁, old₂, h₁, hmid, h₂, -⟩ := ht.split h (List.take_append_drop (k + 1).toNat l).symm
    have hwindow := h₁.window h hk (by rw [List.length_take_of_le hfit, hsize])
    have hone : 1 ≤ picksOf i (l.take (k + 1).toNat) := by
      rw [picksOf]
      refine List.countP_pos_iff.mpr ?_
      rcases hi with rfl | rfl
      · simpa using hwindow.1
      · simpa using hwindow.2
    have hrest := ih h₂ hmid (by
      rw [List.length_drop]
      push_cast at hlen
      rw [Int.add_mul] at hlen
      omega)
    have hsum : picksOf i l = picksOf i (l.take (k + 1).toNat) + picksOf i (l.drop (k + 1).toNat) := by
      rw [picksOf, picksOf, picksOf, ← List.countP_append, List.take_append_drop]
    omega

theorem recentlyChosenNtors_onionQueueEntryRemove (victim : ℕ) (q : Queues) :
    (onionQueueEntryRemove victim q).recentlyChosenNtors = q.recentlyChosenNtors := by
  rw [onionQueueEntryRemove]
  split_ifs <;> rfl

theorem ready_inductive : Inductive onionQueue (fun _ _ => True) Ready where
  init q hq := hq ▸ ⟨ok_initial, le_rfl⟩
  step q op q' h hok hstep := by
    refine ⟨ok_inductive.step q op q' h.ok hok hstep, ?_⟩
    cases op with
    | onionPendingAdd now cutoff delayed circ onionskin =>
      obtain ⟨hcirc, b, hadd⟩ := hstep
      exact (h.add hcirc hadd).nonneg
    | onionNextTask k =>
      obtain rfl : q' = _ := hstep
      have hdecide : 0 ≤ (decideNextHandshakeType k q).2.recentlyChosenNtors := by
        have := h.nonneg
        rw [decideNextHandshakeType]
        split_ifs <;> first | exact this | exact le_rfl | exact Int.add_nonneg this (by decide)
      simp only [OnionQueue.onionNextTask]
      split
      · exact hdecide
      · rw [recentlyChosenNtors_onionQueueEntryRemove]
        exact hdecide
    | onionPendingRemove circ =>
      obtain rfl : q' = _ := hstep
      have hnonneg := h.nonneg
      rw [removePending]
      split
      · rw [recentlyChosenNtors_onionQueueEntryRemove]
        exact hnonneg
      · exact hnonneg
    | clearPendingOnions =>
      obtain rfl : q' = _ := hstep
      have hfold (l : List ℕ) : ∀ q : Queues,
          (l.foldl (fun q victim => onionQueueEntryRemove victim q) q).recentlyChosenNtors =
            q.recentlyChosenNtors := by
        induction l with
        | nil => exact fun _ => rfl
        | cons victim l ih =>
          intro q
          rw [List.foldl_cons, ih, recentlyChosenNtors_onionQueueEntryRemove]
      have hnonneg := h.nonneg
      simp only [clearPendingOnions, hfold]
      exact hnonneg
    | circuitMarkForClose circ =>
      obtain rfl : q' = _ := hstep
      exact h.nonneg

/-- **Both kinds are served.**  From every state of the queues, in every run of additions and picks in
which cells of both kinds wait all the time: any `num_ntors_per_tap + 1` picks in a row
have a TAP and an ntor handshake among them, and an entry with `n` entries before it is picked
within `(n + 1) * (num_ntors_per_tap + 1)` picks, unless an addition finds it too old. -/
theorem turns_fair {picks : List (UInt16 × ℕ)} {old : Set ℕ}
    (hr : Reached onionQueue (fun _ _ => True) q) (hk : 1 ≤ k) (ht : Turns k q picks old q') :
    (∀ window, window <:+: picks → (window.length : ℤ) = k + 1 →
      (∃ x ∈ window, x.1 = onionHandshakeTypeTap) ∧ ∃ x ∈ window, x.1 = onionHandshakeTypeNtor) ∧
    ∀ i before e after, i = onionHandshakeTypeTap ∨ i = onionHandshakeTypeNtor →
      q.olList i = before ++ e :: after → (before.length + 1) * (k + 1) ≤ picks.length →
        (i, e) ∈ picks ∨ e ∈ old := by
  have h : Ready q := hr.invariant ready_inductive
  constructor
  · rintro window ⟨l₁, l₂, rfl⟩ hlen
    obtain ⟨mid₁, old₁, old₂, h₁, hmid₁, h₂, -⟩ := ht.split h rfl
    obtain ⟨mid₂, old₃, old₄, h₃, hmid₂, h₄, -⟩ := h₁.split h rfl
    exact h₄.window hmid₂ hk hlen
  · intro i before e after hi hlist hlen
    rcases ht.place h hlist with hin | hold | ⟨before', after', -, hle⟩
    · exact .inl hin
    · exact .inr hold
    · -- the entry would have to stand before the front of its queue
      have hmany := ht.le_picksOf hk hi (n := before.length + 1) h (by exact_mod_cast hlen)
      omega

/-! ### An entry that is never picked -/

theorem Ok.exists_free (h : Ok q) : ∃ p, q.onionqueueEntry p = none := by
  obtain ⟨p, hp⟩ := Infinite.exists_notMem_finset
    ((q.olList 0 ++ q.olList 1 ++ q.olList 2).map fun e => (q.entry e).circ).toFinset
  refine ⟨p, ?_⟩
  rcases hentry : q.onionqueueEntry p with _ | e
  · rfl
  · have hmem := (h.mem_entriesOf p e).mpr hentry
    rw [entriesOf, List.mem_filter, decide_eq_true_eq] at hmem
    exact absurd (List.mem_toFinset.mpr (List.mem_map.mpr ⟨e, hmem⟩)) hp

theorem Turns.not_picked {picks : List (UInt16 × ℕ)} {old : Set ℕ} (ht : Turns k q picks old q') :
    Ready q → e < q.allocated → (∀ i, e ∉ q.olList i) → ∀ i, (i, e) ∉ picks := by
  induction ht with
  | done hbusy => exact fun _ _ _ _ => List.not_mem_nil
  | @add q mid q' now cutoff delayed circ onionskin b picks old hbusy hcirc hadd hrest ih =>
    intro h hlt hout
    obtain ⟨gone, new, hqueue, -, hnew, hothers, -, -, hle⟩ := h.ok.onionPendingAdd_spec hcirc hadd
    refine ih (h.add hcirc hadd) (by omega) fun i hin => ?_
    by_cases hi : i = onionskinTypeToQueue onionskin.handshakeType
    · subst hi
      have hmem := List.mem_append_right gone hin
      rw [← hqueue, List.mem_append] at hmem
      rcases hmem with hmem | hmem
      · exact hout _ hmem
      · have := (hnew e hmem).1
        omega
    · exact hout i (hothers i hi ▸ hin)
  | @pick q q' head rest picks old hbusy hhead hrest ih =>
    intro h hlt hout i hin
    obtain ⟨hself, hothers, -, -, hallocated⟩ := h.ok.onionNextTask_busy hbusy hhead
    rcases List.mem_cons.mp hin with heq | hin
    · have hmem : head ∈ q.olList (turn k q) := by simp [hhead]
      exact hout _ ((Prod.mk.inj heq).2 ▸ hmem)
    · refine ih (h.next hbusy hhead) (by omega) (fun j hj => ?_) i hin
      by_cases hji : j = turn k q
      · subst hji
        rw [hself] at hj
        exact hout (turn k q) (by rw [hhead]; exact List.mem_cons_of_mem _ hj)
      · exact hout j (hothers j hji ▸ hj)

def waitingCell (i : UInt16) : CreateCell := ⟨10, i, 0, default⟩

/-- What two additions leave: more than one entry of the kind `i`, and the other queues. -/
structure Doubled (k : ℤ) (i : UInt16) (q q' : Queues) : Prop where
  ready : Ready q'
  two : 2 ≤ (q'.olList i).length
  others : ∀ j, j ≠ i → q'.olList j = q.olList j
  turns : ∀ {picks old q''}, Turns k q' picks old q'' → ∃ old', Turns k q picks old' q''

theorem Ready.exists_add (h : Ready q)
    (hi : i = onionHandshakeTypeTap ∨ i = onionHandshakeTypeNtor) :
    ∃ p q', q.onionqueueEntry p = none ∧
      onionPendingAdd 10 5 false p (waitingCell i) q = some (true, q') ∧
      q.allocated ∈ q'.olList i ∧ (q'.entry q.allocated).whenAdded = 10 ∧
      (∀ e ∈ q.olList i, 5 < (q.entry e).whenAdded → e ∈ q'.olList i) ∧
      ∀ j, j ≠ i → q'.olList j = q.olList j := by
  have hqueue : onionskinTypeToQueue (waitingCell i).handshakeType = i := by
    rcases hi with rfl | rfl <;> rfl
  have hr : ¬Refused false (waitingCell i) q := by
    refine not_or.mpr ⟨?_, by simp [haveRoomForOnionskin]⟩
    rcases hi with rfl | rfl <;> exact of_decide_eq_false rfl
  obtain ⟨p, hp⟩ := h.ok.exists_free
  obtain ⟨added, q', hadd, hmem⟩ :=
    (h.ok.addsSafely_iff hp 10 5 false (waitingCell i)).mpr (.inr (.inl (Int.lt_of_sub_pos (by decide))))
  have hadded : added = true := by
    rw [onionPendingAdd_of_not_refused hr] at hadd
    obtain ⟨mid, -, heq⟩ := Option.map_eq_some_iff.mp hadd
    exact (Prod.mk.inj heq).1.symm
  subst hadded
  obtain ⟨gone, new, happ, hage, hnew, hothers, -⟩ := h.ok.onionPendingAdd_spec hp hadd
  rw [hqueue] at hmem happ hage hothers
  have hlast := hmem rfl
  refine ⟨p, q', hp, hadd, hlast, ?_, fun e he hyoung => ?_, hothers⟩
  · have hin := happ ▸ List.mem_append_right gone hlast
    rcases List.mem_append.mp hin with hin | hin
    · exact absurd (h.ok.mem hin).2.2.2 (Nat.lt_irrefl _)
    · exact (hnew _ hin).2
  · have hin := happ ▸ List.mem_append_left new he
    rcases List.mem_append.mp hin with hin | hin
    · have := hage e hin he
      omega
    · exact hin

theorem Ready.exists_doubled (h : Ready q) (hbusy : Busy q) (k : ℤ)
    (hi : i = onionHandshakeTypeTap ∨ i = onionHandshakeTypeNtor) : ∃ q', Doubled k i q q' := by
  obtain ⟨p₁, q₁, hp₁, hadd₁, hmem₁, htime₁, -, hothers₁⟩ := h.exists_add hi
  have h₁ := h.add hp₁ hadd₁
  have hbusy₁ : Busy q₁ := by
    have hone : q₁.olList i ≠ [] := List.ne_nil_of_mem hmem₁
    rcases hi with rfl | rfl
    · exact ⟨hone, by rw [hothers₁ _ (of_decide_eq_true rfl)]; exact hbusy.2⟩
    · exact ⟨by rw [hothers₁ _ (of_decide_eq_true rfl)]; exact hbusy.1, hone⟩
  obtain ⟨p₂, q₂, hp₂, hadd₂, hmem₂, -, hkept₂, hothers₂⟩ := h₁.exists_add hi
  have hfirst := hkept₂ _ hmem₁ (by omega)
  have hne : q.allocated ≠ q₁.allocated := ((h₁.ok.mem hmem₁).2.2.2).ne
  refine ⟨q₂, h₁.add hp₂ hadd₂, ?_, fun j hj => by rw [hothers₂ j hj, hothers₁ j hj],
    fun ht => ⟨_, .add hbusy hp₁ hadd₁ (.add hbusy₁ hp₂ hadd₂ ht)⟩⟩
  have hsub : [q.allocated, q₁.allocated] ⊆ q₂.olList i := by simp [hfirst, hmem₂]
  exact (List.subperm_of_subset (by simp [hne]) hsub).length_le

theorem Ready.exists_turns (n : ℕ) : ∀ {q : Queues}, Ready q → Busy q →
    ∃ picks old q', Turns k q picks old q' ∧ picks.length = n := by
  induction n with
  | zero => exact fun {q} _ hbusy => ⟨[], ∅, q, .done hbusy, rfl⟩
  | succ n ih =>
    intro q h hbusy
    obtain ⟨q₁, h₁⟩ := h.exists_doubled hbusy k (.inl rfl)
    have hntor₁ := h₁.others onionHandshakeTypeNtor (of_decide_eq_true rfl)
    have hbusy₁ : Busy q₁ :=
      ⟨List.ne_nil_of_length_pos (by have := h₁.two; omega), by rw [hntor₁]; exact hbusy.2⟩
    obtain ⟨q₂, h₂⟩ := h₁.ready.exists_doubled hbusy₁ k (.inr rfl)
    have htap₂ := h₂.others onionHandshakeTypeTap (of_decide_eq_true rfl)
    have htwo : 2 ≤ (q₂.olList onionHandshakeTypeTap).length := by
      rw [htap₂]
      exact h₁.two
    have hbusy₂ : Busy q₂ := ⟨List.ne_nil_of_length_pos (by omega),
      List.ne_nil_of_length_pos (by have := h₂.two; omega)⟩
    have hturn : turn k q₂ = onionHandshakeTypeNtor ∨ turn k q₂ = onionHandshakeTypeTap := by
      rw [h₂.ready.ok.turn_busy hbusy₂]
      split_ifs
      · exact .inl rfl
      · exact .inr rfl
    obtain ⟨e, rest, hlist, hrest⟩ : ∃ e rest, q₂.olList (turn k q₂) = e :: rest ∧ rest ≠ [] := by
      have hlen : 2 ≤ (q₂.olList (turn k q₂)).length := by
        rcases hturn with hturn | hturn
        · rw [hturn]
          exact h₂.two
        · rw [hturn]
          exact htwo
      rcases hl : q₂.olList (turn k q₂) with _ | ⟨e, _ | ⟨e', rest⟩⟩
      · simp [hl] at hlen
      · simp [hl] at hlen
      · exact ⟨e, e' :: rest, rfl, by simp⟩
    obtain ⟨hself, hothers, -⟩ := h₂.ready.ok.onionNextTask_busy hbusy₂ hlist
    have hnext (j : UInt16) (hj : q₂.olList j ≠ []) : (onionNextTask k q₂).2.olList j ≠ [] := by
      by_cases hji : j = turn k q₂
      · rw [hji, hself]
        exact hrest
      · rw [hothers j hji]
        exact hj
    obtain ⟨picks, old, q', ht, hlen⟩ := ih (h₂.ready.next hbusy₂ hlist)
      ⟨hnext _ hbusy₂.1, hnext _ hbusy₂.2⟩
    obtain ⟨old₂, ht₂⟩ := h₂.turns (.pick hbusy₂ hlist ht)
    obtain ⟨old₁, ht₁⟩ := h₁.turns ht₂
    exact ⟨_, old₁, q', ht₁, by simp [hlen]⟩

def waitingQueues : Queues :=
  insertTail 3 (waitingCell onionHandshakeTypeNtor) 0
    (insertTail 2 (waitingCell onionHandshakeTypeTap) 0
      (insertTail 1 (waitingCell onionHandshakeTypeNtor) 0
        (insertTail 0 (waitingCell onionHandshakeTypeTap) 0 .initial)))

theorem reached_waitingQueues : Reached onionQueue (fun _ _ => True) waitingQueues := by
  have step {q q' : Queues} (hq : Reached onionQueue (fun _ _ => True) q) (p : ℕ) (i : UInt16)
      (hstep : onionQueue.step q (.onionPendingAdd 0 5 false p (waitingCell i)) q') :
      Reached onionQueue (fun _ _ => True) q' := hq.step trivial hstep
  have h₀ := step (.init rfl) 0 onionHandshakeTypeTap ⟨rfl, true, rfl⟩
  have h₁ := step h₀ 1 onionHandshakeTypeNtor ⟨rfl, true, rfl⟩
  have h₂ := step h₁ 2 onionHandshakeTypeTap ⟨rfl, true, rfl⟩
  exact step h₂ 3 onionHandshakeTypeNtor ⟨rfl, true, rfl⟩

theorem busy_of_cons {e₁ e₂ : ℕ} {l₁ l₂ : List ℕ} (htap : q.olList onionHandshakeTypeTap = e₁ :: l₁)
    (hntor : q.olList onionHandshakeTypeNtor = e₂ :: l₂) : Busy q :=
  ⟨by simp [htap], by simp [hntor]⟩

theorem busy_waitingQueues : Busy waitingQueues := busy_of_cons rfl rfl

/-- Two picks with one ntor handshake for each TAP one: the one of the circuit 0 is the second. -/
theorem turns_fair_waitingQueues : ∃ q' old,
    Turns 1 waitingQueues [(onionHandshakeTypeNtor, 1), (onionHandshakeTypeTap, 0)] old q' ∧
      ((onionHandshakeTypeTap, 0) ∈ [(onionHandshakeTypeNtor, 1), (onionHandshakeTypeTap, 0)] ∨
        0 ∈ old) := by
  have hdone : Turns 1 (onionNextTask 1 (onionNextTask 1 waitingQueues).2).2 [] ∅ _ :=
    .done (busy_of_cons rfl rfl)
  have htap : Turns 1 (onionNextTask 1 waitingQueues).2 [(onionHandshakeTypeTap, 0)] ∅ _ :=
    .pick (busy_of_cons rfl rfl) rfl hdone
  have hntor : Turns 1 waitingQueues [(onionHandshakeTypeNtor, 1), (onionHandshakeTypeTap, 0)] ∅ _ :=
    .pick busy_waitingQueues rfl htap
  exact ⟨_, _, hntor, (turns_fair reached_waitingQueues le_rfl hntor).2 _ [] 0 _ (.inl rfl) rfl
    (by decide)⟩

/-- A cell that comes ten seconds later culls the entry of the circuit 0, however long the picks go
on after it. -/
theorem culled_never_picked :
    ¬∀ q, Reached onionQueue (fun _ _ => True) q → Busy q → ∀ k : ℤ, 1 ≤ k → ∀ i e,
      i = onionHandshakeTypeTap ∨ i = onionHandshakeTypeNtor → e ∈ q.olList i →
        ∃ n, ∀ picks old q', Turns k q picks old q' → n ≤ picks.length → (i, e) ∈ picks := by
  intro hclaim
  obtain ⟨n, hn⟩ := hclaim waitingQueues reached_waitingQueues busy_waitingQueues 1 le_rfl
    onionHandshakeTypeTap 0 (.inl rfl) List.mem_cons_self
  have h : Ready waitingQueues := reached_waitingQueues.invariant ready_inductive
  obtain ⟨q, hadd, htap, hntor, hqueue⟩ : ∃ q,
      onionPendingAdd 10 5 false 4 (waitingCell onionHandshakeTypeTap) waitingQueues =
        some (true, q) ∧ q.olList onionHandshakeTypeTap = [4] ∧
        q.olList onionHandshakeTypeNtor = [1, 3] ∧
        (q.entry 0).queueIdx = onionHandshakeTypeTap := ⟨_, rfl, rfl, rfl, rfl⟩
  have hq : Ready q := h.add rfl hadd
  have hbusy : Busy q := busy_of_cons htap hntor
  obtain ⟨picks, old, q', ht, hlen⟩ := hq.exists_turns (k := 1) n hbusy
  have hpicked := hn _ _ _ (.add busy_waitingQueues rfl hadd ht) hlen.ge
  have hallocated : 0 < q.allocated := by
    have := (hq.ok.mem (i := onionHandshakeTypeTap) (e := 4) (by simp [htap])).2.2.2
    omega
  refine ht.not_picked hq hallocated (fun j hj => ?_) _ hpicked
  -- the entry is of the TAP queue, if of any
  obtain rfl : onionHandshakeTypeTap = j := by rw [← hqueue, (hq.ok.mem hj).1]
  simp [htap] at hj

end OnionQueue
