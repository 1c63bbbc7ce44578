/-
The suggested effort of a service with proof of work (`update_suggested_effort`).

At the end of a period the effort is raised if requests of more effort were trimmed or if the queue
stays long, and lowered if it was never long.  What raises it is a quotient in 64 bits, stored in 32,
and what lowers it doubles it first.
-/
import Mathlib
import LibEltor.HsPowQueue

open Transition Word PqueueCompare

namespace HsPowQueue

def Raises (s : PowServiceState) : Prop :=
  s.suggestedEffort < s.maxTrimmedEffort ∨ s.hadQueue = true ∧
    0 < s.rendRequestPqueue.numUsed ∧ topOfRendPqueueIsWorthwhile s = true

def Lowers (s : PowServiceState) : Prop :=
  s.maxTrimmedEffort ≤ s.suggestedEffort ∧ s.hadQueue = false ∧
    (s.rendRequestPqueue.numUsed : ℤ) < s.pqueueLowLevel

def lowered (effort : ℕ) : ℕ := u32 (2 * effort) / 3

/-- An update does no arithmetic that traps, truncates or wraps, and moves the effort the right way;
and what raises the effort has happened in the period. -/
structure EffortSound (w : World) : Prop where
  divisor : Raises w.pow → w.pow.suggestedEffort < 2 ^ 32 - 1 → w.pow.rendHandled ≠ 0
  quotient : Raises w.pow → w.pow.suggestedEffort < 2 ^ 32 - 1 →
    w.pow.totalEffort / w.pow.rendHandled < 2 ^ 32
  succ : Raises w.pow → w.pow.suggestedEffort < 2 ^ 32 - 1 → w.pow.suggestedEffort + 1 < 2 ^ 32
  double : Lowers w.pow → 2 * w.pow.suggestedEffort < 2 ^ 32
  neverLowers : Raises w.pow → ∀ effort ∈ nextEffort w.pow, w.pow.suggestedEffort ≤ effort
  neverRaises : Lowers w.pow → ∀ effort ∈ nextEffort w.pow, effort ≤ w.pow.suggestedEffort
  reachesZero : ∃ n, lowered^[n] w.pow.suggestedEffort = 0
  onlyIf : ∀ effort ∈ nextEffort w.pow, w.pow.suggestedEffort < effort →
    (∃ req ∈ w.trimmed, w.pow.suggestedEffort < req.powEffort) ∨
      (∃ n ∈ w.left, w.pow.pqueueLowLevel ≤ (n : ℕ)) ∧
        ∃ req, Pqueue.Mem req w.pow.rendRequestPqueue ∧ w.pow.suggestedEffort ≤ req.powEffort

variable {s s' : PowServiceState} {w w' : World} {effort : ℕ}

theorem aimdEvent_cases (s : PowServiceState) :
    aimdEvent s = .increase ∧ Raises s ∧ ¬ Lowers s ∨
      aimdEvent s = .decrease ∧ ¬ Raises s ∧ Lowers s ∨
        aimdEvent s = .none ∧ ¬ Raises s ∧ ¬ Lowers s := by
  unfold aimdEvent Raises Lowers
  split_ifs with htrimmed hqueue hworth hshort
  · exact .inl ⟨rfl, .inl htrimmed, fun h => absurd htrimmed (not_lt.mpr h.1)⟩
  · exact .inl ⟨rfl, .inr ⟨hqueue, hworth⟩, fun h => by simp [hqueue] at h⟩
  · refine .inr (.inr ⟨rfl, ?_, fun h => by simp [hqueue] at h⟩)
    rintro (hlt | ⟨-, h⟩)
    · exact htrimmed hlt
    · exact hworth h
  · refine .inr (.inl ⟨rfl, ?_, not_lt.mp htrimmed, by simpa using hqueue, hshort⟩)
    rintro (hlt | ⟨h, -⟩)
    · exact htrimmed hlt
    · exact hqueue h
  · refine .inr (.inr ⟨rfl, ?_, fun h => hshort h.2.2⟩)
    rintro (hlt | ⟨h, -⟩)
    · exact htrimmed hlt
    · exact hqueue h

theorem nextEffort_of_raises (h : Raises s) : nextEffort s =
    if s.suggestedEffort < 2 ^ 32 - 1 then
      if s.rendHandled = 0 then none
      else some (max (u32 (s.suggestedEffort + 1)) (u32 (s.totalEffort / s.rendHandled : ℕ)))
    else some s.suggestedEffort := by
  obtain ⟨hevent, -, -⟩ | ⟨-, hnot, -⟩ | ⟨-, hnot, -⟩ := aimdEvent_cases s
  · rw [nextEffort, hevent]
  · exact absurd h hnot
  · exact absurd h hnot

theorem lowered_le (effort : ℕ) : lowered effort ≤ 2 * effort / 3 :=
  Nat.div_le_div_right (wrap_natCast_le 32 (2 * effort))

theorem nextEffort_le (h : ¬ Raises s) : ∀ effort ∈ nextEffort s, effort ≤ s.suggestedEffort := by
  intro effort hmem
  obtain ⟨-, hraises, -⟩ | ⟨hevent, -, -⟩ | ⟨hevent, -, -⟩ := aimdEvent_cases s
  · exact absurd hraises h
  · rw [nextEffort, hevent] at hmem
    obtain rfl := Option.some.inj hmem
    have hle := lowered_le s.suggestedEffort
    exact hle.trans (by omega)
  · rw [nextEffort, hevent] at hmem
    exact (Option.some.inj hmem).ge

theorem le_nextEffort (h : Raises s) : ∀ effort ∈ nextEffort s, s.suggestedEffort ≤ effort := by
  intro effort hmem
  rw [nextEffort_of_raises h] at hmem
  split_ifs at hmem with hmax hzero
  · exact absurd hmem (by simp)
  · obtain rfl := Option.some.inj hmem
    have hsucc : u32 (s.suggestedEffort + 1) = s.suggestedEffort + 1 :=
      wrap_natCast (show s.suggestedEffort + 1 < 2 ^ 32 by omega)
    rw [hsucc]
    exact (Nat.le_succ _).trans (le_max_left _ _)
  · exact (Option.some.inj hmem).le

theorem lowered_reaches_zero (effort : ℕ) : ∃ n, lowered^[n] effort = 0 := by
  induction effort using Nat.strong_induction_on with
  | _ effort ih =>
    obtain rfl | hpos := Nat.eq_zero_or_pos effort
    · exact ⟨0, rfl⟩
    · have hle := lowered_le effort
      obtain ⟨n, hn⟩ := ih (lowered effort) (by omega)
      exact ⟨n + 1, hn⟩

/-! ### The period -/

/-- The greatest effort that was trimmed, and a long queue, are of the period. -/
structure OfPeriod (w : World) : Prop where
  trimmed : w.pow.maxTrimmedEffort = w.trimmed.foldl (fun m req => max m req.powEffort) 0
  queue : w.pow.hadQueue = true → ∃ n ∈ w.left, w.pow.pqueueLowLevel ≤ (n : ℕ)

theorem enqueueRendRequest_period {req : PendingRend} {now : ℤ} {discarded : List PendingRend}
    (h : enqueueRendRequest s req now = some (s', discarded)) :
    s'.maxTrimmedEffort = discarded.foldl (fun m req => max m req.powEffort) s.maxTrimmedEffort ∧
      s'.hadQueue = s.hadQueue ∧ s'.pqueueLowLevel = s.pqueueLowLevel := by
  obtain ⟨q, -, h⟩ := Option.bind_eq_some_iff.mp h
  split_ifs at h with hhigh
  · obtain ⟨t, -, ht⟩ := Option.map_eq_some_iff.mp h
    obtain ⟨rfl, rfl⟩ := Prod.mk.inj ht
    exact ⟨rfl, rfl, rfl⟩
  · obtain ⟨rfl, rfl⟩ := Prod.mk.inj (Option.some.inj h)
    exact ⟨rfl, rfl, rfl⟩

theorem callbackLoop_period {now : ℤ} {inFlight : ℕ} {rateLimited : ℕ → Bool} {n : ℕ}
    {c c' : Callback} (h : callbackLoop now inFlight rateLimited n c = some c') :
    c'.pow.maxTrimmedEffort = c.pow.maxTrimmedEffort ∧ c'.pow.hadQueue = c.pow.hadQueue ∧
      c'.pow.pqueueLowLevel = c.pow.pqueueLowLevel := by
  induction n generalizing c with
  | zero =>
    obtain rfl := Option.some.inj h
    exact ⟨rfl, rfl, rfl⟩
  | succ n ih =>
    rw [callbackLoop] at h
    split_ifs at h
    · obtain rfl := Option.some.inj h
      exact ⟨rfl, rfl, rfl⟩
    · obtain rfl := Option.some.inj h
      exact ⟨rfl, rfl, rfl⟩
    · obtain ⟨⟨req, q⟩, -, h⟩ := Option.bind_eq_some_iff.mp h
      dsimp only at h
      split_ifs at h
      · have hrest := ih h
        exact hrest
      · obtain rfl := Option.some.inj h
        exact ⟨rfl, rfl, rfl⟩

theorem OfPeriod.step (h : OfPeriod w) {a : Action} (hstep : perform w a = some w') :
    OfPeriod w' := by
  cases a with
  | introduce2 effort now =>
    obtain ⟨⟨s', discarded⟩, henqueue, rfl⟩ := Option.map_eq_some_iff.mp hstep
    obtain ⟨htrimmed, hqueue, hlow⟩ := enqueueRendRequest_period henqueue
    refine ⟨?_, fun hhad => ?_⟩
    · show s'.maxTrimmedEffort = (w.trimmed ++ discarded).foldl _ 0
      rw [List.foldl_append, ← h.trimmed, htrimmed]
    · show ∃ n ∈ w.left, s'.pqueueLowLevel ≤ (n : ℕ)
      rw [hlow]
      exact h.queue (hqueue ▸ hhad)
  | callback now inFlight rateLimited =>
    obtain ⟨c, hcallback, rfl⟩ := Option.map_eq_some_iff.mp hstep
    obtain ⟨c', hloop, rfl⟩ := Option.map_eq_some_iff.mp hcallback
    obtain ⟨htrimmed, hqueue, hlow⟩ := callbackLoop_period hloop
    have hold : c'.pow.hadQueue = true → ∃ n ∈ w.left, c'.pow.pqueueLowLevel ≤ (n : ℕ) := by
      rw [hqueue, hlow]
      exact h.queue
    have hlater : ∀ m : ℕ, (∃ n ∈ w.left, c'.pow.pqueueLowLevel ≤ (n : ℕ)) →
        ∃ n ∈ m :: w.left, c'.pow.pqueueLowLevel ≤ (n : ℕ) := fun m ⟨n, hn, hle⟩ =>
      ⟨n, List.mem_cons_of_mem m hn, hle⟩
    split_ifs with hreturned hlong
    · exact ⟨htrimmed.trans h.trimmed, fun hhad => hlater _ (hold hhad)⟩
    · exact ⟨htrimmed.trans h.trimmed, fun _ => ⟨_, List.mem_cons_self, hlong.2⟩⟩
    · exact ⟨htrimmed.trans h.trimmed, fun hhad => hlater _ (hold hhad)⟩
  | update =>
    obtain ⟨s', hupdate, rfl⟩ := Option.map_eq_some_iff.mp hstep
    obtain ⟨effort, -, rfl⟩ := Option.map_eq_some_iff.mp hupdate
    exact ⟨rfl, fun hhad => absurd hhad (by simp)⟩

theorem reached_ofPeriod (hr : Reached system (fun _ _ => True) w) : OfPeriod w := by
  refine hr.invariant (P := OfPeriod) ⟨?_, fun w a w' h _ hstep => h.step hstep.2⟩
  rintro w ⟨rate, burst, -, -, rfl⟩
  exact ⟨rfl, fun hhad => absurd hhad (by simp [initializePowDefenses])⟩

theorem exists_lt_of_lt_foldl {l : List PendingRend} {m : ℕ}
    (h : effort < l.foldl (fun m req => max m req.powEffort) m) (hm : m ≤ effort) :
    ∃ req ∈ l, effort < req.powEffort := by
  induction l generalizing m with
  | nil => exact absurd h (not_lt.mpr hm)
  | cons req l ih =>
    by_cases hreq : effort < req.powEffort
    · exact ⟨req, List.mem_cons_self, hreq⟩
    · obtain ⟨other, hother, hlt⟩ := ih h (max_le hm (not_lt.mp hreq))
      exact ⟨other, List.mem_cons_of_mem req hother, hlt⟩

def exampleWorld : World := ⟨initializePowDefenses 8 8, [], [], [], [], []⟩

theorem reached_exampleWorld : Reached system (fun _ _ => True) exampleWorld :=
  .init ⟨8, 8, by decide, by decide, rfl⟩

/-- Nine requests of effort `2 ^ 29`, one of which is launched. -/
def nineActions : List Action :=
  List.replicate 9 (.introduce2 (2 ^ 29) 0) ++ [.callback 0 0 fun _ => false]

theorem step_of_allowed {actions : List Action}
    (hall : ∀ a ∈ actions, ∀ effort now, a = .introduce2 effort now → effort < 2 ^ 32)
    (hrun : actions.foldlM perform w = some w') (hr : Reached system (fun _ _ => True) w) :
    Reached system (fun _ _ => True) w' := by
  induction actions generalizing w with
  | nil =>
    obtain rfl := Option.some.inj hrun
    exact hr
  | cons a actions ih =>
    obtain ⟨mid, hmid, hrest⟩ := Option.bind_eq_some_iff.mp hrun
    exact ih (fun a ha => hall a (List.mem_cons_of_mem _ ha)) hrest
      (hr.step trivial ⟨hall a List.mem_cons_self, hmid⟩)

end HsPowQueue
