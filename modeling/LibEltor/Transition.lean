/-
Transition systems and what holds along their runs.

A system says where it may begin and what each action can do.  `Reached S ok s`
says that `s` is the state some run of `S` is in, every step of which met `ok`:
with `ok` always true these are the reachable states.  An invariant is proved
once, by one induction over runs (`Reached.invariant`), and later invariants
may use earlier ones (`Reached.strengthen`).
-/
import Mathlib.Tactic.Common

namespace Transition

structure System (σ α : Type*) where
  init : σ → Prop
  step : σ → α → σ → Prop

variable {σ α : Type*} {S : System σ α} {ok ok' : σ → α → Prop} {P Q : σ → Prop}

/-- The states of the runs every step of which meets `ok`. -/
inductive Reached (S : System σ α) (ok : σ → α → Prop) : σ → Prop
  | init {s : σ} : S.init s → Reached S ok s
  | step {s : σ} {a : α} {s' : σ} : Reached S ok s → ok s a → S.step s a s' → Reached S ok s'

/-- What holds at the beginning and is kept by every step that meets `ok`. -/
structure Inductive (S : System σ α) (ok : σ → α → Prop) (P : σ → Prop) : Prop where
  init : ∀ s, S.init s → P s
  step : ∀ s a s', P s → ok s a → S.step s a s' → P s'

theorem Reached.invariant {s : σ} (hr : Reached S ok s) (h : Inductive S ok P) : P s := by
  induction hr with
  | init hi => exact h.init _ hi
  | step _ hok hs ih => exact h.step _ _ _ ih hok hs

theorem Reached.mono {s : σ} (hr : Reached S ok s) (h : ∀ s a, ok s a → ok' s a) :
    Reached S ok' s := by
  induction hr with
  | init hi => exact .init hi
  | step _ hok hs ih => exact .step ih (h _ _ hok) hs

/-- Actions that are all possible in turn, and each meet `ok`, are a run. -/
theorem Reached.foldlM_meets {step : σ → α → Option σ}
    (hstep : ∀ s a s', step s a = some s' → ok s a ∧ S.step s a s')
    (actions : List α) {s s' : σ} (hr : Reached S ok s)
    (h : actions.foldlM step s = some s') : Reached S ok s' := by
  induction actions generalizing s with
  | nil =>
    obtain rfl := Option.some.inj h
    exact hr
  | cons a actions ih =>
    rw [List.foldlM_cons] at h
    obtain ⟨mid, hmid, hrest⟩ := Option.bind_eq_some_iff.mp h
    obtain ⟨hok, hmid⟩ := hstep _ _ _ hmid
    exact ih (hr.step hok hmid) hrest

theorem Reached.foldlM {step : σ → α → Option σ} (hstep : ∀ s a s', step s a = some s' → S.step s a s')
    (actions : List α) {s s' : σ} (hr : Reached S (fun _ _ => True) s)
    (h : actions.foldlM step s = some s') : Reached S (fun _ _ => True) s' :=
  hr.foldlM_meets (fun s a s' hs => ⟨trivial, hstep s a s' hs⟩) actions h

theorem Reached.strengthen {s : σ} (hr : Reached S ok s) (h : ∀ s, Reached S ok s → P s)
    (hinit : ∀ s, S.init s → Q s)
    (hstep : ∀ s a s', P s → Q s → ok s a → S.step s a s' → Q s') : Q s := by
  induction hr with
  | init hi => exact hinit _ hi
  | step hr hok hs ih => exact hstep _ _ _ (h _ hr) ih hok hs

end Transition
