/-
Lists of rules, the first of which that matches decides.

A rule matches some requests and has a verdict.  Rules in front decide before those behind them
(`decision_append`), and a rule may be dropped when one behind it has the same verdict, matches at
least as much, and nothing in between matches one of its requests with another verdict
(`decision_drop_subsumed`).
-/
import Mathlib.Data.List.Basic
import Mathlib.Tactic.Common

namespace FirstMatch

variable {ρ α κ : Type*} (covers : ρ → α → Bool) (verdict : ρ → κ)

/-- The verdict of the first rule that matches; none where no rule does. -/
def decision (rules : List ρ) (x : α) : Option κ :=
  (rules.find? fun r => covers r x).map verdict

variable {covers verdict} {before after mid rules : List ρ} {r s : ρ} {x : α} {v : κ}

theorem decision_cons_of_covers (h : covers r x = true) :
    decision covers verdict (r :: rules) x = some (verdict r) := by
  unfold decision
  rw [List.find?_cons, h]
  rfl

theorem decision_cons_of_not_covers (h : covers r x = false) :
    decision covers verdict (r :: rules) x = decision covers verdict rules x := by
  unfold decision
  rw [List.find?_cons, h]

theorem decision_append (before after : List ρ) (x : α) :
    decision covers verdict (before ++ after) x =
      (decision covers verdict before x).or (decision covers verdict after x) := by
  unfold decision
  rw [List.find?_append]
  cases before.find? fun r => covers r x <;> rfl

theorem decision_eq_none : decision covers verdict rules x = none ↔
    ∀ r ∈ rules, covers r x = false := by
  rw [decision, Option.map_eq_none_iff, List.find?_eq_none]
  simp

theorem decision_eq_some : decision covers verdict rules x = some v ↔
    ∃ before r after, rules = before ++ r :: after ∧ covers r x = true ∧ verdict r = v ∧
      ∀ q ∈ before, covers q x = false := by
  rw [decision, Option.map_eq_some_iff]
  constructor
  · rintro ⟨r, hr, rfl⟩
    obtain ⟨hcovers, before, after, rfl, hbefore⟩ := List.find?_eq_some_iff_append.mp hr
    exact ⟨before, r, after, rfl, hcovers, rfl, fun q hq => by simpa using hbefore q hq⟩
  · rintro ⟨before, r, after, rfl, hcovers, rfl, hbefore⟩
    refine ⟨r, List.find?_eq_some_iff_append.mpr ⟨hcovers, before, after, rfl, ?_⟩, rfl⟩
    exact fun q hq => by simpa using hbefore q hq

theorem decision_eq_of_forall (hmatch : ∃ r ∈ rules, covers r x = true)
    (hsame : ∀ r ∈ rules, covers r x = true → verdict r = v) :
    decision covers verdict rules x = some v := by
  cases h : decision covers verdict rules x with
  | none =>
    obtain ⟨r, hr, hcovers⟩ := hmatch
    rw [decision_eq_none.mp h r hr] at hcovers
    cases hcovers
  | some w =>
    obtain ⟨before, r, after, rfl, hcovers, rfl, -⟩ := decision_eq_some.mp h
    rw [hsame r (by simp) hcovers]

theorem decision_drop_subsumed (hverdict : verdict r = verdict s)
    (hsub : covers r x = true → covers s x = true)
    (hmid : ∀ q ∈ mid, verdict q ≠ verdict r → covers r x = true → covers q x = false) :
    decision covers verdict (r :: (mid ++ s :: after)) x =
      decision covers verdict (mid ++ s :: after) x := by
  cases hr : covers r x with
  | false => rw [decision_cons_of_not_covers hr]
  | true =>
    rw [decision_cons_of_covers hr, decision_append, decision_cons_of_covers (hsub hr)]
    cases h : decision covers verdict mid x with
    | none => rw [hverdict, Option.none_or]
    | some w =>
      obtain ⟨before, q, rest, rfl, hcovers, rfl, -⟩ := decision_eq_some.mp h
      have hsame : verdict q = verdict r := by
        by_contra hne
        rw [hmid q (by simp) hne hr] at hcovers
        cases hcovers
      rw [hsame, Option.some_or]

end FirstMatch
