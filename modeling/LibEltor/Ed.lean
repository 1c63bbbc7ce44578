/-
The line editor ed: appending, changing and deleting lines by their numbers.

A script whose commands come from the end to the front can be carried out in one pass over the base,
since what a command addresses has not been touched yet.
-/
import Mathlib

namespace Ed

variable {α : Type*}

/-- Lines are numbered from 1; line 0 is in front of them. -/
inductive Command (α : Type*)
  | append (line : ℕ) (added : List α)
  | change (first last : ℕ) (added : List α)
  | delete (first last : ℕ)
  deriving DecidableEq

namespace Command

/-- None where an address is not valid.  To change line 0 is to change line 1. -/
def edit : Command α → List α → Option (List α)
  | append line added, cur =>
    if line ≤ cur.length then some (cur.take line ++ (added ++ cur.drop line)) else none
  | change first last added, cur =>
    if max 1 first ≤ max 1 last ∧ max 1 last ≤ cur.length then
      some (cur.take (max 1 first - 1) ++ (added ++ cur.drop (max 1 last)))
    else none
  | delete first last, cur =>
    if 1 ≤ first ∧ first ≤ last ∧ last ≤ cur.length then
      some (cur.take (first - 1) ++ cur.drop last)
    else none

/-- The last line that `edit` takes from the address. -/
def top : Command α → ℕ
  | append line _ => line
  | change _ last _ => max 1 last
  | delete _ last => last

def stop : Command α → ℕ
  | append line _ => line
  | change _ last _ => last
  | delete _ last => last

def before : Command α → ℤ
  | append line _ => line
  | change first _ _ => first - 1
  | delete first _ => first - 1

def block : Command α → List α
  | append _ added => added
  | change _ _ added => added
  | delete _ _ => []

def Ordered : Command α → Prop
  | append _ _ => True
  | change first last _ => first ≤ last
  | delete first last => first ≤ last

def AtLineZero : Command α → Prop
  | append _ _ => False
  | change _ last _ => last = 0
  | delete first _ => first = 0

end Command

open Command

/-- `res` is what the commands make of `cur`, one after the other, each of them on lines that are
those of the base. -/
def Applied (base : List α) : List (Command α) → List α → List α → Prop
  | [], cur, res => res = cur
  | c :: cmds, cur, res =>
    cur.take c.top = base.take c.top ∧ ∃ next, c.edit cur = some next ∧ Applied base cmds next res

/-- The commands are about the first `j` lines and come from the end to the front. -/
def Descending : ℤ → List (Command α) → Prop
  | _, [] => True
  | j, c :: cmds => c.Ordered ∧ c.stop ≤ j ∧ Descending c.before cmds

/-- The base up to line `j`, with the commands carried out, and then `tail`. -/
def fromEnd (base : List α) : List (Command α) → ℤ → List α → List α
  | [], j, tail => base.take j.toNat ++ tail
  | c :: cmds, j, tail =>
    fromEnd base cmds c.before (c.block ++ ((base.take j.toNat).drop c.stop ++ tail))

theorem Descending.nil_of_neg {j : ℤ} {cmds : List (Command α)} (h : Descending j cmds)
    (hj : j < 0) : cmds = [] := by
  cases cmds with
  | nil => rfl
  | cons c cmds =>
    obtain ⟨-, hstop, -⟩ := h
    omega

theorem before_le_stop {c : Command α} (h : c.Ordered) : c.before ≤ c.stop := by
  cases c with
  | append line added => exact le_refl _
  | change first last added =>
    change first ≤ last at h
    simp only [before, stop]
    omega
  | delete first last =>
    change first ≤ last at h
    simp only [before, stop]
    omega

theorem take_take_append {base tail : List α} {k n : ℕ} (hk : k ≤ n) (hn : n ≤ base.length) :
    (base.take n ++ tail).take k = base.take k := by
  have hlen : k ≤ (base.take n).length := by
    rw [List.length_take]
    omega
  rw [List.take_append_of_le_length hlen, List.take_take, min_eq_left hk]

theorem drop_take_append {base tail : List α} {k n : ℕ} (hk : k ≤ n) (hn : n ≤ base.length) :
    (base.take n ++ tail).drop k = (base.take n).drop k ++ tail := by
  have hlen : k ≤ (base.take n).length := by
    rw [List.length_take]
    omega
  rw [List.drop_append_of_le_length hlen]

theorem edit_fromEnd {base : List α} (tail : List α) {c : Command α} {j : ℤ} (hordered : c.Ordered)
    (hstop : c.stop ≤ j) (hj : j ≤ base.length) (hzero : ¬ c.AtLineZero) :
    (base.take j.toNat ++ tail).take c.top = base.take c.top ∧
      c.edit (base.take j.toNat ++ tail) =
        some (base.take c.before.toNat ++
          (c.block ++ ((base.take j.toNat).drop c.stop ++ tail))) := by
  have hn : j.toNat ≤ base.length := by omega
  have hlen : j.toNat ≤ (base.take j.toNat ++ tail).length := by
    rw [List.length_append, List.length_take]
    omega
  have hle : c.stop ≤ j.toNat := by omega
  cases c with
  | append line added =>
    change line ≤ j.toNat at hle
    refine ⟨take_take_append hle hn, ?_⟩
    rw [edit, if_pos (hle.trans hlen), take_take_append hle hn, drop_take_append hle hn]
    rfl
  | change first last added =>
    change last ≤ j.toNat at hle
    change first ≤ last at hordered
    -- for a change line 0 is read as line 1, which is the same line unless `last` is 0
    have hlast : max 1 last = last := max_eq_right (Nat.pos_of_ne_zero hzero)
    have hbefore : ((first : ℤ) - 1).toNat = max 1 first - 1 := by omega
    have hfirst : max 1 first - 1 ≤ j.toNat := by omega
    have hvalid : max 1 first ≤ max 1 last ∧ max 1 last ≤ (base.take j.toNat ++ tail).length := by
      omega
    have htop : (change first last added).top ≤ j.toNat := hlast.trans_le hle
    refine ⟨take_take_append htop hn, ?_⟩
    rw [edit, if_pos hvalid, take_take_append hfirst hn, hlast, drop_take_append hle hn, before,
      hbefore]
    rfl
  | delete first last =>
    change last ≤ j.toNat at hle
    change first ≤ last at hordered
    have hpos : 1 ≤ first := Nat.pos_of_ne_zero hzero
    have hbefore : ((first : ℤ) - 1).toNat = first - 1 := by omega
    have hfirst : first - 1 ≤ j.toNat := by omega
    refine ⟨take_take_append hle hn, ?_⟩
    rw [edit, if_pos ⟨hpos, hordered, hle.trans hlen⟩, take_take_append hfirst hn,
      drop_take_append hle hn, before, hbefore]
    rfl

theorem not_applied_of_atLineZero {base tail : List α} {c : Command α} {cmds : List (Command α)}
    {j : ℤ} (hordered : c.Ordered) (hcmds : Descending c.before cmds) (hzero : c.AtLineZero) :
    ¬ Applied base (c :: cmds) (base.take j.toNat ++ tail)
      (fromEnd base (c :: cmds) j tail) := by
  rintro ⟨-, next, hnext, happlied⟩
  cases c with
  | append line added => exact hzero
  | change first last added =>
    obtain rfl : last = 0 := hzero
    obtain rfl : first = 0 := Nat.le_zero.mp hordered
    have hbefore : (change 0 0 added).before < 0 := by
      rw [before]
      decide
    obtain rfl := hcmds.nil_of_neg hbefore
    rw [edit] at hnext
    by_cases hvalid : max 1 0 ≤ max 1 0 ∧ max 1 0 ≤ (base.take j.toNat ++ tail).length
    · -- ed gives one line less than the pass
      rw [if_pos hvalid, Option.some.injEq] at hnext
      obtain rfl := hnext
      have hlen := congrArg List.length happlied
      have hone := hvalid.2
      simp only [fromEnd, before, block, stop, List.length_append, List.length_drop,
        List.length_take] at hlen hone
      omega
    · rw [if_neg hvalid] at hnext
      cases hnext
  | delete first last =>
    obtain rfl : first = 0 := hzero
    rw [edit, if_neg (by omega)] at hnext
    cases hnext

theorem applied_fromEnd_iff {base : List α} {cmds : List (Command α)} {j : ℤ}
    (hcmds : Descending j cmds) (hj : j ≤ base.length) (tail : List α) :
    Applied base cmds (base.take j.toNat ++ tail) (fromEnd base cmds j tail) ↔
      ∀ c ∈ cmds, ¬ c.AtLineZero := by
  induction cmds generalizing j tail with
  | nil => exact iff_of_true rfl fun c hc => absurd hc List.not_mem_nil
  | cons c cmds ih =>
    obtain ⟨hordered, hstop, hrest⟩ := hcmds
    rw [List.forall_mem_cons]
    by_cases hzero : c.AtLineZero
    · refine iff_of_false (not_applied_of_atLineZero hordered hrest hzero) ?_
      rintro ⟨hc, -⟩
      exact hc hzero
    · obtain ⟨htake, hedit⟩ := edit_fromEnd tail hordered hstop hj hzero
      have hbefore : c.before ≤ base.length := ((before_le_stop hordered).trans hstop).trans hj
      rw [Applied, hedit, fromEnd]
      constructor
      · rintro ⟨-, next, hnext, happlied⟩
        obtain rfl := Option.some.inj hnext
        exact ⟨hzero, (ih hrest hbefore _).mp happlied⟩
      · rintro ⟨-, hcs⟩
        exact ⟨htake, _, rfl, (ih hrest hbefore _).mpr hcs⟩

end Ed
