/-
One line of a configuration file (`lib/encoding/confline.c`).

Comments and white space go in front of a key; a value is a quoted string or goes to the end of
the line, and may be continued on the next line behind a backslash, with comments in between.
`parseConfigLine_lt` says that every line that is read takes something from the text, so that the
lines of a file are well defined (`fileLines`).
-/
import Mathlib
import LibEltor.Escape
import LibEltor.Smartlist

open Bytes Smartlist Escape

namespace Confline

/-- The white space and the comments in front of a key; `comment` is whether a comment goes on. -/
def skipBlank : Bool → Bytes → Bytes
  | _, [] => []
  | true, c :: s => if c = 10 then skipBlank false s else skipBlank true s
  | false, c :: s =>
    if torIsspace c then skipBlank false s
    else if c = 35 then skipBlank true s
    else c :: s

def continues (line : Bytes) : Bool := decide (line.headD 0 = 92 ∧ line.getD 1 0 = 10)

def keyLoop : Bytes → Bytes × Bytes
  | [] => ([], [])
  | c :: s =>
    if torIsspace c ∨ c = 35 ∨ continues (c :: s) then ([], c :: s)
    else (c :: (keyLoop s).1, (keyLoop s).2)

def skipSpaces (line : Bytes) : Bytes := line.dropWhile fun c => c = 32 ∨ c = 9

/-- The bytes of a value, what is behind them, and whether the value was continued; `comment` is
whether a comment between continued lines goes on. -/
def valueLoop : Bool → Bool → Bytes → Bytes × Bytes × Bool
  | continuation, _, [] => ([], [], continuation)
  | continuation, true, c :: s =>
    let r := valueLoop continuation (decide (c ≠ 10)) s
    (c :: r.1, r.2)
  | continuation, false, c :: s =>
    if c = 10 then ([], c :: s, continuation)
    else if c = 35 then
      if continuation then
        let r := valueLoop continuation true s
        (c :: r.1, r.2)
      else ([], c :: s, continuation)
    else
      match s with
      | [] => ([c], [], continuation)
      | d :: s =>
        if c = 92 ∧ d = 10 then
          let r := valueLoop true false s
          (c :: d :: r.1, r.2)
        else
          let r := valueLoop continuation false (d :: s)
          (c :: r.1, r.2)

def unfoldValue : Bool → Bytes → Bytes
  | _, [] => []
  | true, c :: s => unfoldValue (decide (c ≠ 10)) s
  | false, c :: s =>
    if c = 35 then unfoldValue true s
    else
      match s with
      | [] => [c]
      | d :: s => if c = 92 ∧ d = 10 then unfoldValue false s else c :: unfoldValue false (d :: s)

/-- What is behind a quoted value: spaces and the end of the line; `none` for anything else. -/
def afterQuoted (line : Bytes) : Option Bytes :=
  let line := skipSpaces line
  let line :=
    if line.headD 0 = 13 then
      if line.tail.headD 0 = 10 then line.tail.tail else line.tail
    else line
  if line ≠ [] ∧ line.headD 0 ≠ 35 ∧ line.headD 0 ≠ 10 then none else some line

def parseValue (line : Bytes) : Option (Bytes × Bytes) :=
  if line.headD 0 = 34 then do
    let (value, line) ← unescapeString line
    let line ← afterQuoted line
    some (cstr value, line)
  else
    let (raw, line, continuation) := valueLoop false false line
    let value := raw.rdropWhile torIsspace
    let line := if line.headD 0 = 10 then line.tail else line
    some (if continuation then unfoldValue false value else value, line)

/-- A comment behind the value, and the white space up to the next line. -/
def skipEnd (line : Bytes) : Bytes :=
  (if line.headD 0 = 35 then line.dropWhile fun c => c ≠ 10 else line).dropWhile torIsspace

/-- `parse_config_line_from_str_verbose`: the key and the value, none at the end of the text, and
what is left of the text; `none` is an error. -/
def parseConfigLine (line : Bytes) : Option (Option (Bytes × Bytes) × Bytes) :=
  let line := skipBlank false line
  if line = [] then some (none, [])
  else do
    let (key, line) := keyLoop line
    let (value, line) ← parseValue (skipSpaces line)
    some (some (key, value), skipEnd line)

/-! ### A line takes something from the text -/

theorem length_skipBlank_le (comment : Bool) (s : Bytes) :
    (skipBlank comment s).length ≤ s.length := by
  induction s generalizing comment with
  | nil => cases comment <;> exact Nat.le_refl 0
  | cons c s ih =>
    cases comment <;> rw [skipBlank]
    · split_ifs
      · exact (ih false).trans (Nat.le_succ _)
      · exact (ih true).trans (Nat.le_succ _)
      · exact Nat.le_refl _
    · split_ifs
      · exact (ih false).trans (Nat.le_succ _)
      · exact (ih true).trans (Nat.le_succ _)

theorem headD_skipBlank {comment : Bool} {s : Bytes} (h : skipBlank comment s ≠ []) :
    torIsspace ((skipBlank comment s).headD 0) = false ∧ (skipBlank comment s).headD 0 ≠ 35 := by
  induction s generalizing comment with
  | nil => cases comment <;> exact absurd rfl h
  | cons c s ih =>
    cases comment <;> rw [skipBlank] at h ⊢
    · split_ifs at h ⊢ with hspace hhash
      · exact ih h
      · exact ih h
      · exact ⟨Bool.eq_false_iff.mpr hspace, hhash⟩
    · split_ifs at h ⊢
      · exact ih h
      · exact ih h

theorem length_keyLoop (s : Bytes) : (keyLoop s).1.length + (keyLoop s).2.length = s.length := by
  induction s with
  | nil => rfl
  | cons c s ih =>
    rw [keyLoop]
    split_ifs
    · exact Nat.zero_add _
    · simp only [List.length_cons]
      omega

theorem length_skipSpaces_le (s : Bytes) : (skipSpaces s).length ≤ s.length :=
  (List.dropWhile_suffix _).length_le

theorem length_valueLoop_le (continuation comment : Bool) (s : Bytes) :
    (valueLoop continuation comment s).2.1.length ≤ s.length := by
  fun_induction valueLoop continuation comment s with
  | case1 => exact Nat.le_refl 0
  | case2 continuation c s r ih => exact ih.trans (Nat.le_succ _)
  | case3 continuation s => exact Nat.le_refl _
  | case4 s hline r ih => exact ih.trans (Nat.le_succ _)
  | case5 s => exact Nat.le_refl _
  | case6 => exact Nat.zero_le _
  | case7 continuation c hline hhash d s hcont r ih =>
    exact ih.trans ((Nat.le_succ _).trans (Nat.le_succ _))
  | case8 continuation c hline hhash d s hcont r ih => exact ih.trans (Nat.le_succ _)

theorem length_afterQuoted_le {line rest : Bytes} (h : afterQuoted line = some rest) :
    rest.length ≤ line.length := by
  have hskip := length_skipSpaces_le line
  have htail : (skipSpaces line).tail.length ≤ (skipSpaces line).length :=
    (List.tail_suffix _).length_le
  have htail2 : (skipSpaces line).tail.tail.length ≤ (skipSpaces line).tail.length :=
    (List.tail_suffix _).length_le
  rw [afterQuoted] at h
  split_ifs at h <;> obtain rfl := Option.some.inj h <;> omega

theorem length_tailAt_le (line : Bytes) :
    (if line.headD 0 = 10 then line.tail else line).length ≤ line.length := by
  split_ifs
  · exact (List.tail_suffix _).length_le
  · exact Nat.le_refl _

theorem length_parseValue_le {line value rest : Bytes} (h : parseValue line = some (value, rest)) :
    rest.length ≤ line.length := by
  rw [parseValue] at h
  split_ifs at h
  · obtain ⟨⟨value', line'⟩, hquoted, h⟩ := Option.bind_eq_some_iff.mp h
    obtain ⟨rest', hafter, h⟩ := Option.bind_eq_some_iff.mp h
    cases h
    exact (length_afterQuoted_le hafter).trans
      ((unescapeString_suffix hquoted).length_le.trans (List.tail_suffix _).length_le)
  · cases h
    exact (length_tailAt_le _).trans (length_valueLoop_le false false line)

theorem length_skipEnd_le (line : Bytes) : (skipEnd line).length ≤ line.length := by
  rw [skipEnd]
  refine (List.dropWhile_suffix _).length_le.trans ?_
  split_ifs
  · exact (List.dropWhile_suffix _).length_le
  · exact Nat.le_refl _

theorem length_parseValue_continues {s value rest : Bytes}
    (h : parseValue (92 :: 10 :: s) = some (value, rest)) : rest.length ≤ s.length := by
  rw [parseValue, if_neg (by simp)] at h
  cases h
  exact (length_tailAt_le _).trans (length_valueLoop_le true false s)

/-- **Progress**: what is left after a line is shorter, unless nothing is left. -/
theorem parseConfigLine_lt {line rest : Bytes} {pair : Option (Bytes × Bytes)}
    (h : parseConfigLine line = some (pair, rest)) (hne : rest ≠ []) :
    rest.length < line.length := by
  rw [parseConfigLine] at h
  dsimp only at h
  by_cases hnil : skipBlank false line = []
  · rw [if_pos hnil] at h
    cases h
    exact absurd rfl hne
  · rw [if_neg hnil] at h
    obtain ⟨⟨value, line'⟩, hvalue, h⟩ := Option.bind_eq_some_iff.mp h
    cases h
    show (skipEnd line').length < line.length
    have hblank := length_skipBlank_le false line
    obtain ⟨hspace, hhash⟩ := headD_skipBlank hnil
    have hkey := length_keyLoop (skipBlank false line)
    have hskip := length_skipSpaces_le (keyLoop (skipBlank false line)).2
    have hend := length_skipEnd_le line'
    obtain ⟨c, s, hs⟩ := List.exists_cons_of_ne_nil hnil
    rw [hs] at hspace hhash hkey hskip hvalue hblank
    by_cases hcont : continues (c :: s)
    · -- an empty key: the value begins at once, with the backslash
      obtain ⟨hc, hd⟩ := of_decide_eq_true hcont
      obtain rfl : c = 92 := hc
      obtain ⟨d, t, rfl⟩ : ∃ d t, s = d :: t := by
        cases s with
        | nil => exact absurd hd (by decide)
        | cons d t => exact ⟨d, t, rfl⟩
      obtain rfl : d = 10 := hd
      have hloop : keyLoop (92 :: 10 :: t) = ([], 92 :: 10 :: t) :=
        if_pos (Or.inr (Or.inr hcont))
      rw [hloop] at hvalue
      have hle := length_parseValue_continues hvalue
      rw [List.length_cons, List.length_cons] at hblank
      omega
    · have hloop : keyLoop (c :: s) = (c :: (keyLoop s).1, (keyLoop s).2) :=
        if_neg (by simp_all)
      have hle := length_parseValue_le hvalue
      rw [hloop] at hkey hskip hle
      simp only [List.length_cons] at hkey hblank hskip hle
      omega

/-- The pairs of a text, read to its end; `none` if a line cannot be read. -/
def fileLines (s : Bytes) : Option (List (Bytes × Bytes)) :=
  match h : parseConfigLine s with
  | none => none
  | some (pair, rest) =>
    if hne : rest = [] then some pair.toList
    else (fileLines rest).map (pair.toList ++ ·)
termination_by s.length
decreasing_by exact parseConfigLine_lt h hne

theorem fileLines_eq (s : Bytes) :
    fileLines s = (parseConfigLine s).bind fun p =>
      (if p.2 = [] then some [] else fileLines p.2).map (p.1.toList ++ ·) := by
  rw [fileLines]
  split
  · rename_i hparse
    rw [hparse]
    rfl
  · rename_i pair rest hparse
    rw [hparse]
    by_cases hnil : rest = []
    · simp [hnil]
    · simp [hnil]

end Confline
