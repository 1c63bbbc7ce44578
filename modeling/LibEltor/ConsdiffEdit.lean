/-
Applying a diff as an ed script (`feature/dircommon/consdiff.c`).

The commands of a script come from its end of the base to its front, so that the lines a command
addresses are still those of the base when the ones before it have been carried out.
-/
import Mathlib
import LibEltor.Consdiff
import LibEltor.Ed

open Bytes

namespace Consdiff

/-! ### Indices -/

/-- None where the index is out of range. -/
def smartlistGet (list : List Line) (i : ℤ) : Option Line := if i < 0 then none else list[i.toNat]?

/-- The loops that add unchanged lines, down to `stop`. -/
def addUnchangedAt (cons1 : List Line) (stop : ℕ) : ℕ → List Line → Option (List Line)
  | 0, cons2 => some cons2
  | j + 1, cons2 =>
    if j + 1 > stop then
      (smartlistGet cons1 ((j + 1 : ℕ) - 1)).bind fun line =>
        addUnchangedAt cons1 stop j (line :: cons2)
    else some cons2

/-- The loop that looks for the line with a dot; `none` inside is the error that there is none. -/
def findDot (diff : List Line) (i : ℕ) : Option (Option ℕ) :=
  if i < diff.length then
    match smartlistGet diff i with
    | none => none
    | some line =>
      if linesEq line dot then some (some i)
      else if i + 1 = diff.length then some none
      else findDot diff (i + 1)
  else some (some i)
termination_by diff.length - i

/-- The loop that adds the `n` lines behind line `addedEnd`, the last one first. -/
def addLinesAt (diff : List Line) (addedEnd : ℕ) : ℕ → List Line → Option (List Line)
  | 0, cons2 => some cons2
  | n + 1, cons2 =>
    (smartlistGet diff (addedEnd + (n + 1) : ℕ)).bind fun line =>
      addLinesAt diff addedEnd n (line :: cons2)

theorem le_of_findDot {diff : List Line} (i : ℕ) {dotIdx : ℕ}
    (h : findDot diff i = some (some dotIdx)) : i ≤ dotIdx := by
  induction i using findDot.induct diff with
  | case1 i hlt hnone =>
    rw [findDot, if_pos hlt, hnone] at h
    cases h
  | case2 i hlt line hline hdot =>
    rw [findDot, if_pos hlt, hline] at h
    simp only [hdot, if_true, Option.some.injEq] at h
    exact h.le
  | case3 i hlt line hline hdot hend =>
    rw [findDot, if_pos hlt, hline] at h
    simp [hdot, hend] at h
  | case4 i hlt line hline hdot hend ih =>
    rw [findDot, if_pos hlt, hline] at h
    simp only [hdot, hend, if_false] at h
    have := ih h
    omega
  | case5 i hge =>
    rw [findDot, if_neg hge] at h
    simp only [Option.some.injEq] at h
    exact h.le

/-- `apply_ed_diff` from line `i` of the diff on, with every index checked: none where one is out of
range, `none` inside where the script is refused. -/
def applyAt (cons1 diff : List Line) (i : ℕ) (j : ℤ) (cons2 : List Line) :
    Option (Option (List Line)) :=
  if i < diff.length then
    match smartlistGet diff i with
    | none => none
    | some diffLine =>
      match readCommand cons1.length j diffLine with
      | none => some none
      | some (start, stop, action) =>
        match addUnchangedAt cons1 stop j.toNat cons2 with
        | none => none
        | some cons2 =>
          -- the lines that `c` and `d` remove are passed over
          let j := min j stop
          let j := if action = 99 ∨ action = 100 then min (j - 1) (start - 1) else j
          -- behind `a` and `c` come the lines to add, and a dot
          if action = 97 ∨ action = 99 then
            match _ : findDot diff (i + 1) with
            | none => none
            | some none => some none
            | some (some dotIdx) =>
              if dotIdx - 1 = i then some none
              else
                match addLinesAt diff i (dotIdx - 1 - i) cons2 with
                | none => none
                | some cons2 => applyAt cons1 diff (dotIdx + 1) j cons2
          else applyAt cons1 diff (i + 1) j cons2
  else (addUnchangedAt cons1 0 j.toNat cons2).map some
termination_by diff.length - i
decreasing_by
  · have hle := le_of_findDot _ ‹_›
    omega
  · omega

theorem getElem?_eq_lineAt {list : List Line} {i : ℕ} (h : i < list.length) :
    list[i]? = some (lineAt list i) := by
  rw [lineAt, List.getD_eq_getElem _ _ h, List.getElem?_eq_getElem h]

theorem drop_eq_lineAt_cons {list : List Line} {i : ℕ} (h : i < list.length) :
    list.drop i = lineAt list i :: list.drop (i + 1) := by
  rw [List.drop_eq_getElem_cons h, lineAt, List.getD_eq_getElem _ _ h]

theorem take_succ_eq_lineAt {list : List Line} {i : ℕ} (h : i < list.length) :
    list.take (i + 1) = list.take i ++ [lineAt list i] := by
  rw [List.take_add_one, getElem?_eq_lineAt h]
  rfl

theorem smartlistGet_of_lt {list : List Line} {i : ℕ} (h : i < list.length) :
    smartlistGet list i = some (lineAt list i) := by
  have hi : ¬ (i : ℤ) < 0 := by omega
  rw [smartlistGet, if_neg hi, Int.toNat_natCast, getElem?_eq_lineAt h]

theorem addUnchangedAt_eq {cons1 : List Line} (stop : ℕ) {j : ℕ} (hj : j ≤ cons1.length)
    (cons2 : List Line) :
    addUnchangedAt cons1 stop j cons2 = some (addUnchanged cons1 stop j cons2) := by
  induction j generalizing cons2 with
  | zero => rfl
  | succ j ih =>
    have hget : smartlistGet cons1 ((j + 1 : ℕ) - 1) = some (lineAt cons1 j) := by
      have hpred : ((j + 1 : ℕ) : ℤ) - 1 = j := by omega
      rw [hpred]
      exact smartlistGet_of_lt hj
    rw [addUnchangedAt, addUnchanged]
    by_cases hstop : j + 1 > stop
    · rw [if_pos hstop, if_pos hstop, hget]
      exact ih (by omega) _
    · rw [if_neg hstop, if_neg hstop]

/-- The lines from `i` on that stand before the first dot. -/
def linesToDot (diff : List Line) (i : ℕ) : List Line :=
  (diff.drop i).takeWhile fun line => !linesEq line dot

theorem linesToDot_of_lt {diff : List Line} {i : ℕ} (h : i < diff.length) :
    linesToDot diff i =
      if linesEq (lineAt diff i) dot then [] else lineAt diff i :: linesToDot diff (i + 1) := by
  rw [linesToDot, drop_eq_lineAt_cons h, List.takeWhile_cons, linesToDot]
  cases linesEq (lineAt diff i) dot <;> rfl

theorem length_linesToDot_le (diff : List Line) (i : ℕ) :
    (linesToDot diff i).length ≤ diff.length - i := by
  rw [← List.length_drop]
  exact (List.takeWhile_prefix _).length_le

theorem take_length_linesToDot (diff : List Line) (i : ℕ) :
    (diff.drop i).take (linesToDot diff i).length = linesToDot diff i :=
  (List.prefix_iff_eq_take.mp (List.takeWhile_prefix _)).symm

theorem findDot_eq {diff : List Line} (i : ℕ) (hi : i ≤ diff.length) :
    findDot diff i = some (
      if i < diff.length ∧ i + (linesToDot diff i).length = diff.length then none
      else some (i + (linesToDot diff i).length)) := by
  induction i using findDot.induct diff with
  | case1 i hlt hnone =>
    rw [smartlistGet_of_lt hlt] at hnone
    cases hnone
  | case2 i hlt line hline hdot =>
    obtain rfl : lineAt diff i = line := by simpa [smartlistGet_of_lt hlt] using hline
    rw [findDot, if_pos hlt, hline, linesToDot_of_lt hlt]
    simp [hdot, hlt.ne]
  | case3 i hlt line hline hdot hend =>
    obtain rfl : lineAt diff i = line := by simpa [smartlistGet_of_lt hlt] using hline
    have hnil : linesToDot diff (i + 1) = [] := by
      rw [linesToDot, hend, List.drop_length]
      rfl
    rw [findDot, if_pos hlt, hline, linesToDot_of_lt hlt, if_neg hdot, hnil]
    simp [hdot, hend, hlt]
  | case4 i hlt line hline hdot hend ih =>
    obtain rfl : lineAt diff i = line := by simpa [smartlistGet_of_lt hlt] using hline
    have hlt' : i + 1 < diff.length := by omega
    have hassoc : i + ((linesToDot diff (i + 1)).length + 1) =
        i + 1 + (linesToDot diff (i + 1)).length := by omega
    rw [findDot, if_pos hlt, hline, linesToDot_of_lt hlt, if_neg hdot, List.length_cons, hassoc]
    simp [hdot, hend, ih hlt'.le, hlt, hlt']
  | case5 i hge =>
    obtain rfl : i = diff.length := by omega
    rw [findDot, if_neg hge]
    simp [linesToDot]

theorem addLinesAt_eq {diff : List Line} (addedEnd : ℕ) {n : ℕ} (hn : addedEnd + n < diff.length)
    (cons2 : List Line) :
    addLinesAt diff addedEnd n cons2 = some ((diff.drop (addedEnd + 1)).take n ++ cons2) := by
  induction n generalizing cons2 with
  | zero => rfl
  | succ n ih =>
    have hget : (diff.drop (addedEnd + 1))[n]? = some (lineAt diff (addedEnd + (n + 1))) := by
      have hsum : addedEnd + 1 + n = addedEnd + (n + 1) := by omega
      rw [List.getElem?_drop, hsum, getElem?_eq_lineAt hn]
    rw [addLinesAt, smartlistGet_of_lt hn, Option.bind_some, ih (by omega), List.take_add_one, hget]
    simp

theorem applyAt_eq {cons1 : List Line} (diff : List Line) (i : ℕ) {j : ℤ} (hj : j ≤ cons1.length)
    (cons2 : List Line) :
    applyAt cons1 diff i j cons2 = some (applyLoop cons1 (diff.drop i) j cons2) := by
  induction hn : diff.length - i using Nat.strong_induction_on generalizing i j cons2 with
  | _ n ih =>
    have hjN : j.toNat ≤ cons1.length := by omega
    rw [applyAt]
    by_cases hlt : i < diff.length
    · rw [if_pos hlt, smartlistGet_of_lt hlt, drop_eq_lineAt_cons hlt, applyLoop]
      cases hread : readCommand cons1.length j (lineAt diff i) with
      | none => simp only [hread]
      | some cmd =>
        obtain ⟨start, stop, action⟩ := cmd
        simp only [hread, addUnchangedAt_eq stop hjN]
        set j' : ℤ := if action = 99 ∨ action = 100 then min (min j ↑stop - 1) (↑start - 1)
          else min j ↑stop with hj'
        have hle : j' ≤ cons1.length := by
          rw [hj']
          split_ifs <;> omega
        by_cases hadd : action = 97 ∨ action = 99
        · rw [if_pos hadd, if_pos hadd]
          have hlines := length_linesToDot_le diff (i + 1)
          have hdropped : (diff.drop (i + 1)).length = diff.length - (i + 1) := List.length_drop
          have hfind := findDot_eq (i + 1) hlt
          change _ = some (if (linesToDot diff (i + 1)).length = _ ∨ linesToDot diff (i + 1) = [] then
            none else applyLoop cons1 ((diff.drop (i + 1)).drop ((linesToDot diff (i + 1)).length + 1))
              j' (linesToDot diff (i + 1) ++ _))
          have hnil : linesToDot diff (i + 1) = [] ↔ (linesToDot diff (i + 1)).length = 0 :=
            List.length_eq_zero_iff.symm
          rw [hdropped, List.drop_drop]
          split
          next hnone =>
            rw [hfind] at hnone
            cases hnone
          next hnone =>
            rw [hfind, Option.some.injEq] at hnone
            rw [if_pos]
            split_ifs at hnone with hend
            left
            omega
          next dotIdx hsome =>
            rw [hfind, Option.some.injEq] at hsome
            split_ifs at hsome with hend
            obtain rfl := Option.some.inj hsome
            by_cases hempty : (linesToDot diff (i + 1)).length = 0
            · rw [if_pos (by omega), if_pos (Or.inr (hnil.mpr hempty))]
            · have hcount : i + 1 + (linesToDot diff (i + 1)).length - 1 - i =
                  (linesToDot diff (i + 1)).length := by omega
              rw [if_neg (by omega), hcount, addLinesAt_eq i (by omega), take_length_linesToDot,
                if_neg (by rw [hnil]; omega)]
              exact ih _ (by omega) _ hle _ rfl
        · rw [if_neg hadd, if_neg hadd]
          exact ih (diff.length - (i + 1)) (by omega) (i + 1) hle _ rfl
    · rw [if_neg hlt, List.drop_eq_nil_of_le (by omega), applyLoop, addUnchangedAt_eq 0 hjN]
      rfl

/-! ### Scripts -/

def commandOf (len1 : ℕ) (line : Line) : Option (ℕ × ℕ × UInt8) :=
  readCommand len1 (max len1 intMax : ℕ) line

theorem getLinenum_le {s rest : Bytes} {n : ℕ} (h : getLinenum s = some (n, rest)) :
    n ≤ intMax := by
  unfold getLinenum at h
  by_cases hdigit : torIsdigit (s.headD 0) = true
  · rw [if_pos hdigit] at h
    by_cases hle : valueOf (s.takeWhile torIsdigit) ≤ intMax
    · rw [if_pos hle] at h
      cases h
      exact hle
    · rw [if_neg hle] at h
      cases h
  · rw [if_neg hdigit] at h
    cases h

theorem readRangeEnd_spec {len1 start stop : ℕ} {ptr rest : Bytes} {hadRange endWasEof : Bool}
    (h : readRangeEnd len1 start ptr = some (stop, hadRange, endWasEof, rest)) :
    start < stop ∧ stop ≤ max len1 intMax ∧ hadRange = true := by
  unfold readRangeEnd at h
  by_cases heof : ptr.headD 0 = 36
  · rw [if_pos heof] at h
    by_cases hle : len1 ≤ start
    · simp [hle] at h
    · simp only [Option.bind_eq_bind, Option.bind_some, if_neg hle, Option.some.injEq,
        Prod.mk.injEq] at h
      obtain ⟨rfl, rfl, -⟩ := h
      exact ⟨Nat.lt_of_not_le hle, le_max_left _ _, rfl⟩
  · rw [if_neg heof] at h
    cases hnum : getLinenum ptr with
    | none => simp [hnum] at h
    | some r =>
      obtain ⟨n, ptr'⟩ := r
      have hn := getLinenum_le hnum
      by_cases hle : n ≤ start
      · simp [hnum, hle] at h
      · simp only [hnum, Option.map_some, Option.bind_eq_bind, Option.bind_some, if_neg hle,
          Option.some.injEq, Prod.mk.injEq] at h
        obtain ⟨rfl, rfl, -⟩ := h
        exact ⟨Nat.lt_of_not_le hle, hn.trans (le_max_right _ _), rfl⟩

def checkCommand (j : ℤ) (start : ℕ) (range : ℕ × Bool × Bool × Bytes) :
    Option (ℕ × ℕ × UInt8) :=
  let (stop, hadRange, endWasEof, ptr) := range
  let action := ptr.headD 0
  if stop > j then none
  else if action = 0 then none
  else if ptr.getD 1 0 ≠ 0 then none
  else if action ≠ 97 ∧ action ≠ 99 ∧ action ≠ 100 then none
  else if endWasEof = true ∧ action ≠ 100 then none
  else if hadRange = true ∧ action = 97 then none
  else some (start, stop, action)

def readRange (len1 : ℕ) (start : ℕ) (ptr : Bytes) : Option (ℕ × Bool × Bool × Bytes) :=
  if ptr.headD 0 = 44 then readRangeEnd len1 start ptr.tail else some (start, false, false, ptr)

theorem readCommand_eq (len1 : ℕ) (j : ℤ) (line : Line) :
    readCommand len1 j line =
      if line.length > 127 then none
      else (getLinenum line).bind fun r => (readRange len1 r.1 r.2).bind (checkCommand j r.1) := by
  unfold readCommand
  by_cases hlen : line.length > 127
  · rw [if_pos hlen, if_pos hlen]
  · rw [if_neg hlen, if_neg hlen]
    cases getLinenum line with
    | none => rfl
    | some r =>
      by_cases hcomma : r.2.headD 0 = 44
      · simp only [Option.bind_eq_bind, Option.bind_some, readRange, if_pos hcomma]
        rfl
      · simp only [Option.bind_eq_bind, Option.bind_some, readRange, if_neg hcomma]
        rfl

theorem readRange_spec {len1 start stop : ℕ} {ptr rest : Bytes} {hadRange endWasEof : Bool}
    (hstart : start ≤ intMax)
    (h : readRange len1 start ptr = some (stop, hadRange, endWasEof, rest)) :
    start ≤ stop ∧ stop ≤ max len1 intMax ∧ (hadRange = false → start = stop) := by
  unfold readRange at h
  by_cases hcomma : ptr.headD 0 = 44
  · rw [if_pos hcomma] at h
    obtain ⟨hlt, hle, rfl⟩ := readRangeEnd_spec h
    exact ⟨hlt.le, hle, fun hfalse => by cases hfalse⟩
  · rw [if_neg hcomma, Option.some.injEq, Prod.mk.injEq] at h
    obtain ⟨rfl, -⟩ := h
    exact ⟨le_refl _, hstart.trans (le_max_right _ _), fun _ => rfl⟩

theorem checkCommand_eq (j : ℤ) (start : ℕ) (range : ℕ × Bool × Bool × Bytes) :
    checkCommand j start range =
      if (range.1 : ℤ) > j then none else checkCommand range.1 start range := by
  by_cases hstop : (range.1 : ℤ) > j
  · rw [if_pos hstop]
    exact if_pos hstop
  · have hself : ¬ (range.1 : ℤ) > range.1 := lt_irrefl _
    rw [if_neg hstop]
    exact (if_neg hstop).trans (if_neg hself).symm

theorem checkCommand_spec {j : ℤ} {start stop : ℕ} {hadRange endWasEof : Bool} {ptr : Bytes}
    {cmd : ℕ × ℕ × UInt8} (h : checkCommand j start (stop, hadRange, endWasEof, ptr) = some cmd) :
    cmd = (start, stop, ptr.headD 0) ∧
      (ptr.headD 0 = 97 ∧ hadRange = false ∨ ptr.headD 0 = 99 ∨ ptr.headD 0 = 100) := by
  simp only [checkCommand] at h
  generalize ptr.headD 0 = action at h ⊢
  split_ifs at h with _ _ _ hknown _ hadd
  cases h
  refine ⟨rfl, ?_⟩
  cases hadRange <;> tauto

theorem readCommand_cases (len1 : ℕ) (line : Line) :
    (∀ j, readCommand len1 j line = none) ∨
      ∃ start stop action, start ≤ stop ∧ stop ≤ max len1 intMax ∧
        (action = 97 ∧ start = stop ∨ action = 99 ∨ action = 100) ∧
        ∀ j : ℤ, readCommand len1 j line = if stop > j then none else some (start, stop, action) := by
  simp only [readCommand_eq]
  by_cases hlen : line.length > 127
  · exact Or.inl fun j => if_pos hlen
  simp only [if_neg hlen]
  cases hnum : getLinenum line with
  | none => exact Or.inl fun j => rfl
  | some r =>
    obtain ⟨start, ptr⟩ := r
    simp only [Option.bind_some]
    cases hrange : readRange len1 start ptr with
    | none => exact Or.inl fun j => rfl
    | some range =>
      obtain ⟨stop, hadRange, endWasEof, rest⟩ := range
      obtain ⟨hle, hmax, hsame⟩ := readRange_spec (getLinenum_le hnum) hrange
      simp only [Option.bind_some]
      -- with the cursor at `stop` the order of the commands is no reason to refuse
      cases hcheck : checkCommand stop start (stop, hadRange, endWasEof, rest) with
      | none =>
        refine Or.inl fun j => ?_
        rw [checkCommand_eq, hcheck, ite_self]
      | some cmd =>
        obtain ⟨rfl, haction⟩ := checkCommand_spec hcheck
        refine Or.inr ⟨start, stop, rest.headD 0, hle, hmax, ?_, fun j => ?_⟩
        · exact haction.imp_left fun h => ⟨h.1, hsame h.2⟩
        · rw [checkCommand_eq, hcheck]

theorem readCommand_eq_bind (len1 : ℕ) (j : ℤ) (line : Line) :
    readCommand len1 j line =
      (commandOf len1 line).bind fun cmd => if (cmd.2.1 : ℤ) > j then none else some cmd := by
  rw [commandOf]
  obtain hnone | ⟨start, stop, action, -, hstop, -, hread⟩ := readCommand_cases len1 line
  · rw [hnone, hnone]
    rfl
  · have hfits : ¬ (stop : ℤ) > (max len1 intMax : ℕ) := by omega
    rw [hread, hread, if_neg hfits]
    rfl

theorem commandOf_spec {len1 start stop : ℕ} {line : Line} {action : UInt8}
    (h : commandOf len1 line = some (start, stop, action)) :
    start ≤ stop ∧ (action = 97 ∧ start = stop ∨ action = 99 ∨ action = 100) := by
  rw [commandOf] at h
  obtain hnone | ⟨start', stop', action', hle, hstop, haction, hread⟩ := readCommand_cases len1 line
  · rw [hnone] at h
    cases h
  · rw [hread, if_neg (by omega), Option.some.injEq, Prod.mk.injEq, Prod.mk.injEq] at h
    obtain ⟨rfl, rfl, rfl⟩ := h
    exact ⟨hle, haction⟩

def commandWith (start stop : ℕ) (action : UInt8) (block : List Line) : Ed.Command Line :=
  if action = 97 then .append start block
  else if action = 99 then .change start stop block
  else .delete start stop

/-- The commands of a script, in the order in which it lists them.  Lines to be added end with a
line with a dot. -/
def scriptOf (len1 : ℕ) (diff : List Line) : Option (List (Ed.Command Line)) :=
  match diff with
  | [] => some []
  | diffLine :: diff =>
    match commandOf len1 diffLine with
    | none => none
    | some (start, stop, action) =>
      if action = 97 ∨ action = 99 then
        let added := diff.takeWhile fun line => !linesEq line dot
        if added.length = diff.length then none
        else (scriptOf len1 (diff.drop (added.length + 1))).map
          (commandWith start stop action added :: ·)
      else (scriptOf len1 diff).map (commandWith start stop action [] :: ·)
termination_by diff.length
decreasing_by
  · simp only [List.length_drop, List.length_cons]
    omega
  · simp only [List.length_cons]
    omega

def AddsLines : Ed.Command Line → Prop
  | .append _ added => added ≠ []
  | .change _ _ added => added ≠ []
  | .delete _ _ => True

instance : DecidablePred AddsLines
  | .append _ added => inferInstanceAs (Decidable (added ≠ []))
  | .change _ _ added => inferInstanceAs (Decidable (added ≠ []))
  | .delete _ _ => inferInstanceAs (Decidable True)

/-- What is asked of the commands: they are in reverse order, and none adds zero lines. -/
def Fits (j : ℤ) (cmds : List (Ed.Command Line)) : Prop :=
  Ed.Descending j cmds ∧ ∀ c ∈ cmds, AddsLines c

theorem addUnchanged_eq {cons1 : List Line} (stop : ℕ) {j : ℕ} (hj : j ≤ cons1.length)
    (cons2 : List Line) :
    addUnchanged cons1 stop j cons2 = (cons1.take j).drop stop ++ cons2 := by
  induction j generalizing cons2 with
  | zero => simp [addUnchanged]
  | succ j ih =>
    have hlen : (cons1.take j).length = j := by
      rw [List.length_take]
      omega
    rw [addUnchanged]
    by_cases hstop : j + 1 > stop
    · rw [if_pos hstop, ih (by omega), take_succ_eq_lineAt hj,
        List.drop_append_of_le_length (by omega)]
      simp
    · rw [if_neg hstop, List.drop_eq_nil_of_le]
      · rfl
      · rw [List.length_take]
        omega

theorem fits_cons {j : ℤ} {c : Ed.Command Line} {cmds : List (Ed.Command Line)} :
    Fits j (c :: cmds) ↔ c.Ordered ∧ c.stop ≤ j ∧ AddsLines c ∧ Fits c.before cmds := by
  simp only [Fits, Ed.Descending, List.forall_mem_cons]
  tauto

def blockOf (action : UInt8) (diff : List Line) : List Line :=
  if action = 97 ∨ action = 99 then diff.takeWhile fun line => !linesEq line dot else []

def afterBlock (action : UInt8) (diff : List Line) : List Line :=
  if action = 97 ∨ action = 99 then diff.drop ((blockOf action diff).length + 1) else diff

def NoDot (action : UInt8) (diff : List Line) : Prop :=
  (action = 97 ∨ action = 99) ∧ (blockOf action diff).length = diff.length

instance (action : UInt8) (diff : List Line) : Decidable (NoDot action diff) :=
  inferInstanceAs (Decidable (_ ∧ _))

theorem length_afterBlock_le (action : UInt8) (diff : List Line) :
    (afterBlock action diff).length ≤ diff.length := by
  unfold afterBlock
  split_ifs
  · rw [List.length_drop]
    omega
  · exact le_refl _

theorem commandWith_spec {start stop : ℕ} {action : UInt8} (diff : List Line)
    (hle : start ≤ stop) (haction : action = 97 ∧ start = stop ∨ action = 99 ∨ action = 100) :
    (commandWith start stop action (blockOf action diff)).Ordered ∧
      (commandWith start stop action (blockOf action diff)).stop = stop ∧
      (commandWith start stop action (blockOf action diff)).block = blockOf action diff ∧
      (commandWith start stop action (blockOf action diff)).before =
        (if action = 99 ∨ action = 100 then (start : ℤ) - 1 else stop) ∧
      (AddsLines (commandWith start stop action (blockOf action diff)) ↔
        (action = 97 ∨ action = 99 → blockOf action diff ≠ [])) := by
  obtain ⟨rfl, rfl⟩ | rfl | rfl := haction
  · exact ⟨trivial, rfl, rfl, rfl, fun h _ => h, fun h => h (Or.inl rfl)⟩
  · exact ⟨hle, rfl, rfl, rfl, fun h _ => h, fun h => h (Or.inr rfl)⟩
  · exact ⟨hle, rfl, rfl, rfl, fun _ h => absurd h (by decide), fun _ => trivial⟩

theorem scriptOf_cons {len1 start stop : ℕ} {diffLine : Line} (diff : List Line) {action : UInt8}
    (hcmd : commandOf len1 diffLine = some (start, stop, action)) :
    (NoDot action diff → scriptOf len1 (diffLine :: diff) = none) ∧
      (¬ NoDot action diff → scriptOf len1 (diffLine :: diff) =
        (scriptOf len1 (afterBlock action diff)).map
          (commandWith start stop action (blockOf action diff) :: ·)) := by
  rw [scriptOf, hcmd]
  simp only [NoDot, afterBlock, blockOf]
  by_cases hadd : action = 97 ∨ action = 99
  · simp only [hadd, true_and, if_true]
    exact ⟨fun hdot => if_pos hdot, fun hdot => if_neg hdot⟩
  · simp only [hadd, false_and, if_false]
    exact ⟨False.elim, fun _ => trivial⟩

theorem applyLoop_cons {cons1 diff : List Line} {diffLine : Line} {start stop : ℕ} {action : UInt8}
    {j : ℤ} (hj : j ≤ cons1.length)
    (hcmd : commandOf cons1.length diffLine = some (start, stop, action)) (cons2 : List Line) :
    applyLoop cons1 (diffLine :: diff) j cons2 =
      let c := commandWith start stop action (blockOf action diff)
      if c.stop ≤ j ∧ ¬ NoDot action diff ∧ AddsLines c then
        applyLoop cons1 (afterBlock action diff) c.before
          (c.block ++ ((cons1.take j.toNat).drop c.stop ++ cons2))
      else none := by
  obtain ⟨hle, haction⟩ := commandOf_spec hcmd
  obtain ⟨-, hstop, hblock, hbefore, hadds⟩ := commandWith_spec diff hle haction
  rw [applyLoop, readCommand_eq_bind, hcmd, Option.bind_some]
  simp only [hstop, hblock, hbefore, hadds]
  by_cases hj' : (stop : ℤ) > j
  · rw [if_pos hj', if_neg fun h => absurd h.1 (not_le.mpr hj')]
  · -- the command is not behind the cursor, so `start` and `stop` are the lesser ones
    have hcursor : (if action = 99 ∨ action = 100 then min (min j stop - 1) ((start : ℤ) - 1)
        else min j stop) = if action = 99 ∨ action = 100 then (start : ℤ) - 1 else stop := by
      split_ifs <;> omega
    have hjN : j.toNat ≤ cons1.length := by omega
    rw [if_neg hj']
    simp only [hcursor, addUnchanged_eq stop hjN, NoDot, afterBlock, blockOf]
    generalize (if action = 99 ∨ action = 100 then (start : ℤ) - 1 else stop) = next
    by_cases hadd : action = 97 ∨ action = 99
    · simp only [hadd, if_true, true_and, true_imp_iff, not_lt.mp hj']
      by_cases hdot : (diff.takeWhile fun line => !linesEq line dot).length = diff.length
      · rw [if_pos (Or.inl hdot), if_neg fun h => h.1 hdot]
      · by_cases hempty : (diff.takeWhile fun line => !linesEq line dot) = []
        · rw [if_pos (Or.inr hempty), if_neg fun h => h.2 hempty]
        · rw [if_neg (not_or_intro hdot hempty), if_pos ⟨hdot, hempty⟩]
    · simp only [hadd, if_false, false_and, false_imp_iff, not_lt.mp hj']
      exact (if_pos ⟨trivial, not_false, trivial⟩).symm

theorem script_cons_iff {cons1 : List Line} {c : Ed.Command Line} (hordered : c.Ordered)
    (rest : Option (List (Ed.Command Line))) (j : ℤ) (cons2 res : List Line) :
    (∃ cmds, rest.map (c :: ·) = some cmds ∧ Fits j cmds ∧
        res = Ed.fromEnd cons1 cmds j cons2) ↔
      c.stop ≤ j ∧ AddsLines c ∧ ∃ cmds, rest = some cmds ∧ Fits c.before cmds ∧
        res = Ed.fromEnd cons1 cmds c.before
          (c.block ++ ((cons1.take j.toNat).drop c.stop ++ cons2)) := by
  constructor
  · rintro ⟨cmds, hcmds, hfits, rfl⟩
    obtain ⟨cs, hcs, rfl⟩ := Option.map_eq_some_iff.mp hcmds
    obtain ⟨-, hstop, hadds, hrest⟩ := fits_cons.mp hfits
    exact ⟨hstop, hadds, cs, hcs, hrest, rfl⟩
  · rintro ⟨hstop, hadds, cs, rfl, hrest, rfl⟩
    exact ⟨c :: cs, rfl, fits_cons.mpr ⟨hordered, hstop, hadds, hrest⟩, rfl⟩

theorem applyLoop_eq_some_iff {cons1 : List Line} (diff : List Line) {j : ℤ} (hj : j ≤ cons1.length)
    (cons2 res : List Line) :
    applyLoop cons1 diff j cons2 = some res ↔
      ∃ cmds, scriptOf cons1.length diff = some cmds ∧ Fits j cmds ∧
        res = Ed.fromEnd cons1 cmds j cons2 := by
  induction hn : diff.length using Nat.strong_induction_on generalizing diff j cons2 with
  | _ n ih =>
    cases diff with
    | nil =>
      have hjN : j.toNat ≤ cons1.length := by omega
      rw [applyLoop, scriptOf, addUnchanged_eq 0 hjN, Option.some.injEq]
      constructor
      · rintro rfl
        exact ⟨[], rfl, ⟨trivial, fun c hc => absurd hc List.not_mem_nil⟩, rfl⟩
      · rintro ⟨cmds, hcmds, -, rfl⟩
        obtain rfl := Option.some.inj hcmds
        rfl
    | cons diffLine diff =>
      cases hcmd : commandOf cons1.length diffLine with
      | none =>
        rw [applyLoop, scriptOf, readCommand_eq_bind, hcmd]
        simp
      | some cmd =>
        obtain ⟨start, stop, action⟩ := cmd
        obtain ⟨hle, haction⟩ := commandOf_spec hcmd
        obtain ⟨hordered, hstop, -⟩ := commandWith_spec diff hle haction
        obtain ⟨hnone, hsome⟩ := scriptOf_cons diff hcmd
        rw [applyLoop_cons hj hcmd]
        dsimp only
        by_cases hdot : NoDot action diff
        · rw [hnone hdot, if_neg fun h => h.2.1 hdot]
          simp
        · -- the lines of the command go with it, so the rest is a shorter script
          rw [hsome hdot, script_cons_iff hordered]
          by_cases hfits : (commandWith start stop action (blockOf action diff)).stop ≤ j ∧
              AddsLines (commandWith start stop action (blockOf action diff))
          · have hbefore := (Ed.before_le_stop hordered).trans (hfits.1.trans hj)
            have hshort := length_afterBlock_le action diff
            rw [if_pos ⟨hfits.1, hdot, hfits.2⟩,
              ih _ (by rw [← hn]; exact Nat.lt_succ_of_le hshort) _ hbefore _ rfl]
            tauto
          · rw [if_neg (by tauto)]
            refine iff_of_false (by simp) ?_
            tauto

/-- No index is out of range, and what is accepted gives what ed makes of the base, its commands
carried out in the order in which the script lists them. -/
def EditsBase (cons1 diff : List Line) (diffStartingLine : ℕ) : Prop :=
  ∃ result, applyAt cons1 diff diffStartingLine cons1.length [] = some result ∧
    ∀ res, result = some res →
      ∃ cmds, scriptOf cons1.length (diff.drop diffStartingLine) = some cmds ∧
        Ed.Applied cons1 cmds cons1 res

/-- `get_linenum` admits line 0, and it is not looked at again: `0d` is accepted, and `0c` adds lines
in front and changes none. -/
theorem applyEdDiff_edits_iff (cons1 diff : List Line) (diffStartingLine : ℕ) :
    EditsBase cons1 diff diffStartingLine ↔
      ∀ cmds, scriptOf cons1.length (diff.drop diffStartingLine) = some cmds →
        Fits cons1.length cmds → ∀ c ∈ cmds, ¬ c.AtLineZero := by
  have hrun := applyAt_eq diff diffStartingLine (le_refl (cons1.length : ℤ)) []
  have hiff := applyLoop_eq_some_iff (diff.drop diffStartingLine)
    (le_refl (cons1.length : ℤ)) []
  have happlied : ∀ {cmds}, Fits cons1.length cmds →
      (Ed.Applied cons1 cmds cons1 (Ed.fromEnd cons1 cmds cons1.length []) ↔
        ∀ c ∈ cmds, ¬ c.AtLineZero) := by
    intro cmds hfits
    have hbase := Ed.applied_fromEnd_iff hfits.1 (le_refl (cons1.length : ℤ)) []
    rwa [Int.toNat_natCast, List.take_length, List.append_nil] at hbase
  constructor
  · rintro ⟨result, hresult, hedits⟩ cmds hcmds hfits
    obtain rfl := Option.some.inj (hrun.symm.trans hresult)
    obtain ⟨cmds', hcmds', happ⟩ := hedits _ ((hiff _).mpr ⟨cmds, hcmds, hfits, rfl⟩)
    obtain rfl := Option.some.inj (hcmds.symm.trans hcmds')
    exact (happlied hfits).mp happ
  · intro hzero
    refine ⟨_, hrun, fun res hres => ?_⟩
    obtain ⟨cmds, hcmds, hfits, rfl⟩ := (hiff res).mp hres
    exact ⟨cmds, hcmds, (happlied hfits).mpr (hzero cmds hcmds hfits)⟩

theorem line_zero_deleted :
    applyEdDiff [ascii "A"] [ascii "0d"] 0 = some [ascii "A"] ∧
      ¬ EditsBase [ascii "A"] [ascii "0d"] 0 := by
  refine ⟨by decide +kernel, ?_⟩
  rintro ⟨result, hresult, hedits⟩
  have hrun : applyAt [ascii "A"] [ascii "0d"] 0 1 [] = some (some [ascii "A"]) := by
    decide +kernel
  have hscript : scriptOf 1 [ascii "0d"] = some [.delete 0 0] := by decide +kernel
  obtain rfl := Option.some.inj (hrun.symm.trans hresult)
  obtain ⟨cmds, hcmds, happlied⟩ := hedits _ rfl
  obtain rfl := Option.some.inj (hscript.symm.trans hcmds)
  obtain ⟨-, next, hnext, -⟩ := happlied
  cases hnext

end Consdiff
