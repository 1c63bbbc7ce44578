/-
The diff is as short as it can be (`feature/dircommon/consdiff.c`).

The rows of `lcs_lengths` hold the lengths of longest common subsequences, of the first slice with
every beginning of the second, or of their ends (`lcsLengths_forward`, `lcsLengths_backward`), so
that the column at which the second slice is split is the best one.  Trimming, both base cases and
the two halves keep as many lines as a longest common subsequence has (`calcChanges_minimal`).
-/
import LibEltor.ConsdiffChanges
import LibEltor.CommonSubsequence

open CommonSubsequence

namespace Consdiff

variable {a b : List Line} {s₁ s₂ : Slice} {c₁ c₂ : Bitarray}

/-! ### The rows -/

structure Row (a b : List Line) (row : List ℕ) : Prop where
  length : row.length = b.length + 1
  longest : ∀ j ≤ b.length, LongestCommon a (b.take j) (row.getD j 0)

theorem row_nil (b : List Line) : Row [] b (List.replicate (b.length + 1) 0) where
  length := List.length_replicate
  longest j hj := by
    rw [List.getD_replicate 0 (Nat.lt_succ_of_le hj)]
    exact .nil_left _

/-- One line of the first slice against what is left of the second, `b` being behind. -/
theorem lcsRow_spec (x : Line) (rest : List Line) (b : List Line) (last : ℕ) (prev : List ℕ)
    (hlast : LongestCommon (a ++ [x]) b last) (hprev : prev.length = rest.length + 1)
    (hlongest : ∀ j ≤ rest.length, LongestCommon a (b ++ rest.take j) (prev.getD j 0)) :
    (lcsRow x last rest prev).length = rest.length ∧ ∀ j < rest.length,
      LongestCommon (a ++ [x]) (b ++ rest.take (j + 1)) ((lcsRow x last rest prev).getD j 0) := by
  induction rest generalizing b last prev with
  | nil => simp [lcsRow]
  | cons y rest ih =>
    obtain ⟨p, p', prev, rfl⟩ : ∃ p p' prev', prev = p :: p' :: prev' := by
      rcases prev with _ | ⟨p, _ | ⟨p', prev⟩⟩
      · simp at hprev
      · simp at hprev
      · exact ⟨p, p', prev, rfl⟩
    have hp : LongestCommon a b p := by simpa using hlongest 0 (Nat.zero_le _)
    have hp' : LongestCommon a (b ++ [y]) p' := by simpa using hlongest 1 (by simp)
    -- the length at this column
    have hhere : LongestCommon (a ++ [x]) (b ++ [y])
        (if linesEq x y then p + 1 else max last p') := by
      by_cases hxy : x = y
      · subst hxy
        simpa [linesEq] using hp.concat x
      · simpa [linesEq, hxy] using LongestCommon.concat_ne hxy hlast hp'
    obtain ⟨hlength, hrest⟩ := ih (b ++ [y]) _ (p' :: prev) hhere (by simpa using hprev)
      fun j hj => by simpa using hlongest (j + 1) (by simpa using hj)
    refine ⟨by simp [lcsRow, hlength], fun j hj => ?_⟩
    cases j with
    | zero => simpa [lcsRow] using hhere
    | succ j => simpa [lcsRow] using hrest j (by simpa using hj)

theorem Row.next {row : List ℕ} (h : Row a b row) (x : Line) :
    Row (a ++ [x]) b (0 :: lcsRow x 0 b row) := by
  obtain ⟨hlength, hlongest⟩ := lcsRow_spec (a := a) x b [] 0 row (.nil_right _) h.length
    (by simpa using h.longest)
  refine ⟨by rw [List.length_cons, hlength], fun j hj => ?_⟩
  cases j with
  | zero => simpa using LongestCommon.nil_right (a ++ [x])
  | succ j => simpa using hlongest j hj

theorem Row.foldl (rest : List Line) {row : List ℕ} (h : Row a b row) :
    Row (a ++ rest) b (rest.foldl (fun prev line1 => 0 :: lcsRow line1 0 b prev) row) := by
  induction rest generalizing a row with
  | nil => simpa using h
  | cons x rest ih => simpa using ih (h.next x)

theorem Slice.lines_length (s : Slice) : s.lines.length = s.len := by
  simp [Slice.lines]

theorem lcsLengths_forward (s₁ s₂ : Slice) : Row s₁.lines s₂.lines (lcsLengths s₁ s₂ 1) := by
  have h := (row_nil s₂.lines).foldl s₁.lines
  rw [s₂.lines_length] at h
  simpa [lcsLengths] using h

theorem lcsLengths_backward (s₁ s₂ : Slice) :
    Row s₁.lines.reverse s₂.lines.reverse (lcsLengths s₁ s₂ (-1)) := by
  have h := (row_nil s₂.lines.reverse).foldl s₁.lines.reverse
  rw [List.length_reverse, s₂.lines_length] at h
  simpa [lcsLengths] using h

section BestColumn

variable (lensTop lensBot : List ℕ) (len : ℕ)

def columnSum (i : ℕ) : ℕ := lensTop.getD i 0 + lensBot.getD (len - i) 0

/-- The columns up to `n` have been looked at, and the best is among them. -/
structure BestColumn (n : ℕ) (best : ℕ × ℤ) : Prop where
  column : best.1 ≤ n
  sum : best.2 = columnSum lensTop lensBot len best.1
  max : ∀ i ≤ n, columnSum lensTop lensBot len i ≤ columnSum lensTop lensBot len best.1

theorem bestColumn_foldl (n : ℕ) : BestColumn lensTop lensBot len n
    ((List.range (n + 1)).foldl (betterColumn lensTop lensBot len) (0, -1)) := by
  induction n with
  | zero =>
    have hpos : (-1 : ℤ) < columnSum lensTop lensBot len 0 := by omega
    have hfirst : betterColumn lensTop lensBot len (0, -1) 0 =
        (0, (columnSum lensTop lensBot len 0 : ℤ)) := by
      simp only [columnSum, Nat.cast_add] at hpos ⊢
      rw [betterColumn, if_pos hpos]
    simp only [List.range_succ, List.range_zero, List.nil_append, List.foldl_cons, List.foldl_nil,
      hfirst]
    exact ⟨le_rfl, rfl, fun i hi => by rw [Nat.le_zero.mp hi]⟩
  | succ n ih =>
    rw [List.range_succ, List.foldl_append, List.foldl_cons, List.foldl_nil]
    generalize (List.range (n + 1)).foldl (betterColumn lensTop lensBot len) (0, -1) = best at ih ⊢
    have hcast : ((columnSum lensTop lensBot len (n + 1) : ℕ) : ℤ) =
        lensTop.getD (n + 1) 0 + lensBot.getD (len - (n + 1)) 0 := by
      rw [columnSum, Nat.cast_add]
    have hsum := ih.sum
    rw [betterColumn]
    split_ifs with hbetter
    · rw [← hcast, hsum] at hbetter
      refine ⟨le_rfl, hcast.symm, fun i hi => ?_⟩
      rcases Nat.le_succ_iff.mp hi with hold | rfl
      · exact (ih.max i hold).trans (by exact_mod_cast hbetter.le)
      · exact le_rfl
    · rw [← hcast, hsum] at hbetter
      refine ⟨ih.column.trans (Nat.le_succ n), hsum, fun i hi => ?_⟩
      rcases Nat.le_succ_iff.mp hi with hold | rfl
      · exact ih.max i hold
      · exact_mod_cast not_lt.mp hbetter

end BestColumn

theorem optimalColumnToSplit_longest (top bot slice2 : Slice) {m n : ℕ}
    (htop : LongestCommon top.lines (slice2.lines.take (optimalColumnToSplit top bot slice2)) m)
    (hbot : LongestCommon bot.lines (slice2.lines.drop (optimalColumnToSplit top bot slice2)) n) :
    LongestCommon (top.lines ++ bot.lines) slice2.lines (m + n) := by
  set lensTop := lcsLengths top slice2 1 with hlensTop
  set lensBot := lcsLengths bot slice2 (-1) with hlensBot
  have hbest := bestColumn_foldl lensTop lensBot slice2.len slice2.len
  have hf : ∀ i ≤ slice2.lines.length,
      LongestCommon top.lines (slice2.lines.take i) (lensTop.getD i 0) :=
    (lcsLengths_forward top slice2).longest
  have hg : ∀ i ≤ slice2.lines.length,
      LongestCommon bot.lines (slice2.lines.drop i) (lensBot.getD (slice2.len - i) 0) := by
    intro i hi
    have hrow := (lcsLengths_backward bot slice2).longest (slice2.len - i)
      (by rw [List.length_reverse, slice2.lines_length]; exact Nat.sub_le _ _)
    have hdrop : (slice2.lines.reverse.take (slice2.len - i)).reverse = slice2.lines.drop i := by
      rw [slice2.lines_length] at hi
      rw [List.take_reverse, List.reverse_reverse, slice2.lines_length, Nat.sub_sub_self hi]
    simpa [hdrop] using hrow.reverse
  have hk : optimalColumnToSplit top bot slice2 ≤ slice2.lines.length := by
    rw [slice2.lines_length]
    exact optimalColumnToSplit_le top bot slice2
  have hmax := LongestCommon.append (f := fun i => lensTop.getD i 0)
    (g := fun i => lensBot.getD (slice2.len - i) 0) hf hg hk fun i hi =>
      hbest.max i (by rwa [slice2.lines_length] at hi)
  rwa [htop.unique (hf _ hk), hbot.unique (hg _ hk)]

/-! ### Keeping the most -/

theorem lines_append (list : List Line) (o m n : ℕ) :
    Slice.lines ⟨list, o, m + n⟩ = Slice.lines ⟨list, o, m⟩ ++ Slice.lines ⟨list, o + m, n⟩ := by
  have hrange : List.range' o (m + n) = List.range' o m ++ List.range' (o + m) n := by
    rw [← List.range'_append_1]
  simp only [Slice.lines, hrange, List.map_append]

theorem lines_one (list : List Line) (o : ℕ) : Slice.lines ⟨list, o, 1⟩ = [lineAt list o] := rfl

theorem mem_lines {s : Slice} {x : Line} :
    x ∈ s.lines ↔ smartlistSliceStringPos s x ≠ none := by
  rw [smartlistSliceStringPos, ne_eq, List.find?_eq_none, Slice.lines, List.mem_map]
  simp [linesEq, and_assoc]

def KeepsMost (s₁ s₂ : Slice) (r : Bitarray × Bitarray) : Prop :=
  LongestCommon s₁.lines s₂.lines (kept r.1 s₁).length

theorem keepsMost_setChanged (hlen : s₁.len ≤ 1) (hclear : Clear c₁ s₁) :
    KeepsMost s₁ s₂ (setChanged s₁ s₂ c₁ c₂) := by
  obtain ⟨l₁, o₁, n₁⟩ := s₁
  obtain rfl | rfl : n₁ = 0 ∨ n₁ = 1 := by
    simp only at hlen
    omega
  · exact .nil_left _
  · have hopen : c₁ o₁ = false := hclear o₁ le_rfl (Nat.lt_succ_self _)
    have hsingle := LongestCommon.singleton (lineAt l₁ o₁) s₂.lines
    rw [KeepsMost, lines_one, kept_one]
    simp only [setChanged, if_true, true_and]
    by_cases hpos : smartlistSliceStringPos s₂ (lineAt l₁ o₁) = none
    · have hmem : lineAt l₁ o₁ ∉ s₂.lines := fun h => mem_lines.mp h hpos
      simpa [hpos, hmem, bitarraySet] using hsingle
    · have hmem : lineAt l₁ o₁ ∈ s₂.lines := mem_lines.mpr hpos
      simpa [hpos, hmem, hopen] using hsingle

theorem KeepsMost.front {l₁ l₂ : List Line} {o₁ o₂ n₁ n₂ : ℕ} {r : Bitarray × Bitarray}
    (heq : lineAt l₁ o₁ = lineAt l₂ o₂) (hfirst : r.1 o₁ = false)
    (h : KeepsMost ⟨l₁, o₁ + 1, n₁⟩ ⟨l₂, o₂ + 1, n₂⟩ r) :
    KeepsMost ⟨l₁, o₁, 1 + n₁⟩ ⟨l₂, o₂, 1 + n₂⟩ r := by
  have hlongest := h.cons (lineAt l₁ o₁)
  rw [KeepsMost, lines_append, lines_append, lines_one, lines_one, kept_append, kept_one, hfirst,
    ← heq]
  simpa [Nat.add_comm] using hlongest

theorem KeepsMost.back {l₁ l₂ : List Line} {o₁ o₂ n₁ n₂ : ℕ} {r : Bitarray × Bitarray}
    (heq : lineAt l₁ (o₁ + n₁) = lineAt l₂ (o₂ + n₂)) (hlast : r.1 (o₁ + n₁) = false)
    (h : KeepsMost ⟨l₁, o₁, n₁⟩ ⟨l₂, o₂, n₂⟩ r) :
    KeepsMost ⟨l₁, o₁, n₁ + 1⟩ ⟨l₂, o₂, n₂ + 1⟩ r := by
  have hlongest := h.concat (lineAt l₁ (o₁ + n₁))
  rw [KeepsMost, lines_append, lines_append, lines_one, lines_one, kept_append, kept_one, hlast,
    ← heq]
  simpa using hlongest

theorem KeepsMost.halves {l₁ l₂ : List Line} {o₁ o₂ m₁ m₂ n₁ n₂ : ℕ} {r r' : Bitarray × Bitarray}
    (hcolumn : m₂ = optimalColumnToSplit ⟨l₁, o₁, m₁⟩ ⟨l₁, o₁ + m₁, n₁⟩ ⟨l₂, o₂, m₂ + n₂⟩)
    (hkept : kept r'.1 ⟨l₁, o₁, m₁⟩ = kept r.1 ⟨l₁, o₁, m₁⟩)
    (htop : KeepsMost ⟨l₁, o₁, m₁⟩ ⟨l₂, o₂, m₂⟩ r)
    (hbot : KeepsMost ⟨l₁, o₁ + m₁, n₁⟩ ⟨l₂, o₂ + m₂, n₂⟩ r') :
    KeepsMost ⟨l₁, o₁, m₁ + n₁⟩ ⟨l₂, o₂, m₂ + n₂⟩ r' := by
  have hlines := lines_append l₂ o₂ m₂ n₂
  have hm₂ : (Slice.lines ⟨l₂, o₂, m₂⟩).length = m₂ := Slice.lines_length _
  rw [KeepsMost, lines_append, kept_append, hkept, List.length_append]
  refine optimalColumnToSplit_longest _ _ _ ?_ ?_
  · rw [← hcolumn, hlines, List.take_left' hm₂]
    exact htop
  · rw [← hcolumn, hlines, List.drop_left' hm₂]
    exact hbot

theorem Marks.keepsMost {r : Bitarray × Bitarray} (h : Marks s₁ s₂ c₁ c₂ r) (hclear₁ : Clear c₁ s₁)
    (hclear₂ : Clear c₂ s₂) : KeepsMost s₁ s₂ r := by
  induction h with
  | @front l₁ l₂ o₁ o₂ n₁ n₂ c₁ c₂ r heq h ih =>
    have hclear₁' : Clear c₁ ⟨l₁, o₁ + 1, n₁⟩ := hclear₁.mono (Nat.le_succ _) (by simp only; omega)
    have hclear₂' : Clear c₂ ⟨l₂, o₂ + 1, n₂⟩ := hclear₂.mono (Nat.le_succ _) (by simp only; omega)
    -- the call for the rest leaves the first line alone
    have hframe := (h.matched hclear₁' hclear₂').frame₁ o₁ (.inl (Nat.lt_succ_self _))
    have hfirst := hframe.trans (hclear₁ o₁ le_rfl (by simp only; omega))
    exact .front heq hfirst (ih hclear₁' hclear₂')
  | @back l₁ l₂ o₁ o₂ n₁ n₂ c₁ c₂ r heq h ih =>
    have hclear₁' : Clear c₁ ⟨l₁, o₁, n₁⟩ := hclear₁.mono le_rfl (by simp only; omega)
    have hclear₂' : Clear c₂ ⟨l₂, o₂, n₂⟩ := hclear₂.mono le_rfl (by simp only; omega)
    have hframe := (h.matched hclear₁' hclear₂').frame₁ (o₁ + n₁) (.inr le_rfl)
    have hlast := hframe.trans (hclear₁ _ (Nat.le_add_right _ _) (by simp only; omega))
    exact .back heq hlast (ih hclear₁' hclear₂')
  | short hlen => exact keepsMost_setChanged hlen hclear₁
  | @shortSecond s₁ s₂ c₁ c₂ hlen =>
    have hsame : kept (setChanged s₂ s₁ c₂ c₁).swap.1 s₁ = kept (setChanged s₂ s₁ c₂ c₁).1 s₂ :=
      (matched_setChanged hlen hclear₂ hclear₁).same.symm
    rw [KeepsMost, hsame]
    exact (keepsMost_setChanged hlen hclear₂).symm
  | @halves l₁ l₂ o₁ o₂ m₁ m₂ n₁ n₂ c₁ c₂ r r' hcolumn h h' ih ih' =>
    have hclear₁' : Clear c₁ ⟨l₁, o₁, m₁⟩ := hclear₁.mono le_rfl (by simp only; omega)
    have hclear₂' : Clear c₂ ⟨l₂, o₂, m₂⟩ := hclear₂.mono le_rfl (by simp only; omega)
    obtain ⟨hrest₁, hrest₂⟩ := (h.matched hclear₁' hclear₂').clear_rest hclear₁ hclear₂
    -- the second call leaves the marks of the first halves alone
    have hkept : kept r'.1 ⟨l₁, o₁, m₁⟩ = kept r.1 ⟨l₁, o₁, m₁⟩ :=
      kept_congr fun i _ hhigh => (h'.matched hrest₁ hrest₂).frame₁ i (.inl hhigh)
    exact .halves hcolumn hkept (ih hclear₁' hclear₂') (ih' hrest₁ hrest₂)

/-- The lines that are not marked are the same in both slices, nothing outside of the slices is marked,
and no common subsequence of the two is longer than what is not marked. -/
theorem calcChanges_minimal (s₁ s₂ : Slice) (c₁ c₂ : Bitarray) (hclear₁ : Clear c₁ s₁)
    (hclear₂ : Clear c₂ s₂) : Matched s₁ s₂ c₁ c₂ (calcChanges s₁ s₂ c₁ c₂) ∧
      KeepsMost s₁ s₂ (calcChanges s₁ s₂ c₁ c₂) :=
  have hmarks := calcChanges_marks s₁ s₂ c₁ c₂
  ⟨hmarks.matched hclear₁ hclear₂, hmarks.keepsMost hclear₁ hclear₂⟩

def oldLines : Slice := ⟨[[1], [2], [3]], 0, 3⟩

def newLines : Slice := ⟨[[2], [3], [4]], 0, 3⟩

/-- Two of the three lines stay. -/
theorem calcChanges_minimal_threeLines :
    (kept (calcChanges oldLines newLines bitarrayInitZero bitarrayInitZero).1 oldLines).length = 2 := by
  have hmost := (calcChanges_minimal oldLines newLines bitarrayInitZero bitarrayInitZero
    (fun _ _ _ => rfl) (fun _ _ _ => rfl)).2
  have hrow : LongestCommon oldLines.lines newLines.lines 2 :=
    (lcsLengths_forward oldLines newLines).longest 3 le_rfl
  exact hmost.unique hrow

end Consdiff
