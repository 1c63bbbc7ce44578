/-
What differs between two runs of lines (`feature/dircommon/consdiff.c`).

A divide and conquer over slices marks the lines that are gone and the lines that are new.  Where
it splits is found by the lengths of longest common subsequences; that the marks are right does not
depend on it: the lines that are not marked are the same on both sides (`calcChanges_spec`).  What the
recursion can do is said once (`Marks`, `calcChanges_marks`), for this and for how short the diff is.
-/
import Mathlib
import LibEltor.Bytes

namespace Consdiff

/-- The contents of a `cdline_t`. -/
abbrev Line := Bytes

def linesEq (a b : Line) : Bool := decide (a = b)

/-- `smartlist_get`; the indices are in range. -/
def lineAt (list : List Line) (i : ℕ) : Line := list.getD i []

structure Slice where
  list : List Line
  offset : ℕ
  len : ℕ

def smartlistSlice (list : List Line) (start stop : ℕ) : Slice := ⟨list, start, stop - start⟩

abbrev Bitarray := ℕ → Bool

def bitarrayInitZero : Bitarray := fun _ => false

def bitarraySet (b : Bitarray) (i : ℕ) : Bitarray := Function.update b i true

def Slice.lines (s : Slice) : List Line := (List.range' s.offset s.len).map (lineAt s.list)

/-- One line against those of the second slice: `last` is the length before, `prev` the row of the
line before. -/
def lcsRow (line1 : Line) (last : ℕ) : List Line → List ℕ → List ℕ
  | line2 :: rest, p :: p' :: prev =>
    let length := if linesEq line1 line2 then p + 1 else max last p'
    length :: lcsRow line1 length rest (p' :: prev)
  | _, _ => []

/-- `direction` -1 goes through both slices from the end. -/
def lcsLengths (slice1 slice2 : Slice) (direction : ℤ) : List ℕ :=
  let lines1 := if direction = -1 then slice1.lines.reverse else slice1.lines
  let lines2 := if direction = -1 then slice2.lines.reverse else slice2.lines
  lines1.foldl (fun prev line1 => 0 :: lcsRow line1 0 lines2 prev)
    (List.replicate (slice2.len + 1) 0)

def betterColumn (lensTop lensBot : List ℕ) (len : ℕ) (best : ℕ × ℤ) (i : ℕ) : ℕ × ℤ :=
  let sum : ℤ := lensTop.getD i 0 + lensBot.getD (len - i) 0
  if sum > best.2 then (i, sum) else best

def optimalColumnToSplit (top bot slice2 : Slice) : ℕ :=
  ((List.range (slice2.len + 1)).foldl
    (betterColumn (lcsLengths top slice2 1) (lcsLengths bot slice2 (-1)) slice2.len) (0, -1)).1

theorem optimalColumnToSplit_le (top bot slice2 : Slice) :
    optimalColumnToSplit top bot slice2 ≤ slice2.len := by
  have h : ∀ (l : List ℕ) (best : ℕ × ℤ), best.1 ≤ slice2.len → (∀ i ∈ l, i ≤ slice2.len) →
      (l.foldl (betterColumn (lcsLengths top slice2 1) (lcsLengths bot slice2 (-1)) slice2.len)
        best).1 ≤ slice2.len := by
    intro l
    induction l with
    | nil => exact fun best hbest _ => hbest
    | cons i l ih =>
      intro best hbest hl
      refine ih _ ?_ fun j hj => hl j (List.mem_cons_of_mem _ hj)
      unfold betterColumn
      simp only
      split_ifs
      · exact hl i List.mem_cons_self
      · exact hbest
  exact h _ _ (Nat.zero_le _) fun i hi => Nat.le_of_lt_succ (List.mem_range.mp hi)

/-! ### Marking -/

def trimFront (slice1 slice2 : Slice) : Slice × Slice :=
  if slice1.len > 0 ∧ slice2.len > 0 ∧
      linesEq (lineAt slice1.list slice1.offset) (lineAt slice2.list slice2.offset) = true then
    trimFront ⟨slice1.list, slice1.offset + 1, slice1.len - 1⟩
      ⟨slice2.list, slice2.offset + 1, slice2.len - 1⟩
  else (slice1, slice2)
termination_by slice1.len

def trimBack (slice1 slice2 : Slice) : Slice × Slice :=
  if slice1.len > 0 ∧ slice2.len > 0 ∧
      linesEq (lineAt slice1.list (slice1.offset + slice1.len - 1))
        (lineAt slice2.list (slice2.offset + slice2.len - 1)) = true then
    trimBack ⟨slice1.list, slice1.offset, slice1.len - 1⟩
      ⟨slice2.list, slice2.offset, slice2.len - 1⟩
  else (slice1, slice2)
termination_by slice1.len

def trimSlices (slice1 slice2 : Slice) : Slice × Slice :=
  let s := trimFront slice1 slice2
  trimBack s.1 s.2

def smartlistSliceStringPos (slice : Slice) (string : Line) : Option ℕ :=
  (List.range' slice.offset slice.len).find? fun i => linesEq (lineAt slice.list i) string

def setChanged (slice1 slice2 : Slice) (changed1 changed2 : Bitarray) : Bitarray × Bitarray :=
  let toskip := if slice1.len = 1 then
    smartlistSliceStringPos slice2 (lineAt slice1.list slice1.offset) else none
  (if slice1.len = 1 ∧ toskip = none then bitarraySet changed1 slice1.offset else changed1,
    (List.range' slice2.offset slice2.len).foldl
      (fun changed i => if some i ≠ toskip then bitarraySet changed i else changed) changed2)

theorem trimFront_len_le (slice1 slice2 : Slice) :
    (trimFront slice1 slice2).1.len ≤ slice1.len := by
  induction slice1, slice2 using trimFront.induct with
  | case1 slice1 slice2 h ih =>
    rw [trimFront, if_pos h]
    exact ih.trans (Nat.sub_le _ _)
  | case2 slice1 slice2 h => rw [trimFront, if_neg h]

theorem trimBack_len_le (slice1 slice2 : Slice) :
    (trimBack slice1 slice2).1.len ≤ slice1.len := by
  induction slice1, slice2 using trimBack.induct with
  | case1 slice1 slice2 h ih =>
    rw [trimBack, if_pos h]
    exact ih.trans (Nat.sub_le _ _)
  | case2 slice1 slice2 h => rw [trimBack, if_neg h]

theorem trimSlices_len_le (slice1 slice2 : Slice) :
    (trimSlices slice1 slice2).1.len ≤ slice1.len :=
  (trimBack_len_le _ _).trans (trimFront_len_le _ _)

def calcChanges (slice1 slice2 : Slice) (changed1 changed2 : Bitarray) : Bitarray × Bitarray :=
  let s := trimSlices slice1 slice2
  if s.1.len ≤ 1 then setChanged s.1 s.2 changed1 changed2
  else if s.2.len ≤ 1 then (setChanged s.2 s.1 changed2 changed1).swap
  else
    let mid := s.1.len / 2
    let top := smartlistSlice s.1.list s.1.offset (s.1.offset + mid)
    let bot := smartlistSlice s.1.list (s.1.offset + mid) (s.1.offset + s.1.len)
    let mid2 := optimalColumnToSplit top bot s.2
    let left := smartlistSlice s.2.list s.2.offset (s.2.offset + mid2)
    let right := smartlistSlice s.2.list (s.2.offset + mid2) (s.2.offset + s.2.len)
    let r := calcChanges top left changed1 changed2
    calcChanges bot right r.1 r.2
termination_by slice1.len
decreasing_by
  all_goals
    rename_i hlong _
    have hlong' : 1 < (trimSlices slice1 slice2).1.len := Nat.lt_of_not_le hlong
    have hle := trimSlices_len_le slice1 slice2
    simp only [smartlistSlice]
    omega

/-! ### What is not marked -/

def kept (changed : Bitarray) (s : Slice) : List Line :=
  ((List.range' s.offset s.len).filter fun i => !changed i).map (lineAt s.list)

def Clear (changed : Bitarray) (s : Slice) : Prop :=
  ∀ i, s.offset ≤ i → i < s.offset + s.len → changed i = false

/-- Marks are made within the slices, and what is not marked is the same in both. -/
structure Matched (s₁ s₂ : Slice) (c₁ c₂ : Bitarray) (r : Bitarray × Bitarray) : Prop where
  same : kept r.1 s₁ = kept r.2 s₂
  frame₁ : ∀ i, (i < s₁.offset ∨ s₁.offset + s₁.len ≤ i) → r.1 i = c₁ i
  frame₂ : ∀ i, (i < s₂.offset ∨ s₂.offset + s₂.len ≤ i) → r.2 i = c₂ i

variable {s₁ s₂ : Slice} {c₁ c₂ : Bitarray}

theorem kept_append (c : Bitarray) (list : List Line) (o m n : ℕ) :
    kept c ⟨list, o, m + n⟩ = kept c ⟨list, o, m⟩ ++ kept c ⟨list, o + m, n⟩ := by
  have hrange : List.range' o (m + n) = List.range' o m ++ List.range' (o + m) n := by
    rw [← List.range'_append_1]
  simp only [kept, hrange, List.filter_append, List.map_append]

theorem kept_one (c : Bitarray) (list : List Line) (o : ℕ) :
    kept c ⟨list, o, 1⟩ = if c o then [] else [lineAt list o] := by
  cases h : c o <;> simp [kept, List.range', h]

theorem kept_of_marked {c : Bitarray} {s : Slice}
    (h : ∀ i, s.offset ≤ i → i < s.offset + s.len → c i = true) : kept c s = [] := by
  have hfilter : (List.range' s.offset s.len).filter (fun i => !c i) = [] := by
    refine List.filter_eq_nil_iff.mpr fun i hi => ?_
    obtain ⟨hlow, hhigh⟩ := List.mem_range'_1.mp hi
    simp [h i hlow hhigh]
  rw [kept, hfilter, List.map_nil]

theorem kept_congr {c c' : Bitarray} {s : Slice}
    (h : ∀ i, s.offset ≤ i → i < s.offset + s.len → c i = c' i) : kept c s = kept c' s := by
  have hfilter : (List.range' s.offset s.len).filter (fun i => !c i) =
      (List.range' s.offset s.len).filter (fun i => !c' i) := by
    refine List.filter_congr fun i hi => ?_
    obtain ⟨hlow, hhigh⟩ := List.mem_range'_1.mp hi
    rw [h i hlow hhigh]
  rw [kept, kept, hfilter]

theorem Clear.kept {c : Bitarray} {s : Slice} (h : Clear c s) : kept c s = s.lines := by
  have hfilter : (List.range' s.offset s.len).filter (fun i => !c i) =
      List.range' s.offset s.len := by
    refine List.filter_eq_self.mpr fun i hi => ?_
    obtain ⟨hlow, hhigh⟩ := List.mem_range'_1.mp hi
    simp [h i hlow hhigh]
  rw [Consdiff.kept, hfilter, Slice.lines]

theorem Clear.mono {c : Bitarray} {s t : Slice} (h : Clear c s) (hoffset : s.offset ≤ t.offset)
    (hlen : t.offset + t.len ≤ s.offset + s.len) : Clear c t :=
  fun i hlow hhigh => h i (hoffset.trans hlow) (hhigh.trans_le hlen)

/-! ### Marking keeps what is common -/

theorem Matched.front {l₁ l₂ : List Line} {o₁ o₂ n₁ n₂ : ℕ} {r : Bitarray × Bitarray}
    (hclear₁ : Clear c₁ ⟨l₁, o₁, 1 + n₁⟩) (hclear₂ : Clear c₂ ⟨l₂, o₂, 1 + n₂⟩)
    (heq : lineAt l₁ o₁ = lineAt l₂ o₂)
    (h : Matched ⟨l₁, o₁ + 1, n₁⟩ ⟨l₂, o₂ + 1, n₂⟩ c₁ c₂ r) :
    Matched ⟨l₁, o₁, 1 + n₁⟩ ⟨l₂, o₂, 1 + n₂⟩ c₁ c₂ r := by
  have hfirst₁ : r.1 o₁ = false :=
    (h.frame₁ o₁ (.inl (Nat.lt_succ_self _))).trans (hclear₁ o₁ (le_refl _) (by simp only; omega))
  have hfirst₂ : r.2 o₂ = false :=
    (h.frame₂ o₂ (.inl (Nat.lt_succ_self _))).trans (hclear₂ o₂ (le_refl _) (by simp only; omega))
  refine ⟨?_, fun i hi => h.frame₁ i ?_, fun i hi => h.frame₂ i ?_⟩
  · rw [kept_append, kept_append, kept_one, kept_one, hfirst₁, hfirst₂, heq, h.same]
  · simp only at hi ⊢
    omega
  · simp only at hi ⊢
    omega

theorem Matched.back {l₁ l₂ : List Line} {o₁ o₂ n₁ n₂ : ℕ} {r : Bitarray × Bitarray}
    (hclear₁ : Clear c₁ ⟨l₁, o₁, n₁ + 1⟩) (hclear₂ : Clear c₂ ⟨l₂, o₂, n₂ + 1⟩)
    (heq : lineAt l₁ (o₁ + n₁) = lineAt l₂ (o₂ + n₂))
    (h : Matched ⟨l₁, o₁, n₁⟩ ⟨l₂, o₂, n₂⟩ c₁ c₂ r) :
    Matched ⟨l₁, o₁, n₁ + 1⟩ ⟨l₂, o₂, n₂ + 1⟩ c₁ c₂ r := by
  have hlast₁ : r.1 (o₁ + n₁) = false :=
    (h.frame₁ _ (.inr (le_refl _))).trans (hclear₁ _ (Nat.le_add_right _ _) (by simp only; omega))
  have hlast₂ : r.2 (o₂ + n₂) = false :=
    (h.frame₂ _ (.inr (le_refl _))).trans (hclear₂ _ (Nat.le_add_right _ _) (by simp only; omega))
  refine ⟨?_, fun i hi => h.frame₁ i ?_, fun i hi => h.frame₂ i ?_⟩
  · rw [kept_append, kept_append, kept_one, kept_one, hlast₁, hlast₂, heq, h.same]
  · simp only at hi ⊢
    omega
  · simp only at hi ⊢
    omega

theorem foldl_bitarraySet (keep : Option ℕ) (l : List ℕ) (c : Bitarray) (i : ℕ) :
    l.foldl (fun changed i => if some i ≠ keep then bitarraySet changed i else changed) c i =
      (c i || decide (i ∈ l ∧ some i ≠ keep)) := by
  induction l generalizing c with
  | nil => simp
  | cons j l ih =>
    rw [List.foldl_cons, ih]
    by_cases hij : i = j
    · subst hij
      by_cases hkeep : some i = keep
      · simp [hkeep]
      · simp [hkeep, bitarraySet]
    · by_cases hkeep : some j = keep
      · simp [hkeep, hij]
      · simp [hkeep, hij, bitarraySet]

theorem kept_eq_singleton {c : Bitarray} {list : List Line} {o m n : ℕ}
    (hself : c (o + m) = false)
    (hothers : ∀ i, o ≤ i → i < o + (m + (1 + n)) → i ≠ o + m → c i = true) :
    kept c ⟨list, o, m + (1 + n)⟩ = [lineAt list (o + m)] := by
  have hbefore : kept c ⟨list, o, m⟩ = [] := by
    refine kept_of_marked fun i hlow hhigh => ?_
    simp only at hlow hhigh
    exact hothers i hlow (by omega) (by omega)
  have hbehind : kept c ⟨list, o + m + 1, n⟩ = [] := by
    refine kept_of_marked fun i hlow hhigh => ?_
    simp only at hlow hhigh
    exact hothers i (by omega) (by omega) (by omega)
  rw [kept_append, kept_append, hbefore, hbehind, kept_one, hself]
  rfl

theorem matched_setChanged (hlen : s₁.len ≤ 1) (hclear₁ : Clear c₁ s₁) (hclear₂ : Clear c₂ s₂) :
    Matched s₁ s₂ c₁ c₂ (setChanged s₁ s₂ c₁ c₂) := by
  obtain ⟨l₁, o₁, n₁⟩ := s₁
  obtain ⟨l₂, o₂, n₂⟩ := s₂
  unfold setChanged
  simp only at hlen ⊢
  have hmem : ∀ i, i ∈ List.range' o₂ n₂ ↔ o₂ ≤ i ∧ i < o₂ + n₂ := fun i => List.mem_range'_1
  generalize htoskip : (if n₁ = 1 then
    smartlistSliceStringPos ⟨l₂, o₂, n₂⟩ (lineAt l₁ o₁) else none) = toskip
  have hmarks : ∀ i, (List.range' o₂ n₂).foldl
      (fun changed i => if some i ≠ toskip then bitarraySet changed i else changed) c₂ i =
      (c₂ i || decide ((o₂ ≤ i ∧ i < o₂ + n₂) ∧ some i ≠ toskip)) := fun i => by
    simp only [foldl_bitarraySet, hmem]
  generalize (List.range' o₂ n₂).foldl
    (fun changed i => if some i ≠ toskip then bitarraySet changed i else changed) c₂ = marks at hmarks
  refine ⟨?_, fun i hi => ?_, fun i hi => ?_⟩
  · cases toskip with
    | none =>
      have hnil₂ : kept marks ⟨l₂, o₂, n₂⟩ = [] := by
        refine kept_of_marked fun i hlow hhigh => ?_
        rw [hmarks]
        simp [show o₂ ≤ i from hlow, show i < o₂ + n₂ from hhigh]
      rw [hnil₂]
      refine kept_of_marked fun i hlow hhigh => ?_
      simp only at hlow hhigh
      have hn : n₁ = 1 := by omega
      have hi : i = o₁ := by omega
      simp [hn, hi, bitarraySet]
    | some t =>
      split_ifs at htoskip with hn
      subst hn
      unfold smartlistSliceStringPos at htoskip
      have hfound := List.mem_of_find?_eq_some htoskip
      have heqTrue : linesEq (lineAt l₂ t) (lineAt l₁ o₁) = true := by
        simpa using List.find?_some htoskip
      have heq : lineAt l₂ t = lineAt l₁ o₁ := of_decide_eq_true heqTrue
      obtain ⟨hlow, hhigh⟩ := (hmem t).mp hfound
      -- the second slice is what stands before the line, the line, and what stands behind it
      obtain ⟨m, rfl⟩ := Nat.exists_eq_add_of_le hlow
      obtain ⟨n, rfl⟩ : ∃ n, n₂ = m + (1 + n) := ⟨n₂ - m - 1, by omega⟩
      have hself : marks (o₂ + m) = false := by
        rw [hmarks, hclear₂ (o₂ + m) hlow hhigh]
        simp
      have hsame : kept marks ⟨l₂, o₂, m + (1 + n)⟩ = [lineAt l₂ (o₂ + m)] := by
        refine kept_eq_singleton hself fun i hi hi' hne => ?_
        rw [hmarks]
        simp [hi, hi', hne]
      have hclear : c₁ o₁ = false := hclear₁ o₁ (le_refl _) (by simp only; omega)
      rw [hsame]
      simp [kept_one, hclear, heq]
  · simp only at hi ⊢
    split_ifs with hset
    · have hne : i ≠ o₁ := by omega
      exact Function.update_of_ne hne _ _
    · rfl
  · simp only at hi ⊢
    rw [hmarks]
    have hout : ¬ ((o₂ ≤ i ∧ i < o₂ + n₂) ∧ some i ≠ toskip) := by omega
    simp [hout]

theorem Matched.symm {r : Bitarray × Bitarray} (h : Matched s₁ s₂ c₁ c₂ r) :
    Matched s₂ s₁ c₂ c₁ r.swap :=
  ⟨h.same.symm, h.frame₂, h.frame₁⟩

theorem Matched.append {l₁ l₂ : List Line} {o₁ o₂ m₁ m₂ n₁ n₂ : ℕ} {r r' : Bitarray × Bitarray}
    (h : Matched ⟨l₁, o₁, m₁⟩ ⟨l₂, o₂, m₂⟩ c₁ c₂ r)
    (h' : Matched ⟨l₁, o₁ + m₁, n₁⟩ ⟨l₂, o₂ + m₂, n₂⟩ r.1 r.2 r') :
    Matched ⟨l₁, o₁, m₁ + n₁⟩ ⟨l₂, o₂, m₂ + n₂⟩ c₁ c₂ r' := by
  refine ⟨?_, fun i hi => ?_, fun i hi => ?_⟩
  · have hfirst₁ : kept r'.1 ⟨l₁, o₁, m₁⟩ = kept r.1 ⟨l₁, o₁, m₁⟩ :=
      kept_congr fun i _ hhigh => h'.frame₁ i (.inl hhigh)
    have hfirst₂ : kept r'.2 ⟨l₂, o₂, m₂⟩ = kept r.2 ⟨l₂, o₂, m₂⟩ :=
      kept_congr fun i _ hhigh => h'.frame₂ i (.inl hhigh)
    rw [kept_append, kept_append, hfirst₁, hfirst₂, h.same, h'.same]
  · simp only at hi
    rw [h'.frame₁ i (by simp only; omega), h.frame₁ i (by simp only; omega)]
  · simp only at hi
    rw [h'.frame₂ i (by simp only; omega), h.frame₂ i (by simp only; omega)]

theorem Matched.clear_rest {l₁ l₂ : List Line} {o₁ o₂ m₁ m₂ n₁ n₂ : ℕ} {r : Bitarray × Bitarray}
    (h : Matched ⟨l₁, o₁, m₁⟩ ⟨l₂, o₂, m₂⟩ c₁ c₂ r) (hclear₁ : Clear c₁ ⟨l₁, o₁, m₁ + n₁⟩)
    (hclear₂ : Clear c₂ ⟨l₂, o₂, m₂ + n₂⟩) :
    Clear r.1 ⟨l₁, o₁ + m₁, n₁⟩ ∧ Clear r.2 ⟨l₂, o₂ + m₂, n₂⟩ := by
  constructor
  · intro i hlow hhigh
    simp only at hlow hhigh
    rw [h.frame₁ i (.inr hlow)]
    exact hclear₁ i (by simp only; omega) (by simp only; omega)
  · intro i hlow hhigh
    simp only at hlow hhigh
    rw [h.frame₂ i (.inr hlow)]
    exact hclear₂ i (by simp only; omega) (by simp only; omega)

/-- What `calc_changes` can do: leave equal lines at the front or at the end alone, mark what a slice
of at most one line does not match, or mark two halves, one after the other. -/
inductive Marks : Slice → Slice → Bitarray → Bitarray → Bitarray × Bitarray → Prop
  | front {l₁ l₂ : List Line} {o₁ o₂ n₁ n₂ : ℕ} {c₁ c₂ : Bitarray} {r : Bitarray × Bitarray}
      (heq : lineAt l₁ o₁ = lineAt l₂ o₂)
      (h : Marks ⟨l₁, o₁ + 1, n₁⟩ ⟨l₂, o₂ + 1, n₂⟩ c₁ c₂ r) :
      Marks ⟨l₁, o₁, 1 + n₁⟩ ⟨l₂, o₂, 1 + n₂⟩ c₁ c₂ r
  | back {l₁ l₂ : List Line} {o₁ o₂ n₁ n₂ : ℕ} {c₁ c₂ : Bitarray} {r : Bitarray × Bitarray}
      (heq : lineAt l₁ (o₁ + n₁) = lineAt l₂ (o₂ + n₂))
      (h : Marks ⟨l₁, o₁, n₁⟩ ⟨l₂, o₂, n₂⟩ c₁ c₂ r) :
      Marks ⟨l₁, o₁, n₁ + 1⟩ ⟨l₂, o₂, n₂ + 1⟩ c₁ c₂ r
  | short {s₁ s₂ : Slice} {c₁ c₂ : Bitarray} (hlen : s₁.len ≤ 1) :
      Marks s₁ s₂ c₁ c₂ (setChanged s₁ s₂ c₁ c₂)
  | shortSecond {s₁ s₂ : Slice} {c₁ c₂ : Bitarray} (hlen : s₂.len ≤ 1) :
      Marks s₁ s₂ c₁ c₂ (setChanged s₂ s₁ c₂ c₁).swap
  | halves {l₁ l₂ : List Line} {o₁ o₂ m₁ m₂ n₁ n₂ : ℕ} {c₁ c₂ : Bitarray} {r r' : Bitarray × Bitarray}
      (hcolumn : m₂ = optimalColumnToSplit ⟨l₁, o₁, m₁⟩ ⟨l₁, o₁ + m₁, n₁⟩ ⟨l₂, o₂, m₂ + n₂⟩)
      (h : Marks ⟨l₁, o₁, m₁⟩ ⟨l₂, o₂, m₂⟩ c₁ c₂ r)
      (h' : Marks ⟨l₁, o₁ + m₁, n₁⟩ ⟨l₂, o₂ + m₂, n₂⟩ r.1 r.2 r') :
      Marks ⟨l₁, o₁, m₁ + n₁⟩ ⟨l₂, o₂, m₂ + n₂⟩ c₁ c₂ r'

theorem marks_of_trimFront {r : Bitarray × Bitarray} (s₁ s₂ : Slice)
    (h : Marks (trimFront s₁ s₂).1 (trimFront s₁ s₂).2 c₁ c₂ r) : Marks s₁ s₂ c₁ c₂ r := by
  induction s₁, s₂ using trimFront.induct with
  | case1 s₁ s₂ htrim ih =>
    rw [trimFront, if_pos htrim] at h
    obtain ⟨hpos₁, hpos₂, heq⟩ := htrim
    obtain ⟨l₁, o₁, n₁⟩ := s₁
    obtain ⟨l₂, o₂, n₂⟩ := s₂
    simp only at hpos₁ hpos₂ heq
    obtain ⟨n₁, rfl⟩ := Nat.exists_eq_add_of_le' hpos₁
    obtain ⟨n₂, rfl⟩ := Nat.exists_eq_add_of_le' hpos₂
    simp only [Nat.add_sub_cancel] at h ih
    rw [Nat.add_comm n₁, Nat.add_comm n₂] at *
    exact .front (of_decide_eq_true heq) (ih h)
  | case2 s₁ s₂ htrim =>
    rw [trimFront, if_neg htrim] at h
    exact h

theorem marks_of_trimBack {r : Bitarray × Bitarray} (s₁ s₂ : Slice)
    (h : Marks (trimBack s₁ s₂).1 (trimBack s₁ s₂).2 c₁ c₂ r) : Marks s₁ s₂ c₁ c₂ r := by
  induction s₁, s₂ using trimBack.induct with
  | case1 s₁ s₂ htrim ih =>
    rw [trimBack, if_pos htrim] at h
    obtain ⟨hpos₁, hpos₂, heq⟩ := htrim
    obtain ⟨l₁, o₁, n₁⟩ := s₁
    obtain ⟨l₂, o₂, n₂⟩ := s₂
    simp only at hpos₁ hpos₂ heq
    obtain ⟨n₁, rfl⟩ := Nat.exists_eq_add_of_le' hpos₁
    obtain ⟨n₂, rfl⟩ := Nat.exists_eq_add_of_le' hpos₂
    simp only [Nat.add_sub_cancel] at h ih
    exact .back (of_decide_eq_true heq) (ih h)
  | case2 s₁ s₂ htrim =>
    rw [trimBack, if_neg htrim] at h
    exact h

theorem calcChanges_marks (s₁ s₂ : Slice) (c₁ c₂ : Bitarray) :
    Marks s₁ s₂ c₁ c₂ (calcChanges s₁ s₂ c₁ c₂) := by
  induction s₁, s₂, c₁, c₂ using calcChanges.induct with
  | case1 s₁ s₂ c₁ c₂ s hshort =>
    rw [calcChanges]
    simp only
    rw [if_pos hshort]
    exact marks_of_trimFront s₁ s₂ (marks_of_trimBack _ _ (.short hshort))
  | case2 s₁ s₂ c₁ c₂ s hlong hshort =>
    rw [calcChanges]
    simp only
    rw [if_neg hlong, if_pos hshort]
    exact marks_of_trimFront s₁ s₂ (marks_of_trimBack _ _ (.shortSecond hshort))
  | case3 s₁ s₂ c₁ c₂ s hlong hlong' mid top bot mid2 left right r ih _ ih' =>
    rw [calcChanges]
    simp only
    rw [if_neg hlong, if_neg hlong']
    refine marks_of_trimFront s₁ s₂ (marks_of_trimBack _ _ ?_)
    change Marks s.1 s.2 c₁ c₂ (calcChanges bot right r.1 r.2)
    have hmid2 : mid2 ≤ s.2.len := optimalColumnToSplit_le top bot s.2
    have hmid : mid ≤ s.1.len := Nat.div_le_self _ _
    have htop : top = ⟨s.1.list, s.1.offset, mid⟩ := by
      simp [top, smartlistSlice]
    have hbot : bot = ⟨s.1.list, s.1.offset + mid, s.1.len - mid⟩ := by
      simp [bot, smartlistSlice, Nat.add_sub_add_left]
    have hleft : left = ⟨s.2.list, s.2.offset, mid2⟩ := by
      simp [left, smartlistSlice]
    have hright : right = ⟨s.2.list, s.2.offset + mid2, s.2.len - mid2⟩ := by
      simp [right, smartlistSlice, Nat.add_sub_add_left]
    have hs₁ : s.1 = ⟨s.1.list, s.1.offset, mid + (s.1.len - mid)⟩ := by
      rw [Nat.add_sub_cancel' hmid]
    have hs₂ : s.2 = ⟨s.2.list, s.2.offset, mid2 + (s.2.len - mid2)⟩ := by
      rw [Nat.add_sub_cancel' hmid2]
    have hcolumn : mid2 = optimalColumnToSplit ⟨s.1.list, s.1.offset, mid⟩
        ⟨s.1.list, s.1.offset + mid, s.1.len - mid⟩
        ⟨s.2.list, s.2.offset, mid2 + (s.2.len - mid2)⟩ := by
      rw [← htop, ← hbot, ← hs₂]
    have hfirst : Marks top left c₁ c₂ r := ih
    have hsecond : Marks bot right r.1 r.2 (calcChanges bot right r.1 r.2) := ih'
    generalize calcChanges bot right r.1 r.2 = r' at hsecond ⊢
    clear_value r
    rw [htop, hleft] at hfirst
    rw [hbot, hright] at hsecond
    rw [hs₁, hs₂]
    exact .halves hcolumn hfirst hsecond

theorem Marks.matched {r : Bitarray × Bitarray} (h : Marks s₁ s₂ c₁ c₂ r) (hclear₁ : Clear c₁ s₁)
    (hclear₂ : Clear c₂ s₂) : Matched s₁ s₂ c₁ c₂ r := by
  induction h with
  | front heq h ih =>
    refine .front hclear₁ hclear₂ heq (ih ?_ ?_)
    · exact hclear₁.mono (Nat.le_succ _) (by simp only; omega)
    · exact hclear₂.mono (Nat.le_succ _) (by simp only; omega)
  | back heq h ih =>
    refine .back hclear₁ hclear₂ heq (ih ?_ ?_)
    · exact hclear₁.mono (le_refl _) (by simp only; omega)
    · exact hclear₂.mono (le_refl _) (by simp only; omega)
  | short hlen => exact matched_setChanged hlen hclear₁ hclear₂
  | shortSecond hlen => exact (matched_setChanged hlen hclear₂ hclear₁).symm
  | halves hcolumn h h' ih ih' =>
    have hfirst := ih (hclear₁.mono (le_refl _) (by simp only; omega))
      (hclear₂.mono (le_refl _) (by simp only; omega))
    obtain ⟨hrest₁, hrest₂⟩ := hfirst.clear_rest hclear₁ hclear₂
    exact hfirst.append (ih' hrest₁ hrest₂)

theorem calcChanges_spec (s₁ s₂ : Slice) (c₁ c₂ : Bitarray) (hclear₁ : Clear c₁ s₁)
    (hclear₂ : Clear c₂ s₂) : Matched s₁ s₂ c₁ c₂ (calcChanges s₁ s₂ c₁ c₂) :=
  (calcChanges_marks s₁ s₂ c₁ c₂).matched hclear₁ hclear₂

end Consdiff
