/-
Consensus diffs (`feature/dircommon/consdiff.c`): an ed script from one list of lines to another,
and its application.

The generator drops the signatures of the base, walks both lists from router to router, marks what
changed in between, and from the end writes one command for each run of marks.  The applier reads
the commands from the end of the base to its front and checks that they are in order.
-/
import Mathlib
import LibEltor.Binascii
import LibEltor.ConsdiffChanges

open Bytes Binascii

namespace Consdiff

/-! ### Router lines -/

def notValidBase64 : ℕ := 255

def base64CompareTable (c : UInt8) : ℕ :=
  if 65 ≤ c ∧ c ≤ 90 then c.toNat - 65
  else if 97 ≤ c ∧ c ≤ 122 then c.toNat - 71
  else if 48 ≤ c ∧ c ≤ 57 then c.toNat + 4
  else if c = 43 then 62
  else if c = 47 then 63
  else notValidBase64

def lineStartsWithStr (a b : Line) : Bool := b.isPrefixOf a

def getIdHash (line : Line) : Option Line :=
  if line.length < 2 then none
  else
    match (line.drop 2).dropWhile (· ≠ 32) with
    | [] => none
    | _ :: rest =>
      let hash := rest.takeWhile fun c => base64CompareTable c ≠ notValidBase64
      if hash = [] then none else some hash

def isValidRouterEntry (line : Line) : Bool :=
  if line.length < 2 ∨ line.take 2 ≠ [114, 32] then false else (getIdHash line).isSome

def nextRouterFrom (cons : List Line) (cur : ℕ) : ℕ :=
  if cur ≥ cons.length then cons.length
  else if isValidRouterEntry (lineAt cons cur) then cur
  else nextRouterFrom cons (cur + 1)
termination_by cons.length - cur

def nextRouter (cons : List Line) (cur : ℤ) : ℕ := nextRouterFrom cons (cur + 1).toNat

def base64cmpLoop : Line → Line → ℤ
  | x :: a, y :: b =>
    let av := base64CompareTable x
    let bv := base64CompareTable y
    if av = notValidBase64 then if bv = notValidBase64 then 0 else -1
    else if bv = notValidBase64 then 1
    else if av < bv then -1
    else if av > bv then 1
    else
      match a, b with
      | [], [] => 0
      | [], _ => -1
      | _, [] => 1
      | a, b => base64cmpLoop a b
  | _, _ => 0

def base64cmp : Option Line → Option Line → ℤ
  | none, none => 0
  | none, some _ => -1
  | some _, none => 1
  | some hash1, some hash2 => base64cmpLoop hash1 hash2

structure RouterIdIterator where
  lastHash : Option Line
  hash : Option Line

/-- None where the routers are not in order. -/
def findNextRouterLine (cons : List Line) (idx : ℤ) (iter : RouterIdIterator) :
    Option (ℤ × RouterIdIterator) :=
  let idx' := nextRouter cons idx
  if idx' < cons.length then
    match getIdHash (lineAt cons idx') with
    | none => none
    | some hash =>
      if base64cmp (some hash) iter.hash ≤ 0 then none else some (idx', ⟨iter.hash, some hash⟩)
  else some (idx', iter)

theorem nextRouterFrom_spec (cons : List Line) (cur : ℕ) :
    nextRouterFrom cons cur ≤ cons.length ∧
      (cur ≤ cons.length → cur ≤ nextRouterFrom cons cur) := by
  induction cur using nextRouterFrom.induct cons with
  | case1 cur h =>
    rw [nextRouterFrom, if_pos h]
    exact ⟨le_refl _, fun hle => hle⟩
  | case2 cur h hvalid =>
    rw [nextRouterFrom, if_neg h, if_pos hvalid]
    exact ⟨by omega, fun _ => le_refl _⟩
  | case3 cur h hvalid ih =>
    rw [nextRouterFrom, if_neg h, if_neg hvalid]
    exact ⟨ih.1, fun _ => by have := ih.2 (by omega); omega⟩

theorem findNextRouterLine_spec {cons : List Line} {idx idx' : ℤ} {iter iter' : RouterIdIterator}
    (h : findNextRouterLine cons idx iter = some (idx', iter')) (hidx : idx < cons.length) :
    idx < idx' ∧ 0 ≤ idx' ∧ idx' ≤ cons.length := by
  have hnext : idx' = nextRouter cons idx := by
    unfold findNextRouterLine at h
    simp only at h
    split_ifs at h
    · split at h
      · cases h
      · split_ifs at h
        exact (congrArg Prod.fst (Option.some.inj h)).symm
    · exact (congrArg Prod.fst (Option.some.inj h)).symm
  obtain ⟨hle, hge⟩ := nextRouterFrom_spec cons (idx + 1).toNat
  have hge' := hge (by omega)
  rw [hnext, nextRouter]
  omega

/-! ### Walking from router to router -/

/-- The lower index moves on until the routers are the same or a list is at its end. -/
def advanceLower (cons1 cons2 : List Line) (i1 i2 : ℤ) (iter1 iter2 : RouterIdIterator) :
    Option ((ℤ × ℤ) × RouterIdIterator × RouterIdIterator) :=
  let cmp := base64cmp iter1.hash iter2.hash
  if cmp = 0 then some ((i1, i2), iter1, iter2)
  else if _ : i1 < cons1.length ∧ cmp < 0 then
    match _ : findNextRouterLine cons1 i1 iter1 with
    | none => none
    | some (i1', iter1') =>
      if i1' = cons1.length then some ((i1', cons2.length), iter1', iter2)
      else advanceLower cons1 cons2 i1' i2 iter1' iter2
  else if _ : i2 < cons2.length ∧ cmp > 0 then
    match _ : findNextRouterLine cons2 i2 iter2 with
    | none => none
    | some (i2', iter2') =>
      if i2' = cons2.length then some ((cons1.length, i2'), iter1, iter2')
      else advanceLower cons1 cons2 i1 i2' iter1 iter2'
  else some ((cons1.length, cons2.length), iter1, iter2)
termination_by (cons1.length - i1).toNat + (cons2.length - i2).toNat
decreasing_by
  · have hspec := findNextRouterLine_spec ‹_› (‹_ ∧ _›).1
    omega
  · have hspec := findNextRouterLine_spec ‹_› (‹_ ∧ _›).1
    omega

def Advanced (cons : List Line) (i i' : ℤ) : Prop := i ≤ cons.length → i ≤ i' ∧ i' ≤ cons.length

theorem advanceLower_spec {cons1 cons2 : List Line} (i1 i2 : ℤ) (iter1 iter2 : RouterIdIterator)
    {r : (ℤ × ℤ) × RouterIdIterator × RouterIdIterator}
    (h : advanceLower cons1 cons2 i1 i2 iter1 iter2 = some r) :
    Advanced cons1 i1 r.1.1 ∧ Advanced cons2 i2 r.1.2 ∧
      (cons1.length - r.1.1).toNat ≤ (cons1.length - i1).toNat ∧
      (cons2.length - r.1.2).toNat ≤ (cons2.length - i2).toNat := by
  unfold Advanced
  revert h
  fun_induction advanceLower cons1 cons2 i1 i2 iter1 iter2 with
  | case1 =>
    rintro ⟨⟩
    simp only
    omega
  | case2 => rintro ⟨⟩
  | case3 i1 i2 iter1 iter2 cmp _ hlow iter1' hnext =>
    rintro ⟨⟩
    simp only
    omega
  | case4 i1 i2 iter1 iter2 cmp _ hlow i1' iter1' hnext _ ih =>
    intro h
    have hspec := findNextRouterLine_spec hnext hlow.1
    have hrest := ih h
    omega
  | case5 => rintro ⟨⟩
  | case6 i1 i2 iter1 iter2 cmp _ _ hlow iter2' hnext =>
    rintro ⟨⟩
    simp only
    omega
  | case7 i1 i2 iter1 iter2 cmp _ _ hlow i2' iter2' hnext _ ih =>
    intro h
    have hspec := findNextRouterLine_spec hnext hlow.1
    have hrest := ih h
    omega
  | case8 =>
    rintro ⟨⟩
    simp only
    omega

structure Walk where
  i1 : ℤ
  i2 : ℤ
  start1 : ℕ
  start2 : ℕ
  iter1 : RouterIdIterator
  iter2 : RouterIdIterator
  changed1 : Bitarray
  changed2 : Bitarray

def walkInit : Walk :=
  ⟨-1, -1, 0, 0, ⟨none, none⟩, ⟨none, none⟩, bitarrayInitZero, bitarrayInitZero⟩

def advanceOne (cons : List Line) (i : ℤ) (iter : RouterIdIterator) :
    Option (ℤ × RouterIdIterator) :=
  if i < cons.length then findNextRouterLine cons i iter else some (i, iter)

def advanceBoth (cons1 cons2 : List Line) (i1 i2 : ℤ) (iter1 iter2 : RouterIdIterator) :
    Option ((ℤ × ℤ) × RouterIdIterator × RouterIdIterator) :=
  if i1 < cons1.length ∨ i2 < cons2.length then advanceLower cons1 cons2 i1 i2 iter1 iter2
  else some ((i1, i2), iter1, iter2)

def maxLineCount : ℤ := 10000

/-- Up to the next common router; none where the routers are not in order or too far apart. -/
def nextChunk (cons1 cons2 : List Line) (W : Walk) : Option Walk := do
  let (i1, iter1) ← advanceOne cons1 W.i1 W.iter1
  let (i2, iter2) ← advanceOne cons2 W.i2 W.iter2
  let ((i1, i2), iter1, iter2) ← advanceBoth cons1 cons2 i1 i2 iter1 iter2
  if i1 - W.start1 > maxLineCount ∨ i2 - W.start2 > maxLineCount then none
  else
    let changed := calcChanges (smartlistSlice cons1 W.start1 i1.toNat)
      (smartlistSlice cons2 W.start2 i2.toNat) W.changed1 W.changed2
    some ⟨i1, i2, i1.toNat, i2.toNat, iter1, iter2, changed.1, changed.2⟩

theorem advanceOne_spec {cons : List Line} {i i' : ℤ} {iter iter' : RouterIdIterator}
    (h : advanceOne cons i iter = some (i', iter')) :
    Advanced cons i i' ∧ (cons.length - i').toNat ≤ (cons.length - i).toNat ∧
      (i < cons.length → (cons.length - i').toNat < (cons.length - i).toNat) := by
  unfold advanceOne at h
  unfold Advanced
  split_ifs at h with hi
  · have hspec := findNextRouterLine_spec h hi
    omega
  · obtain ⟨rfl, rfl⟩ := Prod.mk.inj (Option.some.inj h)
    omega

theorem nextChunk_spec {cons1 cons2 : List Line} {W W' : Walk}
    (h : nextChunk cons1 cons2 W = some W') :
    Advanced cons1 W.i1 W'.i1 ∧ Advanced cons2 W.i2 W'.i2 ∧
      (W.i1 < cons1.length ∨ W.i2 < cons2.length →
        (cons1.length - W'.i1).toNat + (cons2.length - W'.i2).toNat <
          (cons1.length - W.i1).toNat + (cons2.length - W.i2).toNat) ∧
      (W'.start1 = W'.i1.toNat ∧ W'.start2 = W'.i2.toNat) ∧
      (W'.changed1, W'.changed2) = calcChanges (smartlistSlice cons1 W.start1 W'.i1.toNat)
        (smartlistSlice cons2 W.start2 W'.i2.toNat) W.changed1 W.changed2 := by
  unfold nextChunk at h
  obtain ⟨⟨i1, iter1⟩, hone1, h⟩ := Option.bind_eq_some_iff.mp h
  obtain ⟨⟨i2, iter2⟩, hone2, h⟩ := Option.bind_eq_some_iff.mp h
  obtain ⟨⟨⟨j1, j2⟩, jter1, jter2⟩, hlower, h⟩ := Option.bind_eq_some_iff.mp h
  have hspec1 := advanceOne_spec hone1
  have hspec2 := advanceOne_spec hone2
  have hspec : Advanced cons1 i1 j1 ∧ Advanced cons2 i2 j2 ∧
      (cons1.length - j1).toNat ≤ (cons1.length - i1).toNat ∧
      (cons2.length - j2).toNat ≤ (cons2.length - i2).toNat := by
    unfold advanceBoth at hlower
    split_ifs at hlower with hmore
    · exact advanceLower_spec i1 i2 iter1 iter2 hlower
    · obtain ⟨⟨rfl, rfl⟩, -⟩ := Prod.mk.inj (Option.some.inj hlower)
      unfold Advanced
      omega
  simp only at h
  split_ifs at h
  obtain rfl := Option.some.inj h
  unfold Advanced at *
  refine ⟨by simp only; omega, by simp only; omega, by simp only; omega, ⟨rfl, rfl⟩, rfl⟩

def chunkLoop (cons1 cons2 : List Line) (W : Walk) : Option (Bitarray × Bitarray) :=
  if _ : W.i1 < cons1.length ∨ W.i2 < cons2.length then
    match _ : nextChunk cons1 cons2 W with
    | none => none
    | some W' => chunkLoop cons1 cons2 W'
  else some (W.changed1, W.changed2)
termination_by (cons1.length - W.i1).toNat + (cons2.length - W.i2).toNat
decreasing_by
  have hspec := nextChunk_spec ‹_›
  exact hspec.2.2.1 ‹_ ∨ _›

/-- What is behind the walk is matched, and what is before it is not marked. -/
structure Walked (cons1 cons2 : List Line) (W : Walk) : Prop where
  start1 : W.start1 = W.i1.toNat
  start2 : W.start2 = W.i2.toNat
  le1 : W.i1 ≤ cons1.length
  le2 : W.i2 ≤ cons2.length
  matched : Matched ⟨cons1, 0, W.start1⟩ ⟨cons2, 0, W.start2⟩ bitarrayInitZero bitarrayInitZero
    (W.changed1, W.changed2)

theorem walked_init (cons1 cons2 : List Line) : Walked cons1 cons2 walkInit := by
  refine ⟨rfl, rfl, ?_, ?_, ⟨rfl, fun _ _ => rfl, fun _ _ => rfl⟩⟩
  · simp only [walkInit]
    omega
  · simp only [walkInit]
    omega

theorem Walked.nextChunk {cons1 cons2 : List Line} {W W' : Walk} (h : Walked cons1 cons2 W)
    (hnext : nextChunk cons1 cons2 W = some W') : Walked cons1 cons2 W' := by
  obtain ⟨hadv1, hadv2, -, ⟨hstart1, hstart2⟩, hchanged⟩ := nextChunk_spec hnext
  obtain ⟨hle1, hend1⟩ := hadv1 h.le1
  obtain ⟨hle2, hend2⟩ := hadv2 h.le2
  have hs1 := h.start1
  have hs2 := h.start2
  have hclear1 : Clear W.changed1 (smartlistSlice cons1 W.start1 W'.i1.toNat) :=
    fun i hlow _ => h.matched.frame₁ i (.inr (by simpa [smartlistSlice] using hlow))
  have hclear2 : Clear W.changed2 (smartlistSlice cons2 W.start2 W'.i2.toNat) :=
    fun i hlow _ => h.matched.frame₂ i (.inr (by simpa [smartlistSlice] using hlow))
  have hchunk := calcChanges_spec _ _ _ _ hclear1 hclear2
  rw [← hchanged] at hchunk
  have hslice1 : smartlistSlice cons1 W.start1 W'.i1.toNat =
      ⟨cons1, 0 + W.start1, W'.i1.toNat - W.start1⟩ := by
    rw [smartlistSlice, Nat.zero_add]
  have hslice2 : smartlistSlice cons2 W.start2 W'.i2.toNat =
      ⟨cons2, 0 + W.start2, W'.i2.toNat - W.start2⟩ := by
    rw [smartlistSlice, Nat.zero_add]
  rw [hslice1, hslice2] at hchunk
  have happend := h.matched.append hchunk
  have hlen1 : W.start1 + (W'.i1.toNat - W.start1) = W'.start1 := by omega
  have hlen2 : W.start2 + (W'.i2.toNat - W.start2) = W'.start2 := by omega
  rw [hlen1, hlen2] at happend
  exact ⟨hstart1, hstart2, hend1, hend2, happend⟩

theorem chunkLoop_spec {cons1 cons2 : List Line} (W : Walk) {r : Bitarray × Bitarray}
    (h : Walked cons1 cons2 W) (hloop : chunkLoop cons1 cons2 W = some r) :
    kept r.1 ⟨cons1, 0, cons1.length⟩ = kept r.2 ⟨cons2, 0, cons2.length⟩ := by
  revert hloop
  fun_induction chunkLoop cons1 cons2 W with
  | case1 => rintro ⟨⟩
  | case2 W hmore W' hnext ih => exact ih (h.nextChunk hnext)
  | case3 W hdone =>
    rintro ⟨⟩
    have hlen1 : W.start1 = cons1.length := by
      have := h.start1
      have := h.le1
      omega
    have hlen2 : W.start2 = cons2.length := by
      have := h.start2
      have := h.le2
      omega
    have hsame := h.matched.same
    rw [hlen1, hlen2] at hsame
    exact hsame

/-! ### Numbers in commands -/

def intMax : ℕ := 2 ^ 31 - 1

/-- `%d` of a number that is not negative. -/
def decimal (n : ℕ) : Bytes :=
  if n = 0 then [48] else (Nat.digits 10 n).reverse.map fun d => UInt8.ofNat (48 + d)

def torIsdigit (c : UInt8) : Bool := decide (48 ≤ c ∧ c ≤ 57)

def valueOf (digits : Bytes) : ℕ := digits.foldl (fun n c => n * 10 + (c.toNat - 48)) 0

def getLinenum (s : Bytes) : Option (ℕ × Bytes) :=
  if torIsdigit (s.headD 0) then
    let num := valueOf (s.takeWhile torIsdigit)
    if num ≤ intMax then some (num, s.dropWhile torIsdigit) else none
  else none

theorem digit_toNat {d : ℕ} (hd : d < 10) : (UInt8.ofNat (48 + d)).toNat = 48 + d := by
  rw [UInt8.toNat_ofNat']
  omega

theorem torIsdigit_digit {d : ℕ} (hd : d < 10) : torIsdigit (UInt8.ofNat (48 + d)) = true := by
  have h := digit_toNat hd
  simp only [torIsdigit, decide_eq_true_eq, UInt8.le_iff_toNat_le, h]
  exact ⟨Nat.le_add_right _ _, by change 48 + d ≤ 57; omega⟩

theorem valueOf_digits (l : List ℕ) (hl : ∀ d ∈ l, d < 10) :
    valueOf (l.reverse.map fun d => UInt8.ofNat (48 + d)) = Nat.ofDigits 10 l := by
  induction l with
  | nil => rfl
  | cons d l ih =>
    have hd : d < 10 := hl d List.mem_cons_self
    have hrest := ih fun e he => hl e (List.mem_cons_of_mem _ he)
    unfold valueOf at hrest ⊢
    rw [List.reverse_cons, List.map_append, List.foldl_append, hrest]
    simp only [List.map_cons, List.map_nil, List.foldl_cons, List.foldl_nil, digit_toNat hd,
      Nat.ofDigits_cons]
    rw [Nat.add_sub_cancel_left]
    ring

theorem decimal_spec (n : ℕ) : decimal n ≠ [] ∧ (∀ c ∈ decimal n, torIsdigit c = true) ∧
    valueOf (decimal n) = n := by
  unfold decimal
  split_ifs with hn
  · exact ⟨List.cons_ne_nil _ _, by simp [torIsdigit], by rw [hn]; rfl⟩
  · have hdigits : ∀ d ∈ Nat.digits 10 n, d < 10 := fun d hd => Nat.digits_lt_base (by decide) hd
    refine ⟨?_, fun c hc => ?_, ?_⟩
    · simp [Nat.digits_ne_nil_iff_ne_zero.mpr hn]
    · obtain ⟨d, hd, rfl⟩ := List.mem_map.mp hc
      exact torIsdigit_digit (hdigits d (List.mem_reverse.mp hd))
    · rw [valueOf_digits _ hdigits, Nat.ofDigits_digits]

theorem length_decimal_le {n : ℕ} (hn : n ≤ intMax) : (decimal n).length ≤ 10 := by
  unfold decimal
  split_ifs
  · decide
  · rw [List.length_map, List.length_reverse]
    refine (Nat.digits_length_le_iff (by decide) n).mpr ?_
    unfold intMax at hn
    omega

theorem getLinenum_decimal {n : ℕ} (hn : n ≤ intMax) {c : UInt8} (hc : torIsdigit c = false)
    (rest : Bytes) : getLinenum (decimal n ++ c :: rest) = some (n, c :: rest) := by
  obtain ⟨hne, hdigits, hvalue⟩ := decimal_spec n
  have htake : (decimal n ++ c :: rest).takeWhile torIsdigit = decimal n := by
    rw [List.takeWhile_append_of_pos hdigits, List.takeWhile_cons_of_neg (by simp [hc]),
      List.append_nil]
  have hdrop : (decimal n ++ c :: rest).dropWhile torIsdigit = c :: rest := by
    rw [List.dropWhile_append_of_pos hdigits, List.dropWhile_cons_of_neg (by simp [hc])]
  have hhead : torIsdigit ((decimal n ++ c :: rest).headD 0) = true := by
    obtain ⟨x, l, hxl⟩ := List.exists_cons_of_ne_nil hne
    rw [hxl] at hdigits ⊢
    exact hdigits x List.mem_cons_self
  unfold getLinenum
  simp only [hhead, if_true, htake, hvalue, if_pos hn, hdrop]

/-! ### Generating the script -/

def startOfSignaturesSection : Line :=
  [100, 105, 114, 101, 99, 116, 111, 114, 121, 45, 115, 105, 103, 110, 97, 116, 117, 114, 101, 32]

def dirsigIdx (cons : List Line) : Option ℕ :=
  cons.findIdx? fun line => lineStartsWithStr line startOfSignaturesSection

/-- Without the signatures, and the command that deletes them; `d`, `$`, `,` are 100, 36, 44. -/
def preprocessConsensus (cons : List Line) : List Line × Option Line :=
  match dirsigIdx cons with
  | none => (cons, none)
  | some idx => (cons.take idx, some (decimal (idx + 1) ++ [44, 36, 100]))

def dot : Line := [46]

/-- Back over the lines that are marked; `n` lines are left. -/
def skipChanged (changed : Bitarray) : ℕ → ℕ
  | 0 => 0
  | n + 1 => if changed n then skipChanged changed n else n + 1

/-- The command for the lines from `start1` to `end1` of the base, which become those from `start2`
to `end2` of the target; none where a line to be added is "." -/
def edCommand (cons2 : List Line) (start1 end1 start2 end2 : ℕ) : Option (List Line) :=
  let added := end2 - start2
  let deleted := end1 - start1
  if added = 0 then
    if deleted = 1 then some [decimal (start1 + 1) ++ [100]]
    else some [decimal (start1 + 1) ++ 44 :: (decimal (start1 + deleted) ++ [100])]
  else
    let command :=
      if deleted = 0 then decimal start1 ++ [97]
      else if deleted = 1 then decimal (start1 + 1) ++ [99]
      else decimal (start1 + 1) ++ 44 :: (decimal (start1 + deleted) ++ [99])
    let lines := (List.range' start2 added).map (lineAt cons2)
    if lines.any (linesEq dot) then none else some (command :: (lines ++ [dot]))

theorem skipChanged_le (changed : Bitarray) (n : ℕ) : skipChanged changed n ≤ n := by
  induction n with
  | zero => exact le_refl _
  | succ n ih =>
    rw [skipChanged]
    split_ifs
    · exact ih.trans (Nat.le_succ _)
    · exact le_refl _

theorem skipChanged_lt {changed : Bitarray} {n : ℕ} (hn : 0 < n) (h : changed (n - 1) = true) :
    skipChanged changed n < n := by
  obtain ⟨m, rfl⟩ := Nat.exists_eq_add_of_lt hn
  rw [Nat.zero_add, skipChanged]
  rw [Nat.zero_add, Nat.add_sub_cancel] at h
  rw [if_pos h]
  exact Nat.lt_succ_of_le (skipChanged_le changed m)

def genCommands (cons2 : List Line) (changed1 changed2 : Bitarray) (n1 n2 : ℕ) :
    Option (List Line) :=
  if n1 = 0 ∧ n2 = 0 then some []
  else if ¬ (n1 > 0 ∧ changed1 (n1 - 1) = true) ∧ ¬ (n2 > 0 ∧ changed2 (n2 - 1) = true) then
    genCommands cons2 changed1 changed2 (n1 - 1) (n2 - 1)
  else do
    let start1 := skipChanged changed1 n1
    let start2 := skipChanged changed2 n2
    let lines ← edCommand cons2 start1 n1 start2 n2
    let rest ← genCommands cons2 changed1 changed2 start1 start2
    some (lines ++ rest)
termination_by n1 + n2
decreasing_by
  · omega
  · rename_i hmore hmarked
    have hle1 := skipChanged_le changed1 n1
    have hle2 := skipChanged_le changed2 n2
    by_cases hfirst : n1 > 0 ∧ changed1 (n1 - 1) = true
    · have hlt := skipChanged_lt hfirst.1 hfirst.2
      omega
    · have hsecond : n2 > 0 ∧ changed2 (n2 - 1) = true := by tauto
      have hlt := skipChanged_lt hsecond.1 hsecond.2
      omega

def genEdDiff (cons1Orig cons2 : List Line) : Option (List Line) := do
  let (cons1, removeTrailer) := preprocessConsensus cons1Orig
  let (changed1, changed2) ← chunkLoop cons1 cons2 walkInit
  let commands ← genCommands cons2 changed1 changed2 cons1.length cons2.length
  some (removeTrailer.toList ++ commands)

/-! ### Applying a script -/

/-- What follows the comma; `$` is the last line of the base. -/
def readRangeEnd (len1 start : ℕ) (ptr : Bytes) : Option (ℕ × Bool × Bool × Bytes) := do
  let (stop, endWasEof, ptr) ←
    if ptr.headD 0 = 36 then some (len1, true, ptr.tail)
    else (getLinenum ptr).map fun r => (r.1, false, r.2)
  if stop ≤ start then none else some (stop, true, endWasEof, ptr)

def readCommand (len1 : ℕ) (j : ℤ) (diffLine : Line) : Option (ℕ × ℕ × UInt8) := do
  if diffLine.length > 127 then none
  else
    let (start, ptr) ← getLinenum diffLine
    let (stop, hadRange, endWasEof, ptr) ←
      if ptr.headD 0 = 44 then readRangeEnd len1 start ptr.tail else some (start, false, false, ptr)
    let action := ptr.headD 0
    if stop > j then none
    else if action = 0 then none
    else if ptr.getD 1 0 ≠ 0 then none
    else if action ≠ 97 ∧ action ≠ 99 ∧ action ≠ 100 then none
    else if endWasEof = true ∧ action ≠ 100 then none
    else if hadRange = true ∧ action = 97 then none
    else some (start, stop, action)
/-- The unchanged lines of the base down to `stop`.  `cons2` is kept from its end, so what is added
comes in front. -/
def addUnchanged (cons1 : List Line) (stop : ℕ) : ℕ → List Line → List Line
  | 0, cons2 => cons2
  | j + 1, cons2 =>
    if j + 1 > stop then addUnchanged cons1 stop j (lineAt cons1 j :: cons2) else cons2

def applyLoop (cons1 : List Line) (diff : List Line) (j : ℤ) (cons2 : List Line) :
    Option (List Line) :=
  match diff with
  | [] => some (addUnchanged cons1 0 j.toNat cons2)
  | diffLine :: diff =>
    match readCommand cons1.length j diffLine with
    | none => none
    | some (start, stop, action) =>
      let cons2 := addUnchanged cons1 stop j.toNat cons2
      let j := min j stop
      let j := if action = 99 ∨ action = 100 then min (j - 1) (start - 1) else j
      if action = 97 ∨ action = 99 then
        let added := diff.takeWhile fun line => !linesEq line dot
        if added.length = diff.length ∨ added = [] then none
        else applyLoop cons1 (diff.drop (added.length + 1)) j (added ++ cons2)
      else applyLoop cons1 diff j cons2
termination_by diff.length
decreasing_by
  · simp only [List.length_drop, List.length_cons]
    omega
  · simp only [List.length_cons]
    omega

def applyEdDiff (cons1 diff : List Line) (diffStartingLine : ℕ) : Option (List Line) :=
  applyLoop cons1 (diff.drop diffStartingLine) cons1.length []

theorem readCommand_single (len1 : ℕ) {n j : ℕ} {action : UInt8} (hn : n ≤ intMax) (hj : n ≤ j)
    (haction : action = 97 ∨ action = 99 ∨ action = 100) :
    readCommand len1 j (decimal n ++ [action]) = some (n, n, action) := by
  have hlen : ¬ (decimal n ++ [action]).length > 127 := by
    have := length_decimal_le hn
    simp only [List.length_append, List.length_singleton]
    omega
  have hdigit : torIsdigit action = false := by
    obtain rfl | rfl | rfl := haction <;> rfl
  have hcomma : action ≠ 44 := by
    obtain rfl | rfl | rfl := haction <;> decide
  have hzero : action ≠ 0 := by
    obtain rfl | rfl | rfl := haction <;> decide
  have hknown : ¬ (action ≠ 97 ∧ action ≠ 99 ∧ action ≠ 100) := by tauto
  have hstop : ¬ (n : ℤ) > j := by omega
  unfold readCommand
  rw [if_neg hlen, getLinenum_decimal hn hdigit]
  simp [hcomma, hzero, hknown, hj]

theorem readCommand_range (len1 : ℕ) {start stop j : ℕ} {action : UInt8} (hlt : start < stop)
    (hstop : stop ≤ intMax) (hj : stop ≤ j) (haction : action = 99 ∨ action = 100) :
    readCommand len1 j (decimal start ++ 44 :: (decimal stop ++ [action])) =
      some (start, stop, action) := by
  have hstart : start ≤ intMax := hlt.le.trans hstop
  have hlen : ¬ (decimal start ++ 44 :: (decimal stop ++ [action])).length > 127 := by
    have h1 := length_decimal_le hstart
    have h2 := length_decimal_le hstop
    simp only [List.length_append, List.length_cons, List.length_nil]
    omega
  have hdigit : torIsdigit action = false := by
    obtain rfl | rfl := haction <;> rfl
  have hzero : action ≠ 0 := by
    obtain rfl | rfl := haction <;> decide
  have hadd : action ≠ 97 := by
    obtain rfl | rfl := haction <;> decide
  have hknown : ¬ action = 99 → action = 100 := haction.resolve_left
  have hhead : (decimal stop ++ [action]).headD 0 ≠ 36 := by
    obtain ⟨hne, hdigits, -⟩ := decimal_spec stop
    obtain ⟨x, l, hxl⟩ := List.exists_cons_of_ne_nil hne
    rw [hxl] at hdigits ⊢
    intro heq
    have hx := hdigits x List.mem_cons_self
    rw [show x = 36 from heq] at hx
    exact absurd hx (by decide)
  have hrange : readRangeEnd len1 start (decimal stop ++ [action]) =
      some (stop, true, false, [action]) := by
    unfold readRangeEnd
    rw [if_neg hhead, getLinenum_decimal hstop hdigit]
    simp [Nat.not_le.mpr hlt]
  unfold readCommand
  rw [if_neg hlen, getLinenum_decimal hstart (by decide)]
  simpa [hrange, hzero, hadd, hj] using hknown

theorem readCommand_trailer {len1 idx : ℕ} (hidx : idx < len1) (hlen1 : len1 ≤ intMax) :
    readCommand len1 len1 (decimal (idx + 1) ++ [44, 36, 100]) =
      if idx + 1 = len1 then none else some (idx + 1, len1, 100) := by
  have hstart : idx + 1 ≤ intMax := by omega
  have hlen : ¬ (decimal (idx + 1) ++ [44, 36, 100]).length > 127 := by
    have h1 := length_decimal_le hstart
    simp only [List.length_append, List.length_cons, List.length_nil]
    omega
  unfold readCommand
  rw [if_neg hlen, getLinenum_decimal hstart (by decide)]
  split_ifs with hlast
  · simp [readRangeEnd, hlast]
  · have hlt : ¬ len1 ≤ idx + 1 := by omega
    simp [readRangeEnd, hlt]

/-! ### Each command does what the marks say -/

theorem addUnchanged_of_le {cons1 cons2 : List Line} {stop j : ℕ} (h : j ≤ stop) :
    addUnchanged cons1 stop j cons2 = cons2 := by
  cases j with
  | zero => rfl
  | succ j => exact if_neg (by omega)

theorem addUnchanged_pred {cons1 cons2 : List Line} {stop j : ℕ} (h : stop < j) :
    addUnchanged cons1 stop j cons2 =
      lineAt cons1 stop :: addUnchanged cons1 (stop + 1) j cons2 := by
  induction j generalizing cons2 with
  | zero => cases h
  | succ j ih =>
    rw [addUnchanged, if_pos h]
    by_cases hj : stop < j
    · rw [ih hj, addUnchanged, if_pos (by omega)]
    · obtain rfl : stop = j := by omega
      rw [addUnchanged_of_le (le_refl _), addUnchanged_of_le (le_refl _)]

theorem lines_append_drop {cons2 : List Line} {m n : ℕ} (hmn : m ≤ n) (hn : n ≤ cons2.length) :
    (List.range' m (n - m)).map (lineAt cons2) ++ cons2.drop n = cons2.drop m := by
  have hlines : (List.range' m (n - m)).map (lineAt cons2) = (cons2.drop m).take (n - m) := by
    refine List.ext_getElem ?_ fun i hi hi' => ?_
    · simp
      omega
    · rw [List.length_map, List.length_range'] at hi
      have hlt : m + i < cons2.length := by omega
      simp [lineAt, List.getElem?_eq_getElem hlt]
  have hdrop : cons2.drop n = (cons2.drop m).drop (n - m) := by
    rw [List.drop_drop, Nat.add_sub_cancel' hmn]
  rw [hlines, hdrop, List.take_append_drop]

theorem applyLoop_delete {cons1 cons2 diff : List Line} {line : Line} {j start stop : ℕ}
    (hread : readCommand cons1.length j line = some (start + 1, stop, 100)) (hstop : stop ≤ j)
    (hstart : start ≤ stop - 1) (hpos : 0 < stop) :
    applyLoop cons1 (line :: diff) j cons2 =
      applyLoop cons1 diff start (addUnchanged cons1 stop j cons2) := by
  have hj : min (min (j : ℤ) stop - 1) start = start := by omega
  rw [applyLoop, hread]
  simp [hj]

theorem applyLoop_add {cons1 cons2 diff added : List Line} {line : Line} {j start stop : ℕ}
    {action : UInt8} (hread : readCommand cons1.length j line = some (start, stop, action))
    (hstop : stop ≤ j) (hpos : action = 99 → 0 < start ∧ start ≤ stop)
    (haction : action = 97 ∨ action = 99) (hadded : added ≠ [])
    (hdot : ∀ l ∈ added, linesEq dot l = false) :
    applyLoop cons1 (line :: (added ++ dot :: diff)) j cons2 =
      applyLoop cons1 diff (if action = 99 then start - 1 else stop : ℕ)
        (added ++ addUnchanged cons1 stop j cons2) := by
  have htake : (added ++ dot :: diff).takeWhile (fun l => !linesEq l dot) = added := by
    rw [List.takeWhile_append_of_pos, List.takeWhile_cons_of_neg (by decide), List.append_nil]
    intro l hl
    have h := of_decide_eq_false (hdot l hl)
    rw [linesEq, decide_eq_false (Ne.symm h)]
    rfl
  have hdrop : (added ++ dot :: diff).drop (added.length + 1) = diff := by
    rw [List.drop_append]
    simp
  have hshort : ¬ (added.length = (added ++ dot :: diff).length ∨ added = []) := by
    simp [hadded]
  rw [applyLoop, hread]
  simp only [htake, hdrop, if_neg hshort]
  obtain rfl | rfl := haction
  · have hj : min (j : ℤ) stop = stop := by omega
    simp [hj]
  · obtain ⟨hpos', hle⟩ := hpos rfl
    have hj : min (min (j : ℤ) stop - 1) (start - 1) = ((start - 1 : ℕ) : ℤ) := by omega
    simp [hj]

theorem skipChanged_marked (changed : Bitarray) (n : ℕ) :
    ∀ i, skipChanged changed n ≤ i → i < n → changed i = true := by
  induction n with
  | zero => exact fun i _ hi => absurd hi (Nat.not_lt_zero i)
  | succ n ih =>
    intro i hlow hhigh
    rw [skipChanged] at hlow
    split_ifs at hlow with hmarked
    · by_cases hi : i = n
      · rw [hi, hmarked]
      · exact ih i hlow (by omega)
    · omega

theorem kept_skipChanged (changed : Bitarray) (list : List Line) (n : ℕ) :
    kept changed ⟨list, 0, skipChanged changed n⟩ = kept changed ⟨list, 0, n⟩ := by
  have hle := skipChanged_le changed n
  have hmarked : kept changed ⟨list, 0 + skipChanged changed n, n - skipChanged changed n⟩ = [] := by
    refine kept_of_marked fun i hlow hhigh => ?_
    simp only at hlow hhigh
    exact skipChanged_marked changed n i (by omega) (by omega)
  have happend := kept_append changed list 0 (skipChanged changed n) (n - skipChanged changed n)
  rw [Nat.add_sub_cancel' hle, hmarked, List.append_nil] at happend
  exact happend.symm

theorem applyLoop_edCommand {cons1 cons2 target diff lines : List Line} {m1 n1 m2 n2 j : ℕ}
    (hcommand : edCommand target m1 n1 m2 n2 = some lines) (hm1 : m1 ≤ n1) (hm2 : m2 ≤ n2)
    (hsome : m1 < n1 ∨ m2 < n2) (hn1 : n1 ≤ intMax) (hj : n1 ≤ j) (hn2 : n2 ≤ target.length)
    (hrest : addUnchanged cons1 n1 j cons2 = target.drop n2) :
    applyLoop cons1 (lines ++ diff) j cons2 = applyLoop cons1 diff m1 (target.drop m2) := by
  have hlines := lines_append_drop hm2 hn2
  have hkept : ∀ command, (command :: ((List.range' m2 (n2 - m2)).map (lineAt target) ++ [dot])) ++
      diff = command :: ((List.range' m2 (n2 - m2)).map (lineAt target) ++ dot :: diff) := by
    intro command
    simp
  have hfree : ¬ ((List.range' m2 (n2 - m2)).map (lineAt target)).any (linesEq dot) = true →
      ∀ l ∈ (List.range' m2 (n2 - m2)).map (lineAt target), linesEq dot l = false :=
    fun hdot l hl => Bool.eq_false_iff.mpr fun heq => hdot (List.any_eq_true.mpr ⟨l, hl, heq⟩)
  unfold edCommand at hcommand
  simp only at hcommand
  split_ifs at hcommand with hnone hone hdot hzero hone
  · -- one line is deleted
    obtain rfl := Option.some.inj hcommand
    have hread : readCommand cons1.length j _ = _ :=
      readCommand_single cons1.length (show m1 + 1 ≤ intMax by omega) (by omega) (.inr (.inr rfl))
    have hn : m1 + 1 = n1 := by omega
    have hm : m2 = n2 := by omega
    rw [List.singleton_append, applyLoop_delete hread (by omega) (by omega) (by omega), hn, hrest, hm]
  · obtain rfl := Option.some.inj hcommand
    have hn : m1 + (n1 - m1) = n1 := by omega
    have hm : m2 = n2 := by omega
    have hread : readCommand cons1.length j _ = _ :=
      readCommand_range cons1.length (show m1 + 1 < m1 + (n1 - m1) by omega) (by omega) (by omega) (.inr rfl)
    rw [List.singleton_append, applyLoop_delete hread (by omega) (by omega) (by omega), hn, hrest, hm]
  · -- lines are added, and none is deleted
    obtain rfl := Option.some.inj hcommand
    have hm : m1 = n1 := by omega
    have hread : readCommand cons1.length j _ = _ :=
      readCommand_single cons1.length (show m1 ≤ intMax by omega) (by omega) (.inl rfl)
    rw [hkept, applyLoop_add hread (by omega) (fun heq => absurd heq (by decide)) (.inl rfl) ?_ ?_,
      if_neg (by decide), hm, hrest, hlines]
    · simpa using hnone
    · exact hfree hdot
  · obtain rfl := Option.some.inj hcommand
    have hn : m1 + 1 = n1 := by omega
    have hread : readCommand cons1.length j _ = _ :=
      readCommand_single cons1.length (show m1 + 1 ≤ intMax by omega) (by omega) (.inr (.inl rfl))
    rw [hkept, applyLoop_add hread (by omega) (fun _ => by omega) (.inr rfl) ?_ ?_, if_pos rfl,
      Nat.add_sub_cancel, hn, hrest, hlines]
    · simpa using hnone
    · exact hfree hdot
  · obtain rfl := Option.some.inj hcommand
    have hn : m1 + (n1 - m1) = n1 := by omega
    have hread : readCommand cons1.length j _ = _ :=
      readCommand_range cons1.length (show m1 + 1 < m1 + (n1 - m1) by omega) (by omega) (by omega) (.inl rfl)
    rw [hkept, applyLoop_add hread (by omega) (fun _ => by omega) (.inr rfl) ?_ ?_, if_pos rfl,
      Nat.add_sub_cancel, hn, hrest, hlines]
    · simpa using hnone
    · exact hfree hdot

theorem applyLoop_genCommands {cons1 target : List Line} {changed1 changed2 : Bitarray} (n1 n2 : ℕ)
    {script : List Line} (hgen : genCommands target changed1 changed2 n1 n2 = some script)
    (hn1 : n1 ≤ intMax) (hn2 : n2 ≤ target.length)
    (hkept : kept changed1 ⟨cons1, 0, n1⟩ = kept changed2 ⟨target, 0, n2⟩) {j : ℕ}
    {cons2 : List Line} (hj : n1 ≤ j) (hrest : addUnchanged cons1 n1 j cons2 = target.drop n2) :
    applyLoop cons1 script j cons2 = some target := by
  induction n1, n2 using genCommands.induct changed1 changed2 generalizing script j cons2 with
  | case1 n1 n2 hdone =>
    obtain ⟨rfl, rfl⟩ := hdone
    rw [genCommands, if_pos ⟨rfl, rfl⟩] at hgen
    obtain rfl := Option.some.inj hgen
    rw [applyLoop, Int.toNat_natCast, hrest, List.drop_zero]
  | case2 n1 n2 hmore hclear ih =>
    rw [genCommands, if_neg hmore, if_pos hclear] at hgen
    -- the last lines left of both are not marked, so they are the same
    have hlast1 : ∀ m, n1 = m + 1 →
        kept changed1 ⟨cons1, 0, n1⟩ = kept changed1 ⟨cons1, 0, m⟩ ++ [lineAt cons1 m] := by
      rintro m rfl
      have hfalse : changed1 m = false := by simpa using hclear.1
      rw [kept_append, Nat.zero_add, kept_one, hfalse]
      rfl
    have hlast2 : ∀ m, n2 = m + 1 →
        kept changed2 ⟨target, 0, n2⟩ = kept changed2 ⟨target, 0, m⟩ ++ [lineAt target m] := by
      rintro m rfl
      have hfalse : changed2 m = false := by simpa using hclear.2
      rw [kept_append, Nat.zero_add, kept_one, hfalse]
      rfl
    cases n1 with
    | zero =>
      cases n2 with
      | zero => exact absurd ⟨rfl, rfl⟩ hmore
      | succ m2 =>
        rw [hlast2 m2 rfl] at hkept
        exact absurd hkept (by simp [kept])
    | succ m1 =>
      cases n2 with
      | zero =>
        rw [hlast1 m1 rfl] at hkept
        exact absurd hkept.symm (by simp [kept])
      | succ m2 =>
        rw [hlast1 m1 rfl, hlast2 m2 rfl] at hkept
        obtain ⟨hkept', hline⟩ := List.append_inj' hkept rfl
        refine ih hgen (by omega) (by omega) hkept' (by omega) ?_
        rw [Nat.add_sub_cancel, Nat.add_sub_cancel, addUnchanged_pred hj, hrest,
          List.singleton_inj.mp hline, lineAt, List.getD_eq_getElem _ _ hn2,
          List.drop_eq_getElem_cons hn2]
  | case3 n1 n2 hmore hmarked start1 start2 =>
    rename_i ih
    rw [genCommands, if_neg hmore, if_neg hmarked] at hgen
    obtain ⟨lines, hcommand, hgen⟩ := Option.bind_eq_some_iff.mp hgen
    obtain ⟨rest, hgenRest, hscript⟩ := Option.bind_eq_some_iff.mp hgen
    obtain rfl := Option.some.inj hscript
    have hle1 : start1 ≤ n1 := skipChanged_le changed1 n1
    have hle2 : skipChanged changed2 n2 ≤ n2 := skipChanged_le changed2 n2
    have hsome : start1 < n1 ∨ skipChanged changed2 n2 < n2 := by
      by_cases hfirst : n1 > 0 ∧ changed1 (n1 - 1) = true
      · exact .inl (skipChanged_lt hfirst.1 hfirst.2)
      · have hsecond : n2 > 0 ∧ changed2 (n2 - 1) = true := by tauto
        exact .inr (skipChanged_lt hsecond.1 hsecond.2)
    rw [applyLoop_edCommand hcommand hle1 hle2 hsome hn1 hj hn2 hrest]
    refine ih hgenRest (by omega) (by omega) ?_ (le_refl _) (addUnchanged_of_le (le_refl _))
    exact (kept_skipChanged changed1 cons1 n1).trans
      (hkept.trans (kept_skipChanged changed2 target n2).symm)

theorem lineAt_take {cons : List Line} {k i : ℕ} (hi : i < k) :
    lineAt (cons.take k) i = lineAt cons i := by
  simp [lineAt, hi]

theorem kept_take (changed : Bitarray) (cons : List Line) {k n : ℕ} (hn : n ≤ k) :
    kept changed ⟨cons.take k, 0, n⟩ = kept changed ⟨cons, 0, n⟩ := by
  unfold kept
  refine List.map_congr_left fun i hi => ?_
  obtain ⟨-, hlt⟩ := List.mem_range'_1.mp (List.mem_filter.mp hi).1
  simp only at hlt ⊢
  exact lineAt_take (by omega)

def SignatureLast (cons : List Line) : Prop :=
  ∃ idx, dirsigIdx cons = some idx ∧ idx + 1 = cons.length

theorem preprocessConsensus_take (cons : List Line) :
    ∃ k ≤ cons.length, (preprocessConsensus cons).1 = cons.take k := by
  unfold preprocessConsensus
  split
  · exact ⟨cons.length, le_refl _, (List.take_length).symm⟩
  · next idx hidx =>
    obtain ⟨hlt, -⟩ := List.findIdx?_eq_some_iff_getElem.mp hidx
    exact ⟨idx, hlt.le, rfl⟩

/-- A script gives the target, unless its first command deletes one line to `$`. -/
theorem applyEdDiff_iff {cons1 cons2 script : List Line} (hlen : cons1.length ≤ intMax)
    (hgen : genEdDiff cons1 cons2 = some script) :
    applyEdDiff cons1 script 0 = some cons2 ↔ ¬ SignatureLast cons1 := by
  unfold genEdDiff at hgen
  simp only at hgen
  obtain ⟨⟨changed1, changed2⟩, hloop, hgen⟩ := Option.bind_eq_some_iff.mp hgen
  obtain ⟨commands, hcommands, hscript⟩ := Option.bind_eq_some_iff.mp hgen
  obtain rfl := Option.some.inj hscript
  obtain ⟨k, hk, htake⟩ := preprocessConsensus_take cons1
  have hsame := chunkLoop_spec walkInit (walked_init _ _) hloop
  have hlength : (preprocessConsensus cons1).1.length = k := by
    rw [htake, List.length_take_of_le hk]
  rw [hlength] at hcommands hsame
  simp only [htake] at hsame
  rw [kept_take changed1 cons1 (le_refl k)] at hsame
  -- what is left when the signatures are gone
  have hcommandsApply : applyLoop cons1 commands k [] = some cons2 :=
    applyLoop_genCommands k cons2.length hcommands (hk.trans hlen) (le_refl _) hsame (le_refl _)
      (by rw [addUnchanged_of_le (le_refl _), List.drop_length])
  rw [applyEdDiff, List.drop_zero]
  cases hidx : dirsigIdx cons1 with
  | none =>
    have hpre : preprocessConsensus cons1 = (cons1, none) := by
      unfold preprocessConsensus
      rw [hidx]
    have hk' : k = cons1.length := by rw [← hlength, hpre]
    have hlast : ¬ SignatureLast cons1 := by
      rintro ⟨idx, hsome, -⟩
      rw [hidx] at hsome
      cases hsome
    rw [hpre, Option.toList_none, List.nil_append, ← hk', hcommandsApply]
    exact iff_of_true rfl hlast
  | some idx =>
    have hpre : preprocessConsensus cons1 =
        (cons1.take idx, some (decimal (idx + 1) ++ [44, 36, 100])) := by
      unfold preprocessConsensus
      rw [hidx]
    obtain ⟨hlt, -⟩ := List.findIdx?_eq_some_iff_getElem.mp hidx
    have hk' : k = idx := by rw [← hlength, hpre, List.length_take_of_le hlt.le]
    have hlast : SignatureLast cons1 ↔ idx + 1 = cons1.length := by
      unfold SignatureLast
      simp [hidx]
    have hread := readCommand_trailer hlt hlen
    rw [hpre, Option.toList_some, List.singleton_append, hlast]
    split_ifs at hread with hone
    · rw [applyLoop, hread]
      exact iff_of_false (by simp) (by simp [hone])
    · rw [applyLoop_delete hread (le_refl _) (by omega) (by omega), addUnchanged_of_le (le_refl _),
        ← hk', hcommandsApply]
      exact iff_of_true rfl (hk' ▸ hone)

/-! ### The check of the generator on itself -/

/-- How `consdiff_gen_diff` ends: without a script, in one of its two failed checks, or with a diff. -/
inductive GenDiff
  | notGenerated
  | notApplied
  | otherTarget
  | diff (lines : List Line)
  deriving DecidableEq

def nsDiffVersion : Line := ascii "network-status-diff-version 1"

def hashToken : Line := ascii "hash"

def diffHeader (digest1 digest2 : Block 32) : List Line :=
  [nsDiffVersion, hashToken ++ 32 :: (base16Encode digest1.toList ++
    32 :: base16Encode digest2.toList)]

def consdiffGenDiff (digest1 digest2 : Block 32) (cons1 cons2 : List Line) : GenDiff :=
  match genEdDiff cons1 cons2 with
  | none => .notGenerated
  | some edDiff =>
    match applyEdDiff cons1 edDiff 0 with
    | none => .notApplied
    | some edCons2 =>
      if cons2.length = edCons2.length ∧
          (List.range cons2.length).all (fun i => linesEq (lineAt cons2 i) (lineAt edCons2 i)) = true
      then .diff (diffHeader digest1 digest2 ++ edDiff)
      else .otherTarget

end Consdiff
