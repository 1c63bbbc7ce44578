/-
Searching a buffer for a string (`buf_find_string_offset`).

A position is a chunk and a place in it.  When a position is moved past the data of its chunk, it is
put at the beginning of the next one, whether that has data or not; and once it is in a chunk without
data it is never at the end of the data again, so that what is compared from then on is memory.
-/
import LibEltor.BufCounted
import LibEltor.Search

open Bytes ListSearch Transition

namespace Buffers

/-- A chunk, with the memory behind its data by the position from `data` on. -/
structure Loaded where
  data : Bytes
  behind : ℕ → UInt8

def Loaded.byte (c : Loaded) (pos : ℕ) : UInt8 := (c.data[pos]?).getD (c.behind pos)

/-- `mem i` is the memory of chunk `i`. -/
def load (mem : ℕ → ℕ → UInt8) (chunks : List Chunk) : List Loaded :=
  chunks.mapIdx fun i c => ⟨c.data, mem i⟩

/-- `buf_pos_t`: the chunk with those behind it, empty for a null pointer. -/
structure BufPos where
  chunk : List Loaded
  pos : ℕ
  chunkPos : ℕ

def bufPosInit (mem : ℕ → ℕ → UInt8) (buf : Buf) : BufPos := ⟨load mem buf.chunks, 0, 0⟩

def findFrom (ch : UInt8) : List Loaded → ℕ → ℕ → Option BufPos
  | [], _, _ => none
  | c :: rest, pos, chunkPos =>
    match (c.data.drop pos).findIdx? (· = ch) with
    | some k => some ⟨c :: rest, pos + k, chunkPos⟩
    | none => findFrom ch rest 0 (chunkPos + c.data.length)

/-- What `buf_find_pos_of_char` asserts of a position. -/
def BufPos.Valid (out : BufPos) : Prop :=
  ∀ c, out.chunk.head? = some c → if c.data ≠ [] then out.pos < c.data.length else out.pos = 0

instance (out : BufPos) : Decidable out.Valid :=
  match h : out.chunk.head? with
  | none => isTrue fun c hc => by rw [h] at hc; cases hc
  | some c => decidable_of_iff (if c.data ≠ [] then out.pos < c.data.length else out.pos = 0)
      ⟨fun hc d hd => by rw [h] at hd; cases hd; exact hc, fun hall => hall c h⟩

/-- The new position, none in it for -1; and none where an assertion fails. -/
def bufFindPosOfChar (ch : UInt8) (out : BufPos) : Option (Option BufPos) :=
  if out.Valid then
    match findFrom ch out.chunk out.pos out.chunkPos with
    | none => some none
    | some found => if found.pos ≤ bufMaxLen then some (some found) else none
  else none

def bufPosInc (pos : BufPos) : Option (Option BufPos) :=
  if pos.pos < bufMaxLen then
    match pos.chunk with
    | [] => none
    | c :: rest =>
      if pos.pos + 1 = c.data.length then
        match rest with
        | [] => some none
        | _ :: _ => some (some ⟨rest, 0, pos.chunkPos + c.data.length⟩)
      else some (some { pos with pos := pos.pos + 1 })
  else none

def bufMatchesAtPos : BufPos → Bytes → Option Bool
  | _, [] => some true
  | p, ch :: s =>
    match p.chunk with
    | [] => none
    | c :: _ =>
      if c.byte p.pos ≠ ch then some false
      else if s = [] then some true
      else
        match bufPosInc p with
        | none => none
        | some none => some false
        | some (some p) => bufMatchesAtPos p s
termination_by structural _ s => s

/-- The `while` loop, for `fuel` positions at most. -/
def findStringLoop (s : Bytes) : ℕ → BufPos → Option ℤ
  | 0, _ => none
  | fuel + 1, pos =>
    match bufFindPosOfChar (s.headD 0) pos with
    | none => none
    | some none => some (-1)
    | some (some pos) =>
      match bufMatchesAtPos pos s with
      | none => none
      | some true =>
        if pos.chunkPos + pos.pos ≤ bufMaxLen then some (pos.chunkPos + pos.pos : ℕ) else none
      | some false =>
        match bufPosInc pos with
        | none => none
        | some none => some (-1)
        | some (some pos) => findStringLoop s fuel pos

def bufFindStringOffset (mem : ℕ → ℕ → UInt8) (buf : Buf) (s : Bytes) : Option ℤ :=
  findStringLoop s (buf.datalen + 1) (bufPosInit mem buf)

/-! ### What is compared -/

def run : List Loaded → Bytes
  | [] => []
  | c :: rest => if c.data = [] then [] else c.data ++ run rest

def gap : List Loaded → Option (ℕ → UInt8)
  | [] => none
  | c :: rest => if c.data = [] then some c.behind else gap rest

/-- What is seen from position `i` of the content: data, and the memory behind it if there is a
chunk without data. -/
def view : List Loaded → ℕ → Bytes × Option (ℕ → UInt8)
  | [], _ => ([], none)
  | c :: rest, i =>
    if i < c.data.length then (c.data.drop i ++ run rest, gap rest) else view rest (i - c.data.length)

def matchMem (m : ℕ → UInt8) : ℕ → Bytes → Option Bool
  | _, [] => some true
  | k, ch :: s =>
    if m k ≠ ch then some false
    else if s = [] then some true
    else if k < bufMaxLen then matchMem m (k + 1) s
    else none

def matchView : Bytes → Option (ℕ → UInt8) → Bytes → Option Bool
  | _, _, [] => some true
  | [], none, _ :: _ => some false
  | [], some m, s@(_ :: _) => matchMem m 0 s
  | b :: f, g, ch :: s => if b ≠ ch then some false else matchView f g s

def bytes (l : List Loaded) : Bytes := l.flatMap Loaded.data

@[simp] theorem bytes_nil : bytes [] = [] := rfl

@[simp] theorem bytes_cons (c : Loaded) (l : List Loaded) : bytes (c :: l) = c.data ++ bytes l :=
  List.flatMap_cons

@[simp] theorem bytes_append (l m : List Loaded) : bytes (l ++ m) = bytes l ++ bytes m :=
  List.flatMap_append

theorem bytes_load (mem : ℕ → ℕ → UInt8) (chunks : List Chunk) :
    bytes (load mem chunks) = content chunks := by
  induction chunks generalizing mem with
  | nil => rfl
  | cons c chunks ih =>
    have hload : load mem (c :: chunks) = ⟨c.data, mem 0⟩ :: load (fun i => mem (i + 1)) chunks :=
      List.mapIdx_cons
    rw [hload, bytes_cons, content_cons, ih]

theorem bufMatchesAtPos_gap {c : Loaded} (hc : c.data = []) (rest : List Loaded) (chunkPos : ℕ)
    (s : Bytes) (k : ℕ) : bufMatchesAtPos ⟨c :: rest, k, chunkPos⟩ s = matchMem c.behind k s := by
  induction s generalizing k with
  | nil => rfl
  | cons ch s ih =>
    have hbyte : c.byte k = c.behind k := by
      rw [Loaded.byte, hc]
      rfl
    rw [bufMatchesAtPos, matchMem]
    simp only [hbyte]
    by_cases hne : c.behind k ≠ ch
    · rw [if_pos hne, if_pos hne]
    rw [if_neg hne, if_neg hne]
    by_cases hs : s = []
    · rw [if_pos hs, if_pos hs]
    rw [if_neg hs, if_neg hs, bufPosInc]
    by_cases hk : k < bufMaxLen
    · have hend : k + 1 ≠ c.data.length := by rw [hc]; exact Nat.succ_ne_zero k
      simp only [if_pos hk, if_neg hend]
      exact ih (k + 1)
    · simp only [if_neg hk]

theorem bufMatchesAtPos_eq {s : Bytes} :
    ∀ {c : Loaded} {rest : List Loaded} {pos : ℕ} (chunkPos : ℕ), pos < c.data.length →
      c.data.length + (run rest).length ≤ bufMaxLen →
      bufMatchesAtPos ⟨c :: rest, pos, chunkPos⟩ s =
        matchView (c.data.drop pos ++ run rest) (gap rest) s := by
  induction s with
  | nil =>
    intro c rest pos chunkPos _ _
    cases h : c.data.drop pos ++ run rest <;> rfl
  | cons ch s ih =>
    intro c rest pos chunkPos hpos hmax
    rw [bufMatchesAtPos, List.drop_eq_getElem_cons hpos, List.cons_append, matchView]
    have hbyte : c.byte pos = c.data[pos] := by
      rw [Loaded.byte, List.getElem?_eq_getElem hpos]
      rfl
    simp only [hbyte]
    by_cases hne : c.data[pos] ≠ ch
    · rw [if_pos hne, if_pos hne]
    rw [if_neg hne, if_neg hne]
    by_cases hs : s = []
    · subst hs
      cases h : c.data.drop (pos + 1) ++ run rest <;> rfl
    rw [if_neg hs, bufPosInc]
    simp only [if_pos (show pos < bufMaxLen by omega)]
    by_cases hend : pos + 1 = c.data.length
    · -- at the end of the data, the position goes on to the next chunk
      rw [if_pos hend, List.drop_eq_nil_of_le hend.ge, List.nil_append]
      obtain ⟨ch', s', rfl⟩ := List.exists_cons_of_ne_nil hs
      cases rest with
      | nil => rfl
      | cons d rest =>
        by_cases hd : d.data = []
        · rw [run, gap, if_pos hd, if_pos hd]
          exact bufMatchesAtPos_gap hd rest _ _ 0
        · rw [run, if_neg hd, List.length_append] at hmax
          rw [run, gap, if_neg hd, if_neg hd]
          exact ih _ (List.length_pos_iff.mpr hd) (by omega)
    · rw [if_neg hend]
      exact ih chunkPos (by omega) hmax

/-! ### What is tried -/

/-- Whether the string is taken to be at position `i` of the content. -/
def matchAt (l : List Loaded) (s : Bytes) (i : ℕ) : Option Bool := matchView (view l i).1 (view l i).2 s

/-- Trying `n` positions from `i` on. -/
def scan (l : List Loaded) (s : Bytes) : ℕ → ℕ → Option ℤ
  | 0, _ => some (-1)
  | n + 1, i =>
    match matchAt l s i with
    | none => none
    | some true => some i
    | some false => scan l s n (i + 1)

theorem length_run_le (l : List Loaded) : (run l).length ≤ (bytes l).length := by
  induction l with
  | nil => exact le_refl _
  | cons c l ih =>
    rw [run, bytes_cons, List.length_append]
    by_cases hc : c.data = []
    · rw [if_pos hc]
      exact Nat.zero_le _
    · rw [if_neg hc, List.length_append]
      omega

theorem view_append (front : List Loaded) (c : Loaded) (rest : List Loaded) {pos : ℕ}
    (hpos : pos < c.data.length) :
    view (front ++ c :: rest) ((bytes front).length + pos) =
      (c.data.drop pos ++ run rest, gap rest) := by
  induction front with
  | nil =>
    rw [List.nil_append, bytes_nil, List.length_nil, Nat.zero_add, view, if_pos hpos]
  | cons d front ih =>
    rw [bytes_cons, List.length_append, List.cons_append, view, if_neg (by omega), ← ih]
    congr 1
    omega

theorem head?_view (l : List Loaded) (i : ℕ) : (view l i).1.head? = (bytes l)[i]? := by
  induction l generalizing i with
  | nil => rfl
  | cons c l ih =>
    rw [view, bytes_cons]
    by_cases hi : i < c.data.length
    · rw [if_pos hi, List.getElem?_append_left hi, List.drop_eq_getElem_cons hi,
        List.getElem?_eq_getElem hi]
      rfl
    · rw [if_neg hi, List.getElem?_append_right (not_lt.mp hi)]
      exact ih _

theorem matchAt_of_ne {l : List Loaded} {ch : UInt8} {s : Bytes} {i : ℕ}
    (hi : i < (bytes l).length) (hne : (bytes l)[i]? ≠ some ch) :
    matchAt l (ch :: s) i = some false := by
  have hhead := head?_view l i
  rw [matchAt]
  cases hview : (view l i).1 with
  | nil =>
    rw [hview, List.getElem?_eq_getElem hi] at hhead
    cases hhead
  | cons b f =>
    rw [hview] at hhead
    rw [matchView, if_pos]
    rintro rfl
    exact hne hhead.symm

theorem scan_skip {l : List Loaded} {s : Bytes} {i k n : ℕ}
    (h : ∀ j, i ≤ j → j < i + k → matchAt l s j = some false) :
    scan l s (k + n) i = scan l s n (i + k) := by
  induction k generalizing i with
  | zero => rw [Nat.zero_add, Nat.add_zero]
  | succ k ih =>
    rw [Nat.succ_add, scan, h i (le_refl i) (by omega)]
    show scan l s (k + n) (i + 1) = _
    rw [ih fun j hij hjk => h j (by omega) (by omega)]
    congr 1
    omega

structure Located (l : List Loaded) (p : BufPos) (i : ℕ) : Prop where
  place : ∃ front c rest, l = front ++ c :: rest ∧ p.chunk = c :: rest ∧
    p.chunkPos = (bytes front).length ∧ p.pos < c.data.length
  eq : i = p.chunkPos + p.pos

theorem getElem?_ne_before {data : Bytes} {ch : UInt8} {pos k : ℕ}
    (h : (data.drop pos).findIdx? (· = ch) = some k) :
    pos + k < data.length ∧ ∀ j, pos ≤ j → j < pos + k → data[j]? ≠ some ch := by
  obtain ⟨hk, -, hbefore⟩ := List.findIdx?_eq_some_iff_getElem.mp h
  rw [List.length_drop] at hk
  refine ⟨by omega, fun j hj hlt hsome => ?_⟩
  have hnot := hbefore (j - pos) (by omega)
  obtain ⟨hin, heq⟩ := List.getElem?_eq_some_iff.mp hsome
  simp only [List.getElem_drop, decide_eq_true_eq] at hnot
  apply hnot
  rw [← heq]
  congr 1
  omega

theorem getElem?_ne_of_notFound {data : Bytes} {ch : UInt8} {pos : ℕ}
    (h : (data.drop pos).findIdx? (· = ch) = none) : ∀ j, pos ≤ j → data[j]? ≠ some ch := by
  intro j hj hsome
  obtain ⟨hin, heq⟩ := List.getElem?_eq_some_iff.mp hsome
  have hmem : ch ∈ data.drop pos := by
    rw [← heq]
    refine List.mem_drop_iff_getElem.mpr ⟨j - pos, by omega, ?_⟩
    congr 1
    omega
  simpa using List.findIdx?_eq_none_iff.mp h ch hmem

theorem findFrom_spec {l front rest : List Loaded} (hl : l = front ++ rest) (ch : UInt8) {pos : ℕ}
    (hpos : ∀ c, rest.head? = some c → pos ≤ c.data.length) :
    (findFrom ch rest pos (bytes front).length = none ∧
        ∀ j, (bytes front).length + pos ≤ j → j < (bytes l).length → (bytes l)[j]? ≠ some ch) ∨
      ∃ found i, findFrom ch rest pos (bytes front).length = some found ∧ Located l found i ∧
        (bytes front).length + pos ≤ i ∧
        ∀ j, (bytes front).length + pos ≤ j → j < i → (bytes l)[j]? ≠ some ch := by
  induction rest generalizing front pos with
  | nil =>
    refine Or.inl ⟨rfl, fun j hj hlt => ?_⟩
    rw [hl, List.append_nil] at hlt
    omega
  | cons c rest ih =>
    have hle := hpos c rfl
    have hbytes : ∀ j, (bytes front).length ≤ j → j < (bytes front).length + c.data.length →
        (bytes l)[j]? = c.data[j - (bytes front).length]? := by
      intro j hj hlt
      rw [hl, bytes_append, bytes_cons, List.getElem?_append_right hj,
        List.getElem?_append_left (by omega)]
    rw [findFrom]
    cases hfind : (c.data.drop pos).findIdx? (· = ch) with
    | some k =>
      obtain ⟨hk, hbefore⟩ := getElem?_ne_before hfind
      refine Or.inr ⟨_, (bytes front).length + (pos + k), rfl,
        ⟨⟨front, c, rest, hl, rfl, rfl, hk⟩, rfl⟩, by omega, ?_⟩
      intro j hj hlt
      rw [hbytes j (by omega) (by omega)]
      exact hbefore _ (by omega) (by omega)
    | none =>
      have hhere : ∀ j, (bytes front).length + pos ≤ j →
          j < (bytes front).length + c.data.length → (bytes l)[j]? ≠ some ch := by
        intro j hj hlt
        rw [hbytes j (by omega) hlt]
        exact getElem?_ne_of_notFound hfind _ (by omega)
      -- the rest is searched from its beginning
      have hfront : (bytes (front ++ [c])).length = (bytes front).length + c.data.length := by
        rw [bytes_append, bytes_cons, bytes_nil, List.append_nil, List.length_append]
      have hcons : l = (front ++ [c]) ++ rest := by
        rw [hl]
        simp
      have hrest := ih hcons fun d _ => Nat.zero_le d.data.length
      rw [hfront, Nat.add_zero] at hrest
      show (findFrom ch rest 0 _ = none ∧ _) ∨ ∃ found i, findFrom ch rest 0 _ = some found ∧ _
      rcases hrest with ⟨heq, hall⟩ | ⟨found, i, heq, hlocated, hi, hall⟩
      · refine Or.inl ⟨heq, fun j hj hlt => ?_⟩
        by_cases hin : j < (bytes front).length + c.data.length
        · exact hhere j hj hin
        · exact hall j (by omega) hlt
      · refine Or.inr ⟨found, i, heq, hlocated, by omega, fun j hj hlt => ?_⟩
        by_cases hin : j < (bytes front).length + c.data.length
        · exact hhere j hj hin
        · exact hall j (by omega) hlt

theorem BufPos.Valid.le {pos : BufPos} (h : pos.Valid) {c : Loaded}
    (hc : pos.chunk.head? = some c) : pos.pos ≤ c.data.length := by
  have hpos := h c hc
  by_cases hdata : c.data ≠ []
  · rw [if_pos hdata] at hpos
    exact hpos.le
  · rw [if_neg hdata] at hpos
    rw [hpos]
    exact Nat.zero_le _

theorem bufPosInc_spec {l : List Loaded} (hmax : (bytes l).length ≤ bufMaxLen) {pos : BufPos} {i : ℕ}
    (h : Located l pos i) :
    (bufPosInc pos = some none ∧ i + 1 = (bytes l).length) ∨
      ∃ pos' front, bufPosInc pos = some (some pos') ∧ l = front ++ pos'.chunk ∧
        pos'.chunkPos = (bytes front).length ∧ pos'.Valid ∧ pos'.chunkPos + pos'.pos = i + 1 := by
  obtain ⟨⟨front, c, rest, hl, hchunk, hchunkPos, hpos⟩, hi⟩ := h
  have hlen : (bytes l).length = (bytes front).length + (c.data.length + (bytes rest).length) := by
    rw [hl, bytes_append, bytes_cons, List.length_append, List.length_append]
  rw [bufPosInc, if_pos (by omega), hchunk]
  by_cases hend : pos.pos + 1 = c.data.length
  · simp only [if_pos hend]
    cases rest with
    | nil =>
      rw [bytes_nil, List.length_nil] at hlen
      exact Or.inl ⟨rfl, by omega⟩
    | cons d rest =>
      refine Or.inr ⟨_, front ++ [c], rfl, by rw [hl]; simp, ?_, ?_, ?_⟩
      · rw [hchunkPos, bytes_append, bytes_cons, bytes_nil, List.append_nil, List.length_append]
      · intro e he
        obtain rfl := Option.some.inj he
        by_cases hd : d.data ≠ []
        · rw [if_pos hd]
          exact List.length_pos_iff.mpr hd
        · rw [if_neg hd]
      · show pos.chunkPos + c.data.length + 0 = i + 1
        omega
  · simp only [if_neg hend]
    refine Or.inr ⟨_, front, rfl, hl, hchunkPos, ?_, ?_⟩
    · intro e he
      obtain rfl := Option.some.inj he
      have hdata : c.data ≠ [] := List.length_pos_iff.mp (by omega)
      rw [if_pos hdata]
      show pos.pos + 1 < c.data.length
      omega
    · show pos.chunkPos + (pos.pos + 1) = i + 1
      omega

theorem bufMatchesAtPos_located {l : List Loaded} (hmax : (bytes l).length ≤ bufMaxLen)
    {pos : BufPos} {i : ℕ} (h : Located l pos i) (s : Bytes) :
    bufMatchesAtPos pos s = matchAt l s i := by
  obtain ⟨⟨front, c, rest, hl, hchunk, hchunkPos, hpos⟩, hi⟩ := h
  have hlen : (bytes l).length = (bytes front).length + (c.data.length + (bytes rest).length) := by
    rw [hl, bytes_append, bytes_cons, List.length_append, List.length_append]
  have hrun := length_run_le rest
  obtain ⟨chunk, place, chunkPos⟩ := pos
  change chunk = c :: rest at hchunk
  subst hchunk
  rw [bufMatchesAtPos_eq chunkPos hpos (by omega), matchAt, hi]
  change chunkPos = _ at hchunkPos
  show _ = matchView (view l (chunkPos + place)).1 (view l (chunkPos + place)).2 s
  rw [hl, hchunkPos, view_append front c rest hpos]

theorem findStringLoop_eq {l : List Loaded} (hmax : (bytes l).length ≤ bufMaxLen) (ch : UInt8)
    (s : Bytes) : ∀ (fuel : ℕ) (pos : BufPos) (front : List Loaded), l = front ++ pos.chunk →
      pos.chunkPos = (bytes front).length → pos.Valid →
      (bytes l).length - (pos.chunkPos + pos.pos) < fuel →
      findStringLoop (ch :: s) fuel pos =
        scan l (ch :: s) ((bytes l).length - (pos.chunkPos + pos.pos)) (pos.chunkPos + pos.pos) := by
  intro fuel
  induction fuel with
  | zero =>
    intro pos front _ _ _ hfuel
    omega
  | succ fuel ih =>
    intro pos front hl hchunkPos hvalid hfuel
    have hfind := findFrom_spec hl ch fun c hc => hvalid.le hc
    rw [← hchunkPos] at hfind
    rw [findStringLoop, bufFindPosOfChar, if_pos hvalid, List.headD_cons]
    rcases hfind with ⟨hnone, hall⟩ | ⟨found, i, hfound, hlocated, hi, hbefore⟩
    · -- no position is left at which the first byte is
      simp only [hnone]
      have hskip := scan_skip (l := l) (s := ch :: s) (i := pos.chunkPos + pos.pos)
        (k := (bytes l).length - (pos.chunkPos + pos.pos)) (n := 0)
        fun j hj hlt => matchAt_of_ne (by omega) (hall j hj (by omega))
      rw [Nat.add_zero] at hskip
      rw [hskip]
      rfl
    · have hlt : i < (bytes l).length := by
        obtain ⟨⟨front', c, rest, hl', -, hpos', hin⟩, heq⟩ := hlocated
        rw [hl', bytes_append, bytes_cons, List.length_append, List.length_append]
        omega
      have hplace := hlocated.eq
      have hskip := scan_skip (l := l) (s := ch :: s) (i := pos.chunkPos + pos.pos)
        (k := i - (pos.chunkPos + pos.pos)) (n := (bytes l).length - i)
        fun j hj hlt' => matchAt_of_ne (by omega) (hbefore j hj (by omega))
      rw [show i - (pos.chunkPos + pos.pos) + ((bytes l).length - i) =
          (bytes l).length - (pos.chunkPos + pos.pos) by omega,
        show pos.chunkPos + pos.pos + (i - (pos.chunkPos + pos.pos)) = i by omega] at hskip
      rw [hskip, show (bytes l).length - i = (bytes l).length - (i + 1) + 1 by omega, scan]
      simp only [hfound, if_pos (show found.pos ≤ bufMaxLen by omega),
        bufMatchesAtPos_located hmax hlocated]
      cases hmatch : matchAt l (ch :: s) i with
      | none => rfl
      | some taken =>
        cases taken with
        | true =>
          show (if found.chunkPos + found.pos ≤ bufMaxLen then _ else none) = _
          rw [if_pos (by omega), ← hplace]
        | false =>
          show (match bufPosInc found with
            | none => none
            | some none => some (-1)
            | some (some pos) => findStringLoop (ch :: s) fuel pos) = scan l (ch :: s) _ (i + 1)
          rcases bufPosInc_spec hmax hlocated with ⟨hinc, hend⟩ | ⟨pos', front', hinc, hl', hpos',
            hvalid', hnext⟩
          · rw [hinc, hend, Nat.sub_self]
            rfl
          · rw [hinc, ← hnext]
            exact ih pos' front' hl' hpos' hvalid' (by omega)

theorem bufFindStringOffset_eq_scan {mem : ℕ → ℕ → UInt8} {buf : Buf}
    (hlen : buf.datalen = (content buf.chunks).length) (hmax : buf.datalen ≤ bufMaxLen) {s : Bytes}
    (hs : s ≠ []) : bufFindStringOffset mem buf s =
      scan (load mem buf.chunks) s (content buf.chunks).length 0 := by
  obtain ⟨ch, s, rfl⟩ := List.exists_cons_of_ne_nil hs
  have hbytes := bytes_load mem buf.chunks
  have hstart : (bufPosInit mem buf).Valid := by
    intro c _
    by_cases hc : c.data ≠ []
    · rw [if_pos hc]
      exact List.length_pos_iff.mpr hc
    · rw [if_neg hc]
      rfl
  have h := findStringLoop_eq (l := load mem buf.chunks) (by rw [hbytes]; omega) ch s
    (buf.datalen + 1) (bufPosInit mem buf) [] rfl rfl hstart
    (by rw [hbytes]; show (content buf.chunks).length - (0 + 0) < _; omega)
  rw [hbytes] at h
  exact h

/-! ### When the result is right -/

def Matches (m : ℕ → UInt8) (s : Bytes) : Prop := ∀ k ≤ bufMaxLen, ∀ b, s[k]? = some b → m k = b

/-- From position `i`, a chunk without data comes before the end of the string, and its memory has
the rest of it. -/
def RunsInto (l : List Loaded) (s : Bytes) (i : ℕ) : Prop :=
  ∃ m, (view l i).2 = some m ∧ (view l i).1 <+: s ∧ (view l i).1.length < s.length ∧
    Matches m (s.drop (view l i).1.length)

def firstOffset (s content : Bytes) : ℤ :=
  match memmem s content with
  | some o => o
  | none => -1

/-- No position before the first occurrence runs into memory that has the rest of the string, and the
first occurrence does not run into memory that has something else. -/
structure Undisturbed (l : List Loaded) (s : Bytes) : Prop where
  before : ∀ i < (bytes l).length, (∀ o, memmem s (bytes l) = some o → i < o) → ¬ RunsInto l s i
  here : ∀ o, memmem s (bytes l) = some o →
    s.length ≤ (view l o).1.length ∨ RunsInto l s o

theorem forall_from_iff {P : ℕ → Prop} {i m : ℕ} (h : i < m) :
    (∀ j, i ≤ j → j < m → P j) ↔ P i ∧ ∀ j, i + 1 ≤ j → j < m → P j := by
  constructor
  · intro hall
    exact ⟨hall i le_rfl h, fun j hj hlt => hall j (by omega) hlt⟩
  · rintro ⟨hhere, hall⟩ j hj hlt
    rcases Nat.eq_or_lt_of_le hj with rfl | hj
    · exact hhere
    · exact hall j hj hlt

theorem scan_eq_some {l : List Loaded} {s : Bytes} {n i : ℕ} {r : ℤ} :
    scan l s n i = some r ↔
      (r = -1 ∧ ∀ j, i ≤ j → j < i + n → matchAt l s j = some false) ∨
        ∃ o : ℕ, r = o ∧ i ≤ o ∧ o < i + n ∧ matchAt l s o = some true ∧
          ∀ j, i ≤ j → j < o → matchAt l s j = some false := by
  induction n generalizing i with
  | zero =>
    rw [scan]
    constructor
    · intro h
      exact Or.inl ⟨(Option.some.inj h).symm, fun j hj hlt => by omega⟩
    · rintro (⟨rfl, -⟩ | ⟨o, -, hle, hlt, -⟩)
      · rfl
      · omega
  | succ n ih =>
    rw [scan]
    cases hmatch : matchAt l s i with
    | none =>
      refine iff_of_false (by simp) ?_
      rintro (⟨-, hall⟩ | ⟨o, -, hle, -, htrue, hall⟩)
      · rw [hall i le_rfl (by omega)] at hmatch
        cases hmatch
      · rcases Nat.eq_or_lt_of_le hle with rfl | hlt
        · rw [htrue] at hmatch
          cases hmatch
        · rw [hall i le_rfl hlt] at hmatch
          cases hmatch
    | some taken =>
      cases taken with
      | true =>
        show some (i : ℤ) = some r ↔ _
        rw [Option.some.injEq]
        constructor
        · rintro rfl
          exact Or.inr ⟨i, rfl, le_rfl, by omega, hmatch, fun j hj hlt => by omega⟩
        · rintro (⟨-, hall⟩ | ⟨o, rfl, hle, -, -, hall⟩)
          · rw [hall i le_rfl (by omega)] at hmatch
            cases hmatch
          · rcases Nat.eq_or_lt_of_le hle with rfl | hlt
            · rfl
            · rw [hall i le_rfl hlt] at hmatch
              cases hmatch
      | false =>
        show scan l s n (i + 1) = some r ↔ _
        rw [ih]
        constructor
        · rintro (⟨rfl, hall⟩ | ⟨o, rfl, hle, hlt, htrue, hall⟩)
          · refine Or.inl ⟨rfl, (forall_from_iff (by omega)).mpr ⟨hmatch, ?_⟩⟩
            rwa [Nat.succ_add_eq_add_succ] at hall
          · exact Or.inr ⟨o, rfl, by omega, by omega, htrue,
              (forall_from_iff hle).mpr ⟨hmatch, hall⟩⟩
        · rintro (⟨rfl, hall⟩ | ⟨o, rfl, hle, hlt, htrue, hall⟩)
          · refine Or.inl ⟨rfl, ?_⟩
            rw [Nat.succ_add_eq_add_succ]
            exact ((forall_from_iff (by omega)).mp hall).2
          · rcases Nat.eq_or_lt_of_le hle with rfl | hle
            · rw [htrue] at hmatch
              cases hmatch
            · exact Or.inr ⟨o, rfl, hle, by omega, htrue, ((forall_from_iff hle).mp hall).2⟩

theorem matchMem_iff {m : ℕ → UInt8} {k : ℕ} (hk : k ≤ bufMaxLen) (s : Bytes) :
    (matchMem m k s = some false ↔ ¬ ∀ j, k + j ≤ bufMaxLen → ∀ b, s[j]? = some b → m (k + j) = b) ∧
      (matchMem m k s = some true ↔ k + s.length ≤ bufMaxLen + 1 ∧
        ∀ j, k + j ≤ bufMaxLen → ∀ b, s[j]? = some b → m (k + j) = b) := by
  induction s generalizing k with
  | nil => exact ⟨by simp [matchMem], by simp [matchMem]; omega⟩
  | cons ch s ih =>
    -- what is asked of the head and of the rest
    have hsplit : (∀ j, k + j ≤ bufMaxLen → ∀ b, (ch :: s)[j]? = some b → m (k + j) = b) ↔
        m k = ch ∧ ∀ j, k + 1 + j ≤ bufMaxLen → ∀ b, s[j]? = some b → m (k + 1 + j) = b := by
      constructor
      · intro h
        refine ⟨h 0 hk ch rfl, fun j hj b hb => ?_⟩
        have := h (j + 1) (by omega) b hb
        rwa [show k + (j + 1) = k + 1 + j by omega] at this
      · rintro ⟨hhead, hrest⟩ j hj b hb
        cases j with
        | zero =>
          obtain rfl := Option.some.inj hb
          exact hhead
        | succ j =>
          rw [show k + (j + 1) = k + 1 + j by omega] at hj ⊢
          exact hrest j hj b hb
    rw [hsplit, matchMem, List.length_cons]
    by_cases hne : m k = ch
    · rw [if_neg (not_not.mpr hne)]
      by_cases hs : s = []
      · subst hs
        rw [if_pos rfl]
        simp only [hne, true_and, List.getElem?_nil, List.length_nil]
        exact ⟨by simp, by simp; omega⟩
      · have hpos := List.length_pos_iff.mpr hs
        rw [if_neg hs]
        by_cases hlt : k < bufMaxLen
        · rw [if_pos hlt, (ih (by omega)).1, (ih (by omega)).2]
          simp only [hne, true_and]
          rw [show k + (s.length + 1) = k + 1 + s.length by omega]
        · rw [if_neg hlt]
          refine ⟨iff_of_false (by simp) ?_, iff_of_false (by simp) ?_⟩
          · intro hnot
            exact hnot ⟨hne, fun j hj => by omega⟩
          · rintro ⟨hle, -⟩
            omega
    · rw [if_pos hne]
      exact ⟨iff_of_true rfl fun h => hne h.1, iff_of_false (by simp) fun h => hne h.2.1⟩

theorem matchView_iff (f : Bytes) (g : Option (ℕ → UInt8)) (s : Bytes) :
    (matchView f g s = some false ↔ ¬ s <+: f ∧
      ¬ ∃ m, g = some m ∧ f <+: s ∧ f.length < s.length ∧ Matches m (s.drop f.length)) ∧
    (matchView f g s = some true ↔ s <+: f ∨
      ∃ m, g = some m ∧ f <+: s ∧ f.length < s.length ∧
        s.length ≤ f.length + (bufMaxLen + 1) ∧ Matches m (s.drop f.length)) := by
  induction f generalizing s with
  | nil =>
    cases s with
    | nil => exact ⟨by simp [matchView], by simp [matchView]⟩
    | cons ch s =>
      cases g with
      | none => exact ⟨by simp [matchView], by simp [matchView]⟩
      | some m =>
        have h := matchMem_iff (m := m) (Nat.zero_le bufMaxLen) (ch :: s)
        simp only [Nat.zero_add] at h
        have hpre : ¬ ch :: s <+: [] := by simp
        rw [matchView, h.1, h.2]
        simp only [hpre, not_false_eq_true, true_and, false_or, Option.some.injEq,
          exists_eq_left', List.nil_prefix, List.length_nil, List.drop_zero, Nat.zero_add,
          List.length_cons, Nat.succ_pos]
        exact ⟨Iff.rfl, Iff.rfl⟩
  | cons b f ih =>
    cases s with
    | nil => exact ⟨by simp [matchView], by simp [matchView]⟩
    | cons ch s =>
      rw [matchView]
      by_cases hne : b = ch
      · subst hne
        rw [if_neg (not_not.mpr rfl), (ih s).1, (ih s).2]
        simp only [List.cons_prefix_cons, true_and, List.length_cons, List.drop_succ_cons,
          Nat.add_lt_add_iff_right]
        simp only [show ∀ n m : ℕ, n + 1 ≤ m + 1 + (bufMaxLen + 1) ↔ n ≤ m + (bufMaxLen + 1) by
          intro n m; omega]
      · rw [if_pos hne]
        simp only [List.cons_prefix_cons, hne, Ne.symm hne, false_and, and_false, exists_false,
          not_false_eq_true, and_self, or_self]
        simp

theorem view_take {l : List Loaded} {i : ℕ} (hi : i < (bytes l).length) :
    (view l i).1 <+: (bytes l).drop i ∧ ((view l i).2 = none → (view l i).1 = (bytes l).drop i) := by
  have hrun : ∀ l : List Loaded, run l <+: bytes l ∧ (gap l = none → run l = bytes l) := by
    intro l
    induction l with
    | nil => exact ⟨List.prefix_refl _, fun _ => rfl⟩
    | cons c l ih =>
      rw [run, gap, bytes_cons]
      by_cases hc : c.data = []
      · rw [if_pos hc, if_pos hc]
        exact ⟨List.nil_prefix, fun h => by cases h⟩
      · rw [if_neg hc, if_neg hc]
        exact ⟨(List.prefix_append_right_inj _).mpr ih.1, fun h => by rw [ih.2 h]⟩
  induction l generalizing i with
  | nil => exact absurd hi (Nat.not_lt_zero i)
  | cons c l ih =>
    rw [bytes_cons, List.length_append] at hi
    rw [view, bytes_cons]
    by_cases hlt : i < c.data.length
    · rw [if_pos hlt, List.drop_append_of_le_length hlt.le]
      exact ⟨(List.prefix_append_right_inj _).mpr (hrun l).1, fun h => by rw [(hrun l).2 h]⟩
    · rw [if_neg hlt, List.drop_append, List.drop_eq_nil_of_le (not_lt.mp hlt), List.nil_append]
      exact ih (by omega)

theorem matchAt_eq_false {l : List Loaded} {s : Bytes} {i : ℕ} (hi : i < (bytes l).length)
    (hnot : ¬ s <+: (bytes l).drop i) : matchAt l s i = some false ↔ ¬ RunsInto l s i := by
  rw [matchAt, (matchView_iff _ _ _).1]
  have hpre : ¬ s <+: (view l i).1 := fun h => hnot (h.trans (view_take hi).1)
  exact and_iff_right hpre

theorem matchAt_eq_true {l : List Loaded} (hmax : (bytes l).length ≤ bufMaxLen) {s : Bytes} {i : ℕ}
    (hi : i < (bytes l).length) (hocc : s <+: (bytes l).drop i) :
    matchAt l s i = some true ↔ s.length ≤ (view l i).1.length ∨ RunsInto l s i := by
  have hlen := hocc.length_le
  rw [List.length_drop] at hlen
  rw [matchAt, (matchView_iff _ _ _).2]
  refine or_congr ⟨fun h => h.length_le, fun h => ?_⟩ ?_
  · exact List.prefix_of_prefix_length_le hocc (view_take hi).1 h
  · constructor
    · rintro ⟨m, hm, hpre, hlt, -, hmatches⟩
      exact ⟨m, hm, hpre, hlt, hmatches⟩
    · rintro ⟨m, hm, hpre, hlt, hmatches⟩
      exact ⟨m, hm, hpre, hlt, by omega, hmatches⟩

theorem scan_eq_firstOffset {l : List Loaded} (hmax : (bytes l).length ≤ bufMaxLen) {s : Bytes}
    (hs : s ≠ []) :
    scan l s (bytes l).length 0 = some (firstOffset s (bytes l)) ↔ Undisturbed l s := by
  rw [scan_eq_some, firstOffset]
  cases hfirst : memmem s (bytes l) with
  | none =>
    have hnowhere := (memmem_eq_none hs).mp hfirst
    constructor
    · rintro (⟨-, hall⟩ | ⟨o, ho, -⟩)
      · refine ⟨fun i hi _ => ?_, fun o ho => ?_⟩
        · exact (matchAt_eq_false hi (hnowhere i)).mp (hall i (Nat.zero_le i) (by omega))
        · rw [hfirst] at ho
          cases ho
      · exact absurd ho (by show (-1 : ℤ) ≠ o; omega)
    · intro h
      refine Or.inl ⟨rfl, fun j _ hj => (matchAt_eq_false (by omega) (hnowhere j)).mpr ?_⟩
      refine h.before j (by omega) fun o ho => ?_
      rw [hfirst] at ho
      cases ho
  | some o =>
    obtain ⟨hocc, hbefore⟩ := (memmem_eq_some hs).mp hfirst
    have hpos := List.length_pos_iff.mpr hs
    have hle := hocc.length_le
    rw [List.length_drop] at hle
    have ho : o < (bytes l).length := by omega
    constructor
    · rintro (⟨hneg, -⟩ | ⟨o', heq, -, hlt, htrue, hall⟩)
      · exact absurd hneg (by show (o : ℤ) ≠ -1; omega)
      · obtain rfl : o = o' := Int.ofNat.inj heq
        refine ⟨fun i hi hio => ?_, fun o' ho' => ?_⟩
        · have hlt := hio o hfirst
          exact (matchAt_eq_false hi (hbefore i hlt)).mp (hall i (Nat.zero_le i) hlt)
        · rw [hfirst] at ho'
          obtain rfl := Option.some.inj ho'
          exact (matchAt_eq_true hmax ho hocc).mp htrue
    · intro h
      refine Or.inr ⟨o, rfl, Nat.zero_le o, by omega,
        (matchAt_eq_true hmax ho hocc).mpr (h.here o hfirst), fun j _ hj => ?_⟩
      refine (matchAt_eq_false (by omega) (hbefore j hj)).mpr (h.before j (by omega) fun o' ho' => ?_)
      rw [hfirst] at ho'
      obtain rfl := Option.some.inj ho'
      exact hj

theorem undisturbed_of_full {l : List Loaded} (h : ∀ c ∈ l, c.data ≠ []) {s : Bytes} (hs : s ≠ []) :
    Undisturbed l s := by
  have hgap : ∀ l : List Loaded, (∀ c ∈ l, c.data ≠ []) → gap l = none := by
    intro l
    induction l with
    | nil => exact fun _ => rfl
    | cons c l ih =>
      intro h
      obtain ⟨hc, hl⟩ := List.forall_mem_cons.mp h
      rw [gap, if_neg hc]
      exact ih hl
  have hview : ∀ (l : List Loaded) i, (∀ c ∈ l, c.data ≠ []) → (view l i).2 = none := by
    intro l
    induction l with
    | nil => exact fun _ _ => rfl
    | cons c l ih =>
      intro i h
      obtain ⟨hc, hl⟩ := List.forall_mem_cons.mp h
      rw [view]
      by_cases hi : i < c.data.length
      · rw [if_pos hi]
        exact hgap l hl
      · rw [if_neg hi]
        exact ih _ hl
  constructor
  · rintro i - - ⟨m, hm, -⟩
    rw [hview l i h] at hm
    cases hm
  · intro o ho
    obtain ⟨hocc, -⟩ := (memmem_eq_some hs).mp ho
    have hpos := List.length_pos_iff.mpr hs
    have hle := hocc.length_le
    rw [List.length_drop] at hle
    left
    rw [(view_take (by omega)).2 (hview l o h), List.length_drop]
    exact hle

/-- In every state that is reached and whatever is in memory, the search gives the first occurrence in
the content, or -1, exactly if it is not disturbed. -/
theorem bufFindStringOffset_iff {ι : Type*} [DecidableEq ι] {s : State ι}
    (hr : Reached (system (ι := ι)) (fun _ _ => True) s) (i : ι) (mem : ℕ → ℕ → UInt8) {str : Bytes}
    (hstr : str ≠ []) :
    bufFindStringOffset mem (s.bufs i) str = some (firstOffset str (content (s.bufs i).chunks)) ↔
      Undisturbed (load mem (s.bufs i).chunks) str := by
  obtain ⟨hlen, hle⟩ := counted hr i
  have hbytes := bytes_load mem (s.bufs i).chunks
  rw [bufFindStringOffset_eq_scan hlen hle hstr, ← hbytes]
  exact scan_eq_firstOffset (by rw [hbytes]; omega) hstr

def almostBlankLine : Bytes := List.replicate 13 0 ++ [13, 10, 13]

def blankLine : Bytes := [13, 10, 13, 10]

/-- What three reads have filled, and the chunk that is added for a fourth. -/
def tailBuf : Buf where
  datalen := 216
  defaultChunkSize := 256
  chunks := [⟨216, 0, List.replicate 100 0 ++ List.replicate 100 0 ++ almostBlankLine⟩, ⟨216, 0, []⟩]
  large := by decide

set_option maxRecDepth 4000 in
theorem tailBuf_reached : ∃ s : State ℕ,
    Reached (system (ι := ℕ)) (fun _ _ => True) s ∧ s.bufs 0 = tailBuf := by
  let first : Chunk := ⟨216, 0, List.replicate 100 0⟩
  let second : Chunk := ⟨216, 0, List.replicate 100 0 ++ List.replicate 100 0⟩
  let third : Chunk := ⟨216, 0, List.replicate 100 0 ++ List.replicate 100 0 ++ almostBlankLine⟩
  let small : Buf := ⟨0, 256, [], by decide⟩
  let s₀ : State ℕ := ⟨fun _ => small, fun _ => []⟩
  let s₁ : State ℕ := ⟨Function.update s₀.bufs 0 { small with datalen := 100, chunks := [first] },
    Function.update s₀.spec 0 first.data⟩
  let s₂ : State ℕ := ⟨Function.update s₁.bufs 0 { small with datalen := 200, chunks := [second] },
    Function.update s₁.spec 0 second.data⟩
  let s₃ : State ℕ := ⟨Function.update s₂.bufs 0 { small with datalen := 216, chunks := [third] },
    Function.update s₂.spec 0 third.data⟩
  let s₄ : State ℕ := ⟨Function.update s₃.bufs 0 tailBuf,
    Function.update s₃.spec 0 (third.data ++ [])⟩
  have h₁ : (system (ι := ℕ)).step s₀ (.read 0 100 [List.replicate 100 0]) s₁ :=
    ⟨(by decide : 0 + 100 ≤ bufMaxLen), ⟨100, 0, List.replicate 100 0⟩, by rfl, by rfl⟩
  have h₂ : (system (ι := ℕ)).step s₁ (.read 0 100 [List.replicate 100 0]) s₂ :=
    ⟨(by decide : 100 + 100 ≤ bufMaxLen), ⟨100, 0, List.replicate 100 0⟩, by rfl, by rfl⟩
  have h₃ : (system (ι := ℕ)).step s₂ (.read 0 16 [almostBlankLine]) s₃ :=
    ⟨(by decide : 200 + 16 ≤ bufMaxLen), ⟨16, 0, almostBlankLine⟩, by rfl, by rfl⟩
  have h₄ : (system (ι := ℕ)).step s₃ (.read 0 100 []) s₄ :=
    ⟨(by decide : 216 + 100 ≤ bufMaxLen), ⟨0, 0, []⟩, by rfl, by rfl⟩
  have h₀ : (system (ι := ℕ)).init s₀ := fun _ => ⟨rfl, rfl, rfl⟩
  exact ⟨s₄, .step (.step (.step (.step (.init h₀) trivial h₁) trivial h₂) trivial h₃) trivial h₄, rfl⟩

/-- Memory that begins with a line feed makes a blank line of three bytes that are there. -/
theorem bufFindStringOffset_memory : ∃ s : State ℕ,
    Reached (system (ι := ℕ)) (fun _ _ => True) s ∧
      bufFindStringOffset (fun _ _ => 10) (s.bufs 0) blankLine = some 213 ∧
      firstOffset blankLine (content (s.bufs 0).chunks) = -1 := by
  obtain ⟨s, hr, hbuf⟩ := tailBuf_reached
  refine ⟨s, hr, ?_, ?_⟩
  · rw [hbuf]
    decide +kernel
  · rw [hbuf]
    decide +kernel

/-- There the search is disturbed, and with other memory it is not. -/
theorem bufFindStringOffset_iff_tailBuf :
    ¬ Undisturbed (load (fun _ _ => 10) tailBuf.chunks) blankLine ∧
      Undisturbed (load (fun _ _ => 0) tailBuf.chunks) blankLine := by
  obtain ⟨s, hr, hbuf⟩ := tailBuf_reached
  rw [← hbuf]
  constructor
  · rw [← bufFindStringOffset_iff hr 0 (fun _ _ => 10) (by decide), hbuf]
    decide +kernel
  · rw [← bufFindStringOffset_iff hr 0 (fun _ _ => 0) (by decide), hbuf]
    decide +kernel

end Buffers
