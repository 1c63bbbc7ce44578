/-
Lines of `key=value` pairs, as the control port and the transport proxies use them.

What is quoted when a list is written depends on the key, the value and the flags; a line that is
read is cut at white space, and keys and values that may be left out are known by where an `=`
stands.  The proof takes a written line apart into the text of one pair and a rest that is empty
or begins with a space (`parsePair_element`), and goes along the list from there.
-/
import Mathlib
import LibEltor.Escape
import LibEltor.Smartlist

open Bytes Smartlist Escape

namespace Kvline

/-- The flags `KV_QUOTED`, `KV_OMIT_KEYS`, `KV_OMIT_VALS`, `KV_QUOTED_QSTRING` and `KV_RAW`. -/
structure Flags where
  quoted : Bool := false
  omitKeys : Bool := false
  omitVals : Bool := false
  quotedQstring : Bool := false
  raw : Bool := false
  deriving DecidableEq

/-- A line of a configuration; a key that is not set is the empty string. -/
structure Line where
  key : Bytes
  value : Bytes
  deriving DecidableEq

/-! ### Writing -/

def unusual (c : UInt8) : Bool :=
  decide (127 ≤ c) || torIsspace c || !torIsprint c || decide (c = 39) || decide (c = 34)

def needsEscape (s : Bytes) (asKeylessVal : Bool) : Bool :=
  if asKeylessVal ∧ s = [] then true
  else if asKeylessVal ∧ 61 ∈ s then true
  else s.any unusual

def lineHasNoKey (line : Line) : Bool := decide (line.key = [])

def lineHasNoVal (line : Line) : Bool := decide (line.value = [])

def canEncodeLine (flags : Flags) (line : Line) : Bool :=
  let keyless := lineHasNoKey line
  if keyless ∧ !flags.omitKeys then false
  else if needsEscape line.value keyless ∧ !(flags.quoted || flags.raw) then false
  else if !keyless ∧ needsEscape line.key true then false
  else true

def kvlineCanEncodeLines (lines : List Line) (flags : Flags) : Bool :=
  lines.all (canEncodeLine flags)

def element (flags : Flags) (line : Line) : Bytes :=
  let keyless := lineHasNoKey line
  let esc := needsEscape line.value keyless
  let k := if keyless then [] else line.key
  let eq := if keyless then [] else [61]
  if flags.omitVals ∧ lineHasNoVal line then k
  else if !flags.raw ∧ esc then k ++ eq ++ escForLog line.value
  else k ++ eq ++ line.value

def joinStrings : List Bytes → Bytes
  | [] => []
  | a :: sl => a ++ sl.flatMap fun b => 32 :: b

/-- The outer `none` is a failed assertion, the inner one stands for `NULL`. -/
def kvlineEncode (lines : List Line) (flags : Flags) : Option (Option Bytes) :=
  if flags.quotedQstring then none
  else if flags.omitKeys ∧ flags.omitVals then none
  else if flags.quoted ∧ flags.raw then none
  else if kvlineCanEncodeLines lines flags then some (some (joinStrings (lines.map (element flags))))
  else some none

/-! ### Reading -/

def qstringLoop : Bytes → Option ℕ
  | [] => none
  | [c] => if c = 34 then some 0 else none
  | c :: d :: cp =>
    if c = 92 then (qstringLoop cp).map (· + 2)
    else if c = 34 then some 0
    else (qstringLoop (d :: cp)).map (· + 1)

def qstringCopy : Bytes → Bytes
  | [] => []
  | [c] => [c]
  | c :: d :: cp => if c = 92 then d :: qstringCopy cp else c :: qstringCopy (d :: cp)

def decodeQstring (start : Bytes) : Option (Bytes × Bytes) :=
  if start.headD 0 ≠ 34 then none
  else (qstringLoop start.tail).map fun len =>
    (qstringCopy (start.tail.take len), start.tail.drop (len + 1))

/-- The characters of `" \t\r\v\n"`. -/
def isSep (c : UInt8) : Bool := c ∈ ([32, 9, 13, 11, 10] : Bytes)

def readQuoted (flags : Flags) (cp : Bytes) : Option (Bytes × Bytes) :=
  if flags.quoted then unescapeString cp else decodeQstring cp

def parseValue (flags : Flags) (cp : Bytes) : Option (Bytes × Bytes) :=
  if cp.headD 0 = 34 then
    if flags.quoted || flags.quotedQstring then do
      let (val, cp) ← readQuoted flags cp
      -- a string that contains a NUL is longer than `strlen` says
      if val.length ≠ (cstr val).length then none else some (val, cp)
    else none
  else some (cp.takeWhile fun c => !isSep c, cp.dropWhile fun c => !isSep c)

def inKey (c : UInt8) : Bool := !isSep c && decide (c ≠ 61)

/-- One pair, from behind the spaces; `none` is the way to `err`. -/
def parsePair (flags : Flags) (cp : Bytes) : Option (Line × Bytes) :=
  let key := cp.takeWhile inKey
  let rest := cp.dropWhile inKey
  if cp.headD 0 ≠ 34 then
    if rest.headD 0 = 61 then do
      let (val, cp) ← parseValue flags rest.tail
      if key = [] then none else some (⟨key, val⟩, cp)
    else if flags.omitVals then
      if key = [] then none else some (⟨key, []⟩, rest)
    else if !flags.omitKeys then none
    else do
      let (val, cp) ← parseValue flags cp
      some (⟨[], val⟩, cp)
  else do
    let (val, cp) ← parseValue flags cp
    some (⟨[], val⟩, cp)

/-- The loop over the pairs; `cplast` is where the last round began.  The outer `none` is no
result at all. -/
def parseLoop (flags : Flags) : ℕ → Bytes → Option Bytes → Option (Option (List Line))
  | 0, _, _ => none
  | fuel + 1, cp, cplast =>
    if cp = [] then some (some [])
    else
      let cp := cp.dropWhile isSep
      if cplast = some cp then some none
      else if cp = [] then some (some [])
      else
        match parsePair flags cp with
        | none => some none
        | some (line, rest) =>
          (parseLoop flags fuel rest (some cp)).map fun result => result.map (line :: ·)

/-- The outer `none` is a failed assertion, the inner one stands for `NULL` after an error. -/
def kvlineParse (line : Bytes) (flags : Flags) : Option (Option (List Line)) :=
  if flags.omitKeys ∧ flags.omitVals then none
  else if flags.raw then none
  else
    (parseLoop flags (line.length + 1) line none).map fun result =>
      result.bind fun lines =>
        if !flags.quotedQstring ∧ !kvlineCanEncodeLines lines flags then none else some lines

/-! ### A written pair is read -/

section

variable {flags : Flags} {line : Line} {t : Bytes}

theorem isSep_le_isspace {c : UInt8} (h : isSep c) : torIsspace c := by
  simp only [isSep, List.mem_cons, List.not_mem_nil, or_false, decide_eq_true_eq] at h
  rcases h with rfl | rfl | rfl | rfl | rfl <;> rfl

theorem isSep_of_unusual {c : UInt8} (h : unusual c = false) : isSep c = false := by
  rw [Bool.eq_false_iff]
  intro hsep
  rw [unusual, isSep_le_isspace hsep] at h
  simp at h

theorem usual_of_needsEscape {s : Bytes} {keyless : Bool} (h : needsEscape s keyless = false)
    {c : UInt8} (hc : c ∈ s) : unusual c = false := by
  rw [needsEscape] at h
  split_ifs at h
  exact Bool.eq_false_iff.mpr fun hu => absurd (List.any_eq_true.mpr ⟨c, hc, hu⟩) (by simp [h])

theorem keyless_of_needsEscape {s : Bytes} (h : needsEscape s true = false) : s ≠ [] ∧ 61 ∉ s := by
  rw [needsEscape] at h
  split_ifs at h with hnil heq
  exact ⟨fun hs => hnil ⟨rfl, hs⟩, fun hmem => heq ⟨rfl, hmem⟩⟩

theorem headD_tail (ht : t.headD 32 = 32) : t = [] ∨ ∃ t', t = 32 :: t' := by
  cases t with
  | nil => exact Or.inl rfl
  | cons c t' =>
    obtain rfl : c = 32 := ht
    exact Or.inr ⟨t', rfl⟩

theorem takeWhile_dropWhile_append {p : UInt8 → Bool} {s : Bytes} (hs : ∀ c ∈ s, p c)
    (ht : t = [] ∨ ∃ c t', t = c :: t' ∧ p c = false) :
    (s ++ t).takeWhile p = s ∧ (s ++ t).dropWhile p = t := by
  rw [List.takeWhile_append_of_pos hs, List.dropWhile_append_of_pos hs]
  rcases ht with rfl | ⟨c, t', rfl, hc⟩
  · simp
  · simp [hc]

theorem word_space {p : UInt8 → Bool} (hp : p 32 = false) {s : Bytes} (hs : ∀ c ∈ s, p c)
    (ht : t.headD 32 = 32) : (s ++ t).takeWhile p = s ∧ (s ++ t).dropWhile p = t := by
  refine takeWhile_dropWhile_append hs ?_
  rcases headD_tail ht with rfl | ⟨t', rfl⟩
  · exact Or.inl rfl
  · exact Or.inr ⟨32, t', rfl, hp⟩

theorem headD_ne_quote {s : Bytes} (hs : ∀ c ∈ s, unusual c = false) (ht : t.headD 32 = 32) :
    (s ++ t).headD 0 ≠ 34 := by
  cases s with
  | nil =>
    rcases headD_tail ht with rfl | ⟨t', rfl⟩
    · decide
    · show (32 : UInt8) ≠ 34
      decide
  | cons c s =>
    show c ≠ 34
    rintro rfl
    exact absurd (hs 34 List.mem_cons_self) (by decide)

theorem parseValue_plain {s : Bytes} (hs : ∀ c ∈ s, unusual c = false) (ht : t.headD 32 = 32) :
    parseValue flags (s ++ t) = some (s, t) := by
  have hsep : ∀ c ∈ s, (!isSep c) = true := fun c hc => by simp [isSep_of_unusual (hs c hc)]
  have hword := word_space (p := fun c => !isSep c) rfl hsep ht
  rw [parseValue, if_neg (headD_ne_quote hs ht), hword.1, hword.2]

theorem cstr_eq {s : Bytes} (hs : 0 ∉ s) : cstr s = s := by
  refine List.takeWhile_eq_self_iff.mpr fun c hc => ?_
  have hne : c ≠ 0 := fun h => hs (h ▸ hc)
  simpa using hne

theorem parseValue_quoted {s : Bytes} (hquoted : flags.quoted) (hs : 0 ∉ s) :
    parseValue flags (escForLog s ++ t) = some (s, t) := by
  rw [parseValue, if_pos (show (escForLog s ++ t).headD 0 = 34 from rfl), if_pos (by simp [hquoted]),
    readQuoted, if_pos hquoted, unescapeString_escForLog]
  show (if s.length ≠ (cstr s).length then none else some (s, t)) = _
  rw [cstr_eq hs, if_neg (not_not.mpr rfl)]

theorem parseValue_element {s : Bytes} {keyless : Bool}
    (hcan : needsEscape s keyless → flags.quoted) (hval : 0 ∉ s) (ht : t.headD 32 = 32) :
    parseValue flags ((if needsEscape s keyless then escForLog s else s) ++ t) = some (s, t) := by
  by_cases hesc : needsEscape s keyless
  · rw [if_pos hesc]
    exact parseValue_quoted (hcan hesc) hval
  · rw [if_neg hesc]
    exact parseValue_plain (fun c => usual_of_needsEscape (Bool.eq_false_iff.mpr hesc)) ht

theorem canEncodeLine_iff : canEncodeLine flags line ↔
    (line.key = [] → flags.omitKeys) ∧
      (needsEscape line.value (decide (line.key = [])) → flags.quoted ∨ flags.raw) ∧
      (line.key ≠ [] → needsEscape line.key true = false) := by
  unfold canEncodeLine lineHasNoKey
  by_cases hkey : line.key = [] <;> by_cases homit : flags.omitKeys <;>
    by_cases hesc : needsEscape line.value (decide (line.key = [])) <;>
    by_cases hquoted : flags.quoted <;> by_cases hraw : flags.raw <;>
    simp_all

theorem inKey_of_key {s : Bytes} (h : needsEscape s true = false) {c : UInt8} (hc : c ∈ s) :
    inKey c := by
  have hne : c ≠ 61 := fun heq => (keyless_of_needsEscape h).2 (heq ▸ hc)
  rw [inKey, isSep_of_unusual (usual_of_needsEscape h hc)]
  simpa using hne

theorem parsePair_key {key rest : Bytes} (hkey : needsEscape key true = false) :
    parsePair flags (key ++ 61 :: rest) =
      (parseValue flags rest).map fun p => (⟨key, p.1⟩, p.2) := by
  obtain ⟨hnil, -⟩ := keyless_of_needsEscape hkey
  have hcut := takeWhile_dropWhile_append (p := inKey) (t := 61 :: rest)
    (fun c hc => inKey_of_key hkey hc) (Or.inr ⟨61, rest, rfl, rfl⟩)
  have hhead : (key ++ 61 :: rest).headD 0 ≠ 34 := by
    obtain ⟨c, key, rfl⟩ := List.exists_cons_of_ne_nil hnil
    show c ≠ 34
    rintro rfl
    exact absurd (usual_of_needsEscape hkey List.mem_cons_self) (by decide)
  rw [parsePair, if_pos hhead, hcut.1, hcut.2, if_pos (show (61 :: rest).headD 0 = 61 from rfl)]
  cases hvalue : parseValue flags (61 :: rest).tail with
  | none =>
    rw [List.tail_cons] at hvalue
    rw [hvalue]
    rfl
  | some p =>
    rw [List.tail_cons] at hvalue
    rw [hvalue]
    show (if key = [] then none else some (Line.mk key p.1, p.2)) = _
    rw [if_neg hnil]
    rfl

theorem parsePair_keyless {s : Bytes} (homit : flags.omitKeys) (hvals : flags.omitVals = false)
    (hquoted : needsEscape s true → flags.quoted) (hs : 0 ∉ s) (ht : t.headD 32 = 32) :
    parsePair flags ((if needsEscape s true then escForLog s else s) ++ t) =
      some (⟨[], s⟩, t) := by
  have hvalue := parseValue_element hquoted hs ht
  by_cases hesc : needsEscape s true
  · rw [if_pos hesc] at hvalue ⊢
    rw [parsePair, if_neg (not_not.mpr (show (escForLog s ++ t).headD 0 = 34 from rfl)), hvalue]
    rfl
  · have hplain : needsEscape s true = false := Bool.eq_false_iff.mpr hesc
    rw [if_neg hesc] at hvalue ⊢
    have hword := word_space (p := inKey) rfl (fun c hc => inKey_of_key hplain hc) ht
    have hrest : t.headD 0 ≠ 61 := by
      rcases headD_tail ht with rfl | ⟨t', rfl⟩
      · decide
      · show (32 : UInt8) ≠ 61
        decide
    rw [parsePair, if_pos (headD_ne_quote (fun c => usual_of_needsEscape hplain) ht), hword.2,
      if_neg hrest, hvals, if_neg Bool.false_ne_true, homit, hvalue]
    rfl

theorem parsePair_noVal {key : Bytes} (hvals : flags.omitVals) (hkey : needsEscape key true = false)
    (ht : t.headD 32 = 32) : parsePair flags (key ++ t) = some (⟨key, []⟩, t) := by
  have hword := word_space (p := inKey) rfl (fun c hc => inKey_of_key hkey hc) ht
  have hrest : t.headD 0 ≠ 61 := by
    rcases headD_tail ht with rfl | ⟨t', rfl⟩
    · decide
    · show (32 : UInt8) ≠ 61
      decide
  rw [parsePair, if_pos (headD_ne_quote (fun c => usual_of_needsEscape hkey) ht), hword.1, hword.2,
    if_neg hrest, if_pos hvals, if_neg (keyless_of_needsEscape hkey).1]

/-- **One pair**: its text is read as the pair, and what follows is left. -/
theorem parsePair_element (hcan : canEncodeLine flags line) (hraw : flags.raw = false)
    (homit : ¬(flags.omitKeys ∧ flags.omitVals)) (hval : 0 ∉ line.value) (ht : t.headD 32 = 32) :
    parsePair flags (element flags line ++ t) = some (line, t) := by
  obtain ⟨hkeys, hvalue, hkey⟩ := canEncodeLine_iff.mp hcan
  have hquoted : needsEscape line.value (decide (line.key = [])) → flags.quoted := fun h =>
    (hvalue h).resolve_right (by simp [hraw])
  obtain ⟨key, value⟩ := line
  by_cases hnil : key = []
  · subst hnil
    have hvals : flags.omitVals = false :=
      Bool.eq_false_iff.mpr fun h => homit ⟨hkeys rfl, h⟩
    have hshape : element flags ⟨[], value⟩ =
        if needsEscape value true then escForLog value else value := by
      simp [element, lineHasNoKey, hvals, hraw]
    rw [hshape]
    exact parsePair_keyless (hkeys rfl) hvals hquoted hval ht
  · have hkeyless : decide (key = []) = false := decide_eq_false hnil
    by_cases hnoval : flags.omitVals ∧ value = []
    · obtain ⟨hvals, rfl⟩ := hnoval
      have hshape : element flags ⟨key, []⟩ = key := by
        simp [element, lineHasNoKey, lineHasNoVal, hvals, hnil]
      rw [hshape]
      exact parsePair_noVal hvals (hkey hnil) ht
    · have hshape : element flags ⟨key, value⟩ =
          key ++ 61 :: if needsEscape value false then escForLog value else value := by
        rw [element]
        simp only [lineHasNoKey, lineHasNoVal, hkeyless, decide_eq_true_eq, hnoval, hraw]
        split_ifs <;> simp_all
      rw [hshape, List.append_assoc, List.cons_append, parsePair_key (hkey hnil)]
      rw [hkeyless] at hquoted
      rw [parseValue_element hquoted hval ht]
      rfl

theorem element_cons (hcan : canEncodeLine flags line) (hraw : flags.raw = false)
    (homit : ¬(flags.omitKeys ∧ flags.omitVals)) :
    ∃ c s, element flags line = c :: s ∧ isSep c = false := by
  obtain ⟨hkeys, -, hkey⟩ := canEncodeLine_iff.mp hcan
  obtain ⟨key, value⟩ := line
  cases key with
  | nil =>
    have hvals : flags.omitVals = false :=
      Bool.eq_false_iff.mpr fun h => homit ⟨hkeys rfl, h⟩
    by_cases hesc : needsEscape value true
    · refine ⟨34, value.flatMap escChar ++ [34], ?_, rfl⟩
      simp [element, lineHasNoKey, hvals, hraw, hesc, escForLog]
    · have hplain := Bool.eq_false_iff.mpr hesc
      obtain ⟨c, value, rfl⟩ := List.exists_cons_of_ne_nil (keyless_of_needsEscape hplain).1
      refine ⟨c, value, ?_, isSep_of_unusual (usual_of_needsEscape hplain List.mem_cons_self)⟩
      simp [element, lineHasNoKey, hvals, hesc]
  | cons c key =>
    have hsep := isSep_of_unusual
      (usual_of_needsEscape (hkey (List.cons_ne_nil c key)) List.mem_cons_self)
    rw [element]
    simp only [lineHasNoKey, decide_false, reduceCtorEq, Bool.false_eq_true, if_false]
    split_ifs
    · exact ⟨c, key, rfl, hsep⟩
    · exact ⟨c, _, rfl, hsep⟩
    · exact ⟨c, _, rfl, hsep⟩

theorem parseLoop_element {cp : Bytes} {cplast : Option Bytes} (hcan : canEncodeLine flags line)
    (hraw : flags.raw = false) (homit : ¬(flags.omitKeys ∧ flags.omitVals)) (hval : 0 ∉ line.value)
    (ht : t.headD 32 = 32) (hcp : cp.dropWhile isSep = element flags line ++ t)
    (hlast : cplast ≠ some (element flags line ++ t)) (fuel : ℕ) :
    parseLoop flags (fuel + 1) cp cplast =
      (parseLoop flags fuel t (some (element flags line ++ t))).map
        fun result => result.map (line :: ·) := by
  obtain ⟨c, s, helement, -⟩ := element_cons hcan hraw homit
  have hne : element flags line ++ t ≠ [] := by
    rw [helement]
    exact List.cons_ne_nil _ _
  have hcpne : cp ≠ [] := by
    rintro rfl
    exact hne hcp.symm
  rw [parseLoop, if_neg hcpne, hcp, if_neg hlast, if_neg hne,
    parsePair_element hcan hraw homit hval ht]

theorem parseLoop_join (hraw : flags.raw = false) (homit : ¬(flags.omitKeys ∧ flags.omitVals))
    {lines : List Line} (hcan : ∀ line ∈ lines, canEncodeLine flags line)
    (hval : ∀ line ∈ lines, 0 ∉ line.value) {fuel : ℕ} (hfuel : lines.length < fuel)
    {cplast : Option Bytes}
    (hlast : ∀ q, cplast = some q →
      ((lines.map (element flags)).flatMap fun b => 32 :: b).length < q.length) :
    parseLoop flags fuel ((lines.map (element flags)).flatMap fun b => 32 :: b) cplast =
      some (some lines) := by
  induction lines generalizing fuel cplast with
  | nil =>
    obtain ⟨fuel, rfl⟩ := Nat.exists_eq_succ_of_ne_zero (by omega : fuel ≠ 0)
    rfl
  | cons line lines ih =>
    obtain ⟨fuel, rfl⟩ := Nat.exists_eq_succ_of_ne_zero (by omega : fuel ≠ 0)
    have hline := hcan line List.mem_cons_self
    obtain ⟨c, s, helement, hsep⟩ := element_cons hline hraw homit
    rw [List.map_cons, List.flatMap_cons] at hlast ⊢
    have ht : ((lines.map (element flags)).flatMap fun b => 32 :: b).headD 32 = 32 := by
      cases lines <;> rfl
    have hcp : (32 :: element flags line ++
        (lines.map (element flags)).flatMap fun b => 32 :: b).dropWhile isSep =
        element flags line ++ (lines.map (element flags)).flatMap fun b => 32 :: b := by
      rw [helement, List.cons_append, List.cons_append,
        List.dropWhile_cons_of_pos (by decide : isSep 32),
        List.dropWhile_cons_of_neg (by simp [hsep])]
    have hfresh : cplast ≠ some (element flags line ++
        (lines.map (element flags)).flatMap fun b => 32 :: b) := by
      intro heq
      have hlt := hlast _ heq
      rw [List.cons_append, List.length_cons] at hlt
      omega
    rw [parseLoop_element hline hraw homit (hval line List.mem_cons_self) ht hcp hfresh, ih
      (fun l hl => hcan l (List.mem_cons_of_mem _ hl))
      (fun l hl => hval l (List.mem_cons_of_mem _ hl)) (Nat.lt_of_succ_lt_succ hfuel)]
    · rfl
    · rintro q hq
      obtain rfl := Option.some.inj hq
      rw [helement, List.length_append, List.length_cons]
      omega

theorem length_le_join {lines : List Line} (hraw : flags.raw = false)
    (homit : ¬(flags.omitKeys ∧ flags.omitVals)) (hcan : ∀ line ∈ lines, canEncodeLine flags line) :
    lines.length ≤ (joinStrings (lines.map (element flags))).length := by
  cases lines with
  | nil => exact Nat.le_refl 0
  | cons line lines =>
    obtain ⟨c, s, helement, -⟩ := element_cons (hcan line List.mem_cons_self) hraw homit
    have hrest : ∀ sl : List Bytes, sl.length ≤ (sl.flatMap fun b => 32 :: b).length := by
      intro sl
      induction sl with
      | nil => exact Nat.le_refl 0
      | cons b sl ih =>
        rw [List.flatMap_cons, List.length_append, List.length_cons, List.length_cons]
        omega
    have hle := hrest (lines.map (element flags))
    rw [List.length_map] at hle
    rw [List.map_cons, joinStrings, helement, List.length_append, List.length_cons, List.length_cons]
    omega

theorem kvlineEncode_eq_some {lines : List Line} {s : Bytes}
    (h : kvlineEncode lines flags = some (some s)) :
    ¬(flags.omitKeys ∧ flags.omitVals) ∧ kvlineCanEncodeLines lines flags ∧
      s = joinStrings (lines.map (element flags)) := by
  rw [kvlineEncode] at h
  split_ifs at h with hqstring homit hboth hlines
  · exact ⟨homit, hlines, (Option.some.inj (Option.some.inj h)).symm⟩
  · cases Option.some.inj h

/-- **What is written is read back.** -/
theorem kvlineParse_kvlineEncode {lines : List Line} {s : Bytes} (hraw : flags.raw = false)
    (hval : ∀ line ∈ lines, 0 ∉ line.value) (h : kvlineEncode lines flags = some (some s)) :
    kvlineParse s flags = some (some lines) := by
  obtain ⟨homit, hlines, rfl⟩ := kvlineEncode_eq_some h
  have hcan : ∀ line ∈ lines, canEncodeLine flags line := List.all_eq_true.mp hlines
  have hlen := length_le_join hraw homit hcan
  have hloop : parseLoop flags ((joinStrings (lines.map (element flags))).length + 1)
      (joinStrings (lines.map (element flags))) none = some (some lines) := by
    cases lines with
    | nil => rfl
    | cons line lines =>
      have hline := hcan line List.mem_cons_self
      obtain ⟨c, s, helement, hsep⟩ := element_cons hline hraw homit
      have ht : ((lines.map (element flags)).flatMap fun b => 32 :: b).headD 32 = 32 := by
        cases lines <;> rfl
      have hcp : (joinStrings (element flags line :: lines.map (element flags))).dropWhile isSep =
          element flags line ++ (lines.map (element flags)).flatMap fun b => 32 :: b := by
        rw [joinStrings, helement, List.cons_append, List.dropWhile_cons_of_neg (by simp [hsep])]
      rw [List.map_cons] at hlen ⊢
      rw [parseLoop_element hline hraw homit (hval line List.mem_cons_self) ht hcp
        (by simp), parseLoop_join hraw homit (fun l hl => hcan l (List.mem_cons_of_mem _ hl))
        (fun l hl => hval l (List.mem_cons_of_mem _ hl)) hlen]
      · rfl
      · rintro q hq
        obtain rfl := Option.some.inj hq
        rw [helement, List.length_append, List.length_cons]
        omega
  rw [kvlineParse, if_neg homit, hraw, if_neg Bool.false_ne_true, hloop]
  show some (if _ then none else some lines) = _
  rw [if_neg (by simp [hlines])]

end

/-! ### What is read can be written -/

section

variable {flags : Flags}

theorem zero_notMem_of_cstr {val : Bytes} (h : val.length = (cstr val).length) : 0 ∉ val := by
  have heq : cstr val = val := (List.takeWhile_prefix _).eq_of_length h.symm
  intro hmem
  have hzero := List.mem_takeWhile_imp (heq.symm ▸ hmem : (0 : UInt8) ∈ cstr val)
  exact absurd hzero (by decide)

theorem decodeQstring_suffix {cp val rest : Bytes} (h : decodeQstring cp = some (val, rest)) :
    rest <:+ cp.tail := by
  rw [decodeQstring] at h
  split_ifs at h
  obtain ⟨len, -, h⟩ := Option.map_eq_some_iff.mp h
  cases h
  exact List.drop_suffix _ _

theorem parseValue_spec {cp val rest : Bytes} (h : parseValue flags cp = some (val, rest)) :
    rest <:+ cp ∧ (cp.headD 0 = 34 → rest <:+ cp.tail) ∧ (0 ∉ cp → 0 ∉ val) := by
  rw [parseValue] at h
  by_cases hquote : cp.headD 0 = 34
  · rw [if_pos hquote] at h
    by_cases hflag : flags.quoted || flags.quotedQstring
    · rw [if_pos hflag] at h
      obtain ⟨⟨val', rest'⟩, hread, h⟩ := Option.bind_eq_some_iff.mp h
      have hsuffix : rest' <:+ cp.tail := by
        rw [readQuoted] at hread
        split_ifs at hread
        · exact unescapeString_suffix hread
        · exact decodeQstring_suffix hread
      dsimp only at h
      split_ifs at h with hlen
      cases h
      exact ⟨hsuffix.trans (List.tail_suffix cp), fun _ => hsuffix,
        fun _ => zero_notMem_of_cstr (not_not.mp hlen)⟩
    · rw [if_neg hflag] at h
      cases h
  · rw [if_neg hquote] at h
    cases h
    exact ⟨List.dropWhile_suffix _, fun h => absurd h hquote,
      fun hzero hmem => hzero (List.takeWhile_subset _ hmem)⟩

theorem suffix_tail_lt {rest cp : Bytes} (h : rest <:+ cp.tail) (hne : cp ≠ []) :
    rest.length < cp.length := by
  have hle := h.length_le
  have hpos := List.length_pos_of_ne_nil hne
  rw [List.length_tail] at hle
  omega

theorem dropWhile_lt {p : UInt8 → Bool} {cp : Bytes} (h : cp.takeWhile p ≠ []) :
    (cp.dropWhile p).length < cp.length := by
  have hlen := congrArg List.length (List.takeWhile_append_dropWhile (p := p) (l := cp))
  have hpos := List.length_pos_of_ne_nil h
  rw [List.length_append] at hlen
  omega

theorem parsePair_spec {cp rest : Bytes} {line : Line} (h : parsePair flags cp = some (line, rest))
    (hne : cp ≠ []) (hsep : isSep (cp.headD 0) = false) :
    rest <:+ cp ∧ rest.length < cp.length ∧ (0 ∉ cp → 0 ∉ line.value) := by
  have hdrop : cp.dropWhile inKey <:+ cp := List.dropWhile_suffix _
  rw [parsePair] at h
  by_cases hquote : cp.headD 0 = 34
  · rw [if_neg (not_not.mpr hquote)] at h
    obtain ⟨⟨val, rest'⟩, hvalue, h⟩ := Option.bind_eq_some_iff.mp h
    cases h
    obtain ⟨hsuffix, htail, hzero⟩ := parseValue_spec hvalue
    exact ⟨hsuffix, suffix_tail_lt (htail hquote) hne, hzero⟩
  rw [if_pos hquote] at h
  by_cases hkey : (cp.dropWhile inKey).headD 0 = 61
  · -- a key and a value
    rw [if_pos hkey] at h
    obtain ⟨⟨val, rest'⟩, hvalue, h⟩ := Option.bind_eq_some_iff.mp h
    dsimp only at h
    split_ifs at h
    cases h
    obtain ⟨hsuffix, -, hzero⟩ := parseValue_spec hvalue
    have htail : (cp.dropWhile inKey).tail <:+ cp := (List.tail_suffix _).trans hdrop
    have hne' : cp.dropWhile inKey ≠ [] := by
      intro hnil
      rw [hnil] at hkey
      exact absurd hkey (by decide)
    refine ⟨hsuffix.trans htail, ?_, fun h0 => hzero fun hmem => h0 (htail.subset hmem)⟩
    exact lt_of_lt_of_le (suffix_tail_lt hsuffix hne') hdrop.length_le
  rw [if_neg hkey] at h
  by_cases hvals : flags.omitVals
  · -- a key alone
    rw [if_pos hvals] at h
    split_ifs at h with hnil
    cases h
    exact ⟨hdrop, dropWhile_lt hnil, fun _ => List.not_mem_nil⟩
  rw [if_neg hvals] at h
  by_cases homit : flags.omitKeys
  · -- a word that is a value
    rw [if_neg (by simp [homit])] at h
    obtain ⟨⟨val, rest'⟩, hvalue, h⟩ := Option.bind_eq_some_iff.mp h
    cases h
    obtain ⟨hsuffix, -, hzero⟩ := parseValue_spec hvalue
    refine ⟨hsuffix, ?_, hzero⟩
    rw [parseValue, if_neg hquote] at hvalue
    cases hvalue
    refine dropWhile_lt ?_
    obtain ⟨c, cp, rfl⟩ := List.exists_cons_of_ne_nil hne
    rw [List.takeWhile_cons_of_pos (by simpa using hsep)]
    exact List.cons_ne_nil _ _
  · rw [if_pos (by simp [homit])] at h
    cases h

theorem headD_dropWhile {p : UInt8 → Bool} {cp : Bytes} (hne : cp.dropWhile p ≠ []) :
    p ((cp.dropWhile p).headD 0) = false := by
  obtain ⟨c, s, hs⟩ := List.exists_cons_of_ne_nil hne
  have hnot := List.head_dropWhile_not p hne
  simp only [hs, List.head_cons] at hnot
  rw [hs]
  exact hnot

theorem parseLoop_cases (flags : Flags) (fuel : ℕ) (cp : Bytes) (cplast : Option Bytes) :
    parseLoop flags (fuel + 1) cp cplast = some (some []) ∨
      parseLoop flags (fuel + 1) cp cplast = some none ∨
      ∃ line rest, rest <:+ cp ∧ rest.length < cp.length ∧ (0 ∉ cp → 0 ∉ line.value) ∧
        parseLoop flags (fuel + 1) cp cplast =
          (parseLoop flags fuel rest (some (cp.dropWhile isSep))).map
            fun result => result.map (line :: ·) := by
  rw [parseLoop]
  dsimp only
  have hdrop : cp.dropWhile isSep <:+ cp := List.dropWhile_suffix _
  split_ifs with hnil hlast hend
  · exact Or.inl rfl
  · exact Or.inr (Or.inl rfl)
  · exact Or.inl rfl
  · cases hpair : parsePair flags (cp.dropWhile isSep) with
    | none => exact Or.inr (Or.inl rfl)
    | some p =>
      obtain ⟨hsuffix, hlt, hzero⟩ := parsePair_spec hpair hend (headD_dropWhile hend)
      exact Or.inr (Or.inr ⟨p.1, p.2, hsuffix.trans hdrop, lt_of_lt_of_le hlt hdrop.length_le,
        fun h0 => hzero fun hmem => h0 (hdrop.subset hmem), rfl⟩)

theorem parseLoop_values {fuel : ℕ} {cp : Bytes} {cplast : Option Bytes} {lines : List Line}
    (hzero : 0 ∉ cp) (h : parseLoop flags fuel cp cplast = some (some lines)) :
    ∀ line ∈ lines, 0 ∉ line.value := by
  induction fuel generalizing cp cplast lines with
  | zero => cases h
  | succ fuel ih =>
    rcases parseLoop_cases flags fuel cp cplast with
      h' | h' | ⟨line, rest, hsuffix, -, hvalue, h'⟩
    · rw [h'] at h
      obtain rfl := Option.some.inj (Option.some.inj h)
      exact fun line hline => absurd hline List.not_mem_nil
    · rw [h'] at h
      cases h
    · rw [h'] at h
      obtain ⟨result, hresult, h⟩ := Option.map_eq_some_iff.mp h
      obtain ⟨lines', rfl, rfl⟩ := Option.map_eq_some_iff.mp h
      rintro l hl
      rcases List.mem_cons.mp hl with rfl | hl
      · exact hvalue hzero
      · exact ih (fun hmem => hzero (hsuffix.subset hmem)) hresult l hl

theorem kvlineParse_eq_some {s : Bytes} {lines : List Line}
    (h : kvlineParse s flags = some (some lines)) :
    ¬(flags.omitKeys ∧ flags.omitVals) ∧ flags.raw = false ∧
      (flags.quotedQstring = false → kvlineCanEncodeLines lines flags) ∧
      parseLoop flags (s.length + 1) s none = some (some lines) := by
  rw [kvlineParse] at h
  split_ifs at h with homit hraw
  obtain ⟨result, hresult, h⟩ := Option.map_eq_some_iff.mp h
  obtain ⟨lines', hlines, hbind⟩ := Option.bind_eq_some_iff.mp h
  split_ifs at hbind with hcan
  obtain rfl := Option.some.inj hbind
  rw [hlines] at hresult
  refine ⟨homit, Bool.eq_false_iff.mpr hraw, fun hqstring => ?_, hresult⟩
  simpa [hqstring] using hcan

/-- **What is read can be written**, and is then read as it was. -/
theorem kvlineEncode_of_parse {s : Bytes} {lines : List Line} (hqstring : flags.quotedQstring = false)
    (hzero : 0 ∉ s) (h : kvlineParse s flags = some (some lines)) :
    ∃ s', kvlineEncode lines flags = some (some s') ∧
      kvlineParse s' flags = some (some lines) := by
  obtain ⟨homit, hraw, hcan, hloop⟩ := kvlineParse_eq_some h
  have hencode : kvlineEncode lines flags =
      some (some (joinStrings (lines.map (element flags)))) := by
    rw [kvlineEncode, hqstring, if_neg Bool.false_ne_true, if_neg homit,
      if_neg (by simp [hraw]), if_pos (hcan hqstring)]
  exact ⟨_, hencode, kvlineParse_kvlineEncode hraw (parseLoop_values hzero hloop) hencode⟩

/-- Writing and reading undo each other, for the flags that both support. -/
theorem kvline_roundTrip (flags : Flags) (hraw : flags.raw = false) :
    (∀ lines s, (∀ line ∈ lines, 0 ∉ line.key ∧ 0 ∉ line.value) →
        kvlineEncode lines flags = some (some s) → kvlineParse s flags = some (some lines)) ∧
      (flags.quotedQstring = false →
        ∀ s lines, 0 ∉ s → kvlineParse s flags = some (some lines) →
          ∃ s', kvlineEncode lines flags = some (some s') ∧
            kvlineParse s' flags = some (some lines)) := by
  constructor
  · intro lines s hzero h
    exact kvlineParse_kvlineEncode hraw (fun line hline => (hzero line hline).2) h
  · intro hqstring s lines hzero h
    exact kvlineEncode_of_parse hqstring hzero h

/-- The pairs of `k="a b" w=`, which are written and read with quotes. -/
theorem kvline_roundTrip_quoted :
    (∃ s, kvlineEncode [⟨[107], [97, 32, 98]⟩, ⟨[119], []⟩] { quoted := true } = some (some s) ∧
        kvlineParse s { quoted := true } =
          some (some [⟨[107], [97, 32, 98]⟩, ⟨[119], []⟩])) ∧
      ∃ s', kvlineEncode [⟨[107], [98]⟩] { quoted := true } = some (some s') ∧
        kvlineParse s' { quoted := true } = some (some [⟨[107], [98]⟩]) := by
  have hround := kvline_roundTrip { quoted := true } rfl
  have hencode : kvlineEncode [⟨[107], [97, 32, 98]⟩, ⟨[119], []⟩] { quoted := true } =
      some (some [107, 61, 34, 97, 32, 98, 34, 32, 119, 61]) := by decide
  have hparse : kvlineParse [107, 61, 98] { quoted := true } = some (some [⟨[107], [98]⟩]) := by
    decide
  exact ⟨⟨_, hencode, hround.1 _ _ (by decide) hencode⟩, hround.2 rfl _ _ (by decide) hparse⟩

/-- As a QuotedString line the text `a"b=c` is read, with a key that no flags can write. -/
theorem kvlineParse_qstring_key :
    kvlineParse [97, 34, 98, 61, 99] { quotedQstring := true } =
        some (some [⟨[97, 34, 98], [99]⟩]) ∧
      ∀ (flags : Flags) (s : Bytes),
        kvlineEncode [⟨[97, 34, 98], [99]⟩] flags ≠ some (some s) := by
  refine ⟨by decide, fun flags s h => ?_⟩
  have hcan := (kvlineEncode_eq_some h).2.1
  have hkey := (canEncodeLine_iff.mp (List.all_eq_true.mp hcan _ List.mem_cons_self)).2.2
  exact absurd (hkey (List.cons_ne_nil _ _)) (by decide)

end

end Kvline
