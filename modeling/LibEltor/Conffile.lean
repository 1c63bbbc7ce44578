/-
Configuration files that include others (`lib/fs/conffile.c` and `config_get_lines_aux` of
`lib/encoding/confline.c`).

A file is read line by line into a linked list; a line `%include` has the lists of other files,
read in the same way one level deeper, spliced in where it stands.  `contentOf` says what is in a
file, with the files it includes, without any pointers; `Content.lines` are its lines in order.
-/
import Mathlib
import LibEltor.Confline
import LibEltor.LinkedNodes
import LibEltor.Versions

open Bytes LinkedNodes Versions

namespace Confline

/-! ### The file system -/

inductive FileStatus
  | error
  | noent
  | file
  | dir
  | empty
  deriving DecidableEq

/-- What the operating system says; `none` is a failure. -/
structure FileSystem where
  torGlob : Bytes → Option (List Bytes)
  getGlobOpenedFiles : Bytes → Option (List Bytes)
  sandboxInternedStringIsMissing : Bytes → Bool
  fileStatus : Bytes → FileStatus
  torListdir : Bytes → Option (List Bytes)
  readFileToStr : Bytes → Option Bytes

def isGlobChar (pattern : Bytes) (pos : ℕ) : Bool :=
  let isGlob := decide (pattern.getD pos 0 = 42 ∨ pattern.getD pos 0 = 63)
  let isEscaped := decide (pos > 0 ∧ pattern.getD (pos - 1) 0 = 92)
  isGlob && !isEscaped

def hasGlob (s : Bytes) : Bool := (List.range s.length).any (isGlobChar s)

def smartlistSortStrings (sl : List Bytes) : List Bytes :=
  sl.mergeSort fun a b => decide (strcmp a b ≤ 0)

/-- `opened` is whether the caller has a list for the names of opened files. -/
def expandGlob (fs : FileSystem) (opened : Bool) (pattern : Bytes) : Option (List Bytes) :=
  if !hasGlob pattern then some [pattern]
  else do
    let glob ← fs.torGlob pattern
    if opened ∧ (fs.getGlobOpenedFiles pattern).isNone then none
    else some (smartlistSortStrings glob)

def pathFiles (fs : FileSystem) (path : Bytes) : Option (List Bytes) :=
  if fs.sandboxInternedStringIsMissing path then none
  else
    match fs.fileStatus path with
    | .file => some [path]
    | .dir => do
      let allFiles ← fs.torListdir path
      let names := (smartlistSortStrings allFiles).filter fun f => f.headD 0 ≠ 46
      some ((names.map fun f => path ++ 47 :: f).filter fun f => fs.fileStatus f = .file)
    | .empty => some []
    | _ => none

def configGetFileList (fs : FileSystem) (opened : Bool) (pattern : Bytes) : Option (List Bytes) := do
  let globMatches ← expandGlob fs opened pattern
  let files ← globMatches.mapM (pathFiles fs)
  some files.flatten

/-! ### Reading files into lists -/

inductive Command
  | normal
  | append
  | clear
  deriving DecidableEq

structure ConfigLine where
  key : Bytes
  value : Bytes
  command : Command
  deriving DecidableEq

/-- A pair as a line, with `+` and `/` in front of the key as commands. -/
def lineOf (extended : Bool) (pair : Bytes × Bytes) : ConfigLine :=
  if extended ∧ pair.1.headD 0 = 43 then ⟨pair.1.tail, pair.2, .append⟩
  else if extended ∧ pair.1.headD 0 = 47 then ⟨pair.1.tail, [], .clear⟩
  else ⟨pair.1, pair.2, .normal⟩

def maxIncludeRecursionLevel : ℕ := 31

def includeKey : Bytes := ascii "%include"

abbrev Memory := List (Node ConfigLine)

/-- `include_handler_fn`: the pattern, the level, the memory and `*list_last` before; the memory,
the list and `*list_last` after. -/
abbrev IncludeHandler := Bytes → ℕ → Memory → Option ℕ → Option (Memory × Option ℕ × Option ℕ)

/-- The variables of `config_get_lines_aux`. -/
structure Reader where
  memory : Memory
  builder : Builder
  listLast : Option ℕ
  includeUsed : Bool

/-- `*next = list`, and on to the end of it. -/
def splice (memory : Memory) (b : Builder) (list listLast : Option ℕ) : Memory × Builder :=
  let stored := store memory b list
  let slot := match listLast with
    | none => stored.2.slot
    | some last => .next last
  (stored.1, ⟨stored.2.head, slot⟩)

def addLine (r : Reader) (line : ConfigLine) : Reader :=
  let p := r.memory.length
  let spliced := splice (r.memory ++ [⟨line, none⟩]) r.builder (some p) (some p)
  ⟨spliced.1, spliced.2, some p, r.includeUsed⟩

def handlePair (extended allowInclude : Bool) (handleInclude : Option IncludeHandler) (level : ℕ)
    (r : Reader) (pair : Bytes × Bytes) : Option Reader :=
  let line := lineOf extended pair
  match handleInclude with
  | none => some (addLine r line)
  | some handleInclude =>
    if allowInclude ∧ line.key = includeKey then do
      let (memory, includeList, listLast) ← handleInclude line.value level r.memory r.listLast
      let spliced := splice memory r.builder includeList listLast
      some ⟨spliced.1, spliced.2, listLast, true⟩
    else some (addLine r line)

def linesLoop (extended allowInclude : Bool) (handleInclude : Option IncludeHandler) (level : ℕ) :
    ℕ → Bytes → Reader → Option Reader
  | 0, _, _ => none
  | fuel + 1, string, r => do
    let (pair, string) ← parseConfigLine string
    let r ← match pair with
      | none => some r
      | some pair => handlePair extended allowInclude handleInclude level r pair
    if string = [] then some r
    else linesLoop extended allowInclude handleInclude level fuel string r

/-- `none` is a failure, after which no list is returned. -/
def configGetLinesAux (string : Bytes) (extended allowInclude : Bool) (level : ℕ)
    (handleInclude : Option IncludeHandler) (memory : Memory) : Option Reader :=
  if level > maxIncludeRecursionLevel then none
  else
    linesLoop extended allowInclude handleInclude level (string.length + 1) string
      ⟨memory, newBuilder, none, false⟩

def configGetIncludedConfig (fs : FileSystem) (extended : Bool) (handleInclude : IncludeHandler)
    (path : Bytes) (level : ℕ) (memory : Memory) : Option Reader := do
  let includedConf ← fs.readFileToStr path
  configGetLinesAux includedConf extended true (level + 1) (some handleInclude) memory

/-- One file of an include; the state is the memory, the list so far and `*list_last`. -/
def includeFile (fs : FileSystem) (extended : Bool) (handleInclude : IncludeHandler) (level : ℕ)
    (st : Memory × Builder × Option ℕ) (configFile : Bytes) :
    Option (Memory × Builder × Option ℕ) :=
  if fs.sandboxInternedStringIsMissing configFile then none
  else do
    let r ← configGetIncludedConfig fs extended handleInclude configFile level st.1
    let spliced := splice r.memory st.2.1 r.builder.head r.listLast
    some (spliced.1, spliced.2, if r.listLast.isSome then r.listLast else st.2.2)

/-- The handler calls itself by way of the files it reads; `depth` bounds how often. -/
def configProcessInclude (fs : FileSystem) (extended opened : Bool) : ℕ → IncludeHandler
  | 0 => fun _ _ _ _ => none
  | depth + 1 => fun pattern level memory listLast => do
    let configFiles ← configGetFileList fs opened pattern
    let (memory, builder, listLast) ← configFiles.foldlM
      (includeFile fs extended (configProcessInclude fs extended opened depth) level)
      (memory, newBuilder, listLast)
    some (memory, builder.head, listLast)

def configGetLinesInclude (fs : FileSystem) (string : Bytes) (extended opened : Bool)
    (memory : Memory) : Option Reader :=
  configGetLinesAux string extended true 1
    (some (configProcessInclude fs extended opened maxIncludeRecursionLevel)) memory

/-- What is in a file, in order: its lines and, where it has an include, what is in the included
files, one after the other. -/
inductive Content
  | done
  | line (line : ConfigLine) (rest : Content)
  | included (file rest : Content)

/-- The lines of a file with those of the files it includes, in order. -/
def Content.lines : Content → List ConfigLine
  | done => []
  | line l rest => l :: rest.lines
  | included file rest => file.lines ++ rest.lines

def includedTexts (fs : FileSystem) (opened : Bool) (pattern : Bytes) : Option (List Bytes) := do
  let files ← configGetFileList fs opened pattern
  files.mapM fun f =>
    if fs.sandboxInternedStringIsMissing f then none else fs.readFileToStr f

/-- What a line of a file contributes, in front of what comes behind it. -/
def itemContent (fs : FileSystem) (opened : Bool) (fileContent : Bytes → Option Content)
    (line : ConfigLine) (rest : Content) : Option Content :=
  if line.key = includeKey then do
    let texts ← includedTexts fs opened line.value
    let contents ← texts.mapM fileContent
    some (contents.foldr .included rest)
  else some (.line line rest)

/-- The content of a text, for files that include each other to the given depth; `none` if a file
cannot be read, or is included from too deep. -/
def contentOf (fs : FileSystem) (extended opened : Bool) : ℕ → Bytes → Option Content
  | 0, _ => none
  | depth + 1, text => do
    let pairs ← fileLines text
    (pairs.map (lineOf extended)).foldrM (itemContent fs opened (contentOf fs extended opened depth))
      .done

/-! ### One file -/

/-- The variables of the reader after the given lines, which are at the end of the memory. -/
def readerOf (memory : Memory) (lines : List ConfigLine) (used : Bool) : Reader :=
  ⟨memory ++ segment memory.length none lines, builderOf memory.length lines,
    lastPtr memory.length lines, used⟩

/-- A list is spliced in behind another one; `listLast` may still be the last line in front, if
the list is empty. -/
theorem splice_eq (memory : Memory) (a c : List ConfigLine) {listLast : Option ℕ}
    (h : listLast = lastPtr (memory.length + a.length) c ∨ listLast = lastPtr memory.length (a ++ c)) :
    splice (memory ++ segment memory.length none a ++ segment (memory.length + a.length) none c)
        (builderOf memory.length a) (headPtr (memory.length + a.length) c) listLast =
      (memory ++ segment memory.length none (a ++ c), builderOf memory.length (a ++ c)) := by
  unfold splice
  rw [store_headPtr, builderOf, slotOf_append]
  cases c with
  | nil =>
    rw [List.append_nil] at h ⊢
    cases a with
    | nil =>
      obtain rfl : listLast = none := h.elim id id
      rfl
    | cons x a => rcases h with rfl | rfl <;> rfl
  | cons y c =>
    rw [lastPtr_append] at h
    obtain rfl := h.elim id id
    rfl

theorem length_append_segment (memory : Memory) (lines : List ConfigLine) :
    (memory ++ segment memory.length none lines).length = memory.length + lines.length := by
  rw [List.length_append, length_segment]

theorem addLine_readerOf (memory : Memory) (lines : List ConfigLine) (used : Bool)
    (line : ConfigLine) :
    addLine (readerOf memory lines used) line = readerOf memory (lines ++ [line]) used := by
  have hsplice := splice_eq memory lines [line] (Or.inl rfl)
  have hlast : lastPtr memory.length (lines ++ [line]) = some (memory.length + lines.length) :=
    lastPtr_append memory.length lines [line]
  rw [addLine, readerOf, readerOf, length_append_segment, hlast]
  exact congrArg (fun spliced : Memory × Builder =>
    Reader.mk spliced.1 spliced.2 (some (memory.length + lines.length)) used) hsplice

/-- What a handler is to do: put the lines of the include at the end of the memory, and name the
last one if there is any. -/
def Handles (handler : IncludeHandler) (level : ℕ) (content : Bytes → Option (List ConfigLine)) :
    Prop :=
  ∀ pattern memory listLast, handler pattern level memory listLast =
    (content pattern).map fun c =>
      (memory ++ segment memory.length none c, headPtr memory.length c,
        if c.isEmpty then listLast else lastPtr memory.length c)

def lineLines (content : Bytes → Option (List ConfigLine)) (line : ConfigLine) :
    Option (List ConfigLine) :=
  if line.key = includeKey then content line.value else some [line]

/-- What a reader does that appends the given lines, and fails if there are none to append. -/
def Appends (memory : Memory) (lines : List ConfigLine) (result : Option Reader)
    (c : Option (List ConfigLine)) : Prop :=
  match c with
  | none => result = none
  | some c => ∃ used, result = some (readerOf memory (lines ++ c) used)

theorem handlePair_appends (extended : Bool) {handler : IncludeHandler} {level : ℕ}
    {content : Bytes → Option (List ConfigLine)} (h : Handles handler level content)
    (memory : Memory) (lines : List ConfigLine) (used : Bool) (pair : Bytes × Bytes) :
    Appends memory lines
      (handlePair extended true (some handler) level (readerOf memory lines used) pair)
      (lineLines content (lineOf extended pair)) := by
  rw [handlePair, lineLines]
  dsimp only
  by_cases hkey : (lineOf extended pair).key = includeKey
  · rw [if_pos hkey, if_pos ⟨rfl, hkey⟩, h]
    cases hc : content (lineOf extended pair).value with
    | none => rfl
    | some c =>
      refine ⟨true, ?_⟩
      have hlast : (if c.isEmpty then lastPtr memory.length lines
          else lastPtr (memory.length + lines.length) c) = lastPtr memory.length (lines ++ c) :=
        (lastPtr_append _ _ _).symm
      have hsplice := splice_eq memory lines c (Or.inr rfl)
      rw [readerOf, readerOf, length_append_segment, Option.map_some, hlast]
      exact congrArg (fun spliced : Memory × Builder =>
        some (Reader.mk spliced.1 spliced.2 (lastPtr memory.length (lines ++ c)) true)) hsplice
  · rw [if_neg hkey, if_neg (fun h => hkey h.2)]
    exact ⟨used, congrArg some (addLine_readerOf memory lines used _)⟩

def pairsLines (extended : Bool) (content : Bytes → Option (List ConfigLine))
    (pairs : List (Bytes × Bytes)) : Option (List ConfigLine) :=
  (pairs.mapM fun pair => lineLines content (lineOf extended pair)).map List.flatten

theorem pairsLines_cons (extended : Bool) (content : Bytes → Option (List ConfigLine))
    (pair : Bytes × Bytes) (pairs : List (Bytes × Bytes)) :
    pairsLines extended content (pair :: pairs) =
      (lineLines content (lineOf extended pair)).bind fun c =>
        (pairsLines extended content pairs).map (c ++ ·) := by
  rw [pairsLines, pairsLines, List.mapM_cons]
  cases lineLines content (lineOf extended pair) with
  | none => rfl
  | some c => cases pairs.mapM fun pair => lineLines content (lineOf extended pair) <;> rfl

theorem Appends.bind {memory : Memory} {lines : List ConfigLine} {result : Option Reader}
    {c d : Option (List ConfigLine)} (h : Appends memory lines result c)
    (next : Reader → Option Reader)
    (hnext : ∀ c used, Appends memory (lines ++ c) (next (readerOf memory (lines ++ c) used)) d) :
    Appends memory lines (result.bind next) (c.bind fun c => d.map (c ++ ·)) := by
  cases c with
  | none =>
    obtain rfl : result = none := h
    rfl
  | some c =>
    obtain ⟨used, rfl⟩ := h
    have hafter := hnext c used
    cases d with
    | none => exact hafter
    | some d =>
      obtain ⟨used', hafter⟩ := hafter
      exact ⟨used', by rw [Option.bind_some, hafter, List.append_assoc]⟩

theorem linesLoop_appends {extended : Bool} {handler : IncludeHandler} {level : ℕ}
    {content : Bytes → Option (List ConfigLine)} (h : Handles handler level content)
    {fuel : ℕ} {string : Bytes} (hfuel : string.length < fuel) (memory : Memory)
    (lines : List ConfigLine) (used : Bool) :
    Appends memory lines
      (linesLoop extended true (some handler) level fuel string (readerOf memory lines used))
      ((fileLines string).bind (pairsLines extended content)) := by
  induction fuel generalizing string lines used with
  | zero => exact absurd hfuel (Nat.not_lt_zero _)
  | succ fuel ih =>
    rw [linesLoop, fileLines_eq]
    cases hparse : parseConfigLine string with
    | none => rfl
    | some p =>
      obtain ⟨pair, rest⟩ := p
      -- what is read after this line
      have hrest : ∀ lines used, Appends memory lines
          (if rest = [] then some (readerOf memory lines used)
            else linesLoop extended true (some handler) level fuel rest (readerOf memory lines used))
          ((if rest = [] then some [] else fileLines rest).bind (pairsLines extended content)) := by
        intro lines used
        by_cases hnil : rest = []
        · rw [if_pos hnil, if_pos hnil]
          exact ⟨used, congrArg (fun l => some (readerOf memory l used)) (List.append_nil lines).symm⟩
        · rw [if_neg hnil, if_neg hnil]
          have hlt := parseConfigLine_lt hparse hnil
          exact ih (by omega) lines used
      cases pair with
      | none =>
        have hlines := hrest lines used
        have hsame : ((if rest = [] then some [] else fileLines rest).map ([] ++ ·)).bind
            (pairsLines extended content) =
            (if rest = [] then some [] else fileLines rest).bind (pairsLines extended content) := by
          cases (if rest = [] then some [] else fileLines rest) <;> rfl
        rw [← hsame] at hlines
        exact hlines
      | some pair =>
        have hpair := handlePair_appends extended h memory lines used pair
        have hboth := hpair.bind
          (fun r => if rest = [] then some r
            else linesLoop extended true (some handler) level fuel rest r)
          fun c used => hrest (lines ++ c) used
        have hsame : ((if rest = [] then some [] else fileLines rest).map ([pair] ++ ·)).bind
            (pairsLines extended content) =
            (lineLines content (lineOf extended pair)).bind fun c =>
              ((if rest = [] then some [] else fileLines rest).bind
                (pairsLines extended content)).map (c ++ ·) := by
          cases (if rest = [] then some [] else fileLines rest) with
          | none => cases lineLines content (lineOf extended pair) <;> rfl
          | some pairs => exact pairsLines_cons extended content pair pairs
        rw [← hsame] at hboth
        exact hboth

/-! ### The content of a file -/

theorem mapM_bind_mapM {α β γ : Type} (f : α → Option β) (g : β → Option γ) (l : List α) :
    ((l.mapM f).bind fun bs => bs.mapM g) = l.mapM fun a => (f a).bind g := by
  induction l with
  | nil => rfl
  | cons a l ih =>
    rw [List.mapM_cons, List.mapM_cons, ← ih]
    cases f a with
    | none => rfl
    | some b =>
      cases l.mapM f with
      | none => cases hg : g b <;> simp [hg]
      | some bs =>
        show (b :: bs).mapM g = _
        rw [List.mapM_cons]
        rfl

theorem mapM_map {α β γ : Type} (f : α → Option β) (g : β → γ) (l : List α) :
    (l.mapM fun a => (f a).map g) = (l.mapM f).map (List.map g) := by
  induction l with
  | nil => rfl
  | cons a l ih =>
    rw [List.mapM_cons, List.mapM_cons, ih]
    cases f a with
    | none => rfl
    | some b => cases l.mapM f <;> rfl

theorem lines_foldr_included (contents : List Content) (rest : Content) :
    (contents.foldr .included rest).lines = (contents.map Content.lines).flatten ++ rest.lines := by
  induction contents with
  | nil => rfl
  | cons file contents ih =>
    show file.lines ++ (contents.foldr .included rest).lines = _
    rw [ih, List.map_cons, List.flatten_cons, List.append_assoc]

def includeLines (fs : FileSystem) (opened : Bool) (text : Bytes → Option (List ConfigLine))
    (pattern : Bytes) : Option (List ConfigLine) :=
  (includedTexts fs opened pattern).bind fun texts => (texts.mapM text).map List.flatten

def textLines (fs : FileSystem) (extended opened : Bool) (depth : ℕ) (text : Bytes) :
    Option (List ConfigLine) :=
  (contentOf fs extended opened depth text).map Content.lines

theorem lines_itemContent (fs : FileSystem) (opened : Bool) (f : Bytes → Option Content)
    (line : ConfigLine) (rest : Content) :
    (itemContent fs opened f line rest).map Content.lines =
      (lineLines (includeLines fs opened fun t => (f t).map Content.lines) line).map
        (· ++ rest.lines) := by
  rw [itemContent, lineLines]
  by_cases hkey : line.key = includeKey
  · rw [if_pos hkey, if_pos hkey, includeLines]
    cases includedTexts fs opened line.value with
    | none => rfl
    | some texts =>
      show ((texts.mapM f).bind fun contents => some (contents.foldr .included rest)).map _ =
        ((texts.mapM fun t => (f t).map Content.lines).map List.flatten).map _
      rw [mapM_map]
      cases texts.mapM f with
      | none => rfl
      | some contents => exact congrArg some (lines_foldr_included contents rest)
  · rw [if_neg hkey, if_neg hkey]
    rfl

theorem lines_foldrM (fs : FileSystem) (opened : Bool) (f : Bytes → Option Content)
    (lines : List ConfigLine) :
    (lines.foldrM (itemContent fs opened f) .done).map Content.lines =
      (lines.mapM (lineLines (includeLines fs opened fun t => (f t).map Content.lines))).map
        List.flatten := by
  induction lines with
  | nil => rfl
  | cons line lines ih =>
    rw [List.foldrM_cons, List.mapM_cons]
    cases hrest : lines.foldrM (itemContent fs opened f) .done with
    | none =>
      rw [hrest] at ih
      cases hlines : lines.mapM (lineLines (includeLines fs opened fun t => (f t).map Content.lines))
        with
      | none =>
        cases lineLines (includeLines fs opened fun t => (f t).map Content.lines) line <;> rfl
      | some ls =>
        rw [hlines] at ih
        cases ih
    | some rest =>
      rw [hrest] at ih
      obtain ⟨ls, hlines, hflat⟩ := Option.map_eq_some_iff.mp ih.symm
      rw [hlines]
      show (itemContent fs opened f line rest).map Content.lines = _
      rw [lines_itemContent, ← hflat]
      cases lineLines (includeLines fs opened fun t => (f t).map Content.lines) line <;> rfl

theorem textLines_succ (fs : FileSystem) (extended opened : Bool) (depth : ℕ) (text : Bytes) :
    textLines fs extended opened (depth + 1) text =
      (fileLines text).bind
        (pairsLines extended (includeLines fs opened (textLines fs extended opened depth))) := by
  rw [textLines, contentOf]
  cases fileLines text with
  | none => rfl
  | some pairs =>
    show ((pairs.map (lineOf extended)).foldrM (itemContent fs opened _) .done).map _ = _
    rw [lines_foldrM, List.mapM_map]
    rfl

/-! ### Files that include others -/

/-- **One file**: what is read is what is in the file, if its includes are handled right. -/
theorem configGetLinesAux_eq {fs : FileSystem} {extended opened : Bool} {depth level : ℕ}
    (hlevel : level + depth = maxIncludeRecursionLevel + 1) {handler : IncludeHandler}
    (h : ∀ d, depth = d + 1 →
      Handles handler level (includeLines fs opened (textLines fs extended opened d)))
    (memory : Memory) (text : Bytes) :
    Appends memory [] (configGetLinesAux text extended true level (some handler) memory)
      (textLines fs extended opened depth text) := by
  rw [configGetLinesAux]
  cases depth with
  | zero =>
    rw [if_pos (by omega)]
    rfl
  | succ d =>
    have hstart : readerOf memory [] false = ⟨memory, newBuilder, none, false⟩ := by
      rw [readerOf]
      show Reader.mk (memory ++ []) _ _ _ = _
      rw [List.append_nil]
      rfl
    rw [if_neg (by omega), textLines_succ, ← hstart]
    exact linesLoop_appends (h d rfl) (Nat.lt_succ_self _) memory [] false

def fileText (fs : FileSystem) (f : Bytes) : Option Bytes :=
  if fs.sandboxInternedStringIsMissing f then none else fs.readFileToStr f

def includeState (memory : Memory) (listLast : Option ℕ) (lines : List ConfigLine) :
    Memory × Builder × Option ℕ :=
  (memory ++ segment memory.length none lines, builderOf memory.length lines,
    if lines.isEmpty then listLast else lastPtr memory.length lines)

theorem includeFile_eq {fs : FileSystem} {extended : Bool} {handler : IncludeHandler} {level : ℕ}
    {text : Bytes → Option (List ConfigLine)}
    (h : ∀ memory s, Appends memory []
      (configGetLinesAux s extended true (level + 1) (some handler) memory) (text s))
    (memory : Memory) (listLast : Option ℕ) (lines : List ConfigLine) (f : Bytes) :
    includeFile fs extended handler level (includeState memory listLast lines) f =
      ((fileText fs f).bind text).map fun c => includeState memory listLast (lines ++ c) := by
  rw [includeFile, fileText]
  by_cases hsandbox : fs.sandboxInternedStringIsMissing f
  · rw [if_pos hsandbox, if_pos hsandbox]
    rfl
  · rw [if_neg hsandbox, if_neg hsandbox]
    cases hread : fs.readFileToStr f with
    | none =>
      show (configGetIncludedConfig fs extended handler f level _).bind _ = _
      rw [configGetIncludedConfig, hread]
      rfl
    | some s =>
      have hfile := h (memory ++ segment memory.length none lines) s
      show (configGetIncludedConfig fs extended handler f level _).bind _ = _
      rw [configGetIncludedConfig, hread]
      show (configGetLinesAux s extended true (level + 1) (some handler) _).bind _ = (text s).map _
      cases hc : text s with
      | none =>
        rw [hc] at hfile
        have hnone : configGetLinesAux s extended true (level + 1) (some handler)
            (includeState memory listLast lines).1 = none := hfile
        rw [hnone]
        rfl
      | some c =>
        rw [hc] at hfile
        obtain ⟨used, hfile⟩ := hfile
        have hsome : configGetLinesAux s extended true (level + 1) (some handler)
            (includeState memory listLast lines).1 = some (readerOf _ c used) := hfile
        rw [hsome, readerOf, length_append_segment]
        have hlast : (if (lastPtr (memory.length + lines.length) c).isSome
            then lastPtr (memory.length + lines.length) c
            else if lines.isEmpty then listLast else lastPtr memory.length lines) =
            if (lines ++ c).isEmpty then listLast else lastPtr memory.length (lines ++ c) := by
          cases c with
          | nil =>
            rw [List.append_nil]
            rfl
          | cons y c =>
            have hempty : (lines ++ y :: c).isEmpty = false := by simp
            rw [lastPtr_append, hempty]
            rfl
        have hsplice := splice_eq memory lines c (Or.inl rfl)
        rw [Option.map_some, includeState, includeState, ← hlast]
        exact congrArg (fun spliced : Memory × Builder => some (spliced.1, spliced.2, _)) hsplice

theorem includeFiles_eq {fs : FileSystem} {extended : Bool} {handler : IncludeHandler} {level : ℕ}
    {text : Bytes → Option (List ConfigLine)}
    (h : ∀ memory s, Appends memory []
      (configGetLinesAux s extended true (level + 1) (some handler) memory) (text s))
    (memory : Memory) (listLast : Option ℕ) (files : List Bytes) (lines : List ConfigLine) :
    files.foldlM (includeFile fs extended handler level) (includeState memory listLast lines) =
      (files.mapM fun f => (fileText fs f).bind text).map fun c =>
        includeState memory listLast (lines ++ c.flatten) := by
  induction files generalizing lines with
  | nil =>
    show some _ = some (includeState memory listLast (lines ++ []))
    rw [List.append_nil]
  | cons f files ih =>
    rw [List.foldlM_cons, List.mapM_cons, includeFile_eq h]
    cases (fileText fs f).bind text with
    | none => rfl
    | some c =>
      show files.foldlM _ (includeState memory listLast (lines ++ c)) = _
      rw [ih]
      cases files.mapM fun f => (fileText fs f).bind text with
      | none => rfl
      | some cs =>
        show some (includeState memory listLast (lines ++ c ++ cs.flatten)) =
          some (includeState memory listLast (lines ++ (c :: cs).flatten))
        rw [List.flatten_cons, List.append_assoc]

theorem configProcessInclude_handles {fs : FileSystem} {extended opened : Bool} {depth level : ℕ}
    {text : Bytes → Option (List ConfigLine)}
    (h : ∀ memory s, Appends memory []
      (configGetLinesAux s extended true (level + 1)
        (some (configProcessInclude fs extended opened depth)) memory) (text s)) :
    Handles (configProcessInclude fs extended opened (depth + 1)) level
      (includeLines fs opened text) := by
  intro pattern memory listLast
  have hstart : (memory, newBuilder, listLast) = includeState memory listLast [] := by
    show _ = (memory ++ [], newBuilder, listLast)
    rw [List.append_nil]
  show (configGetFileList fs opened pattern).bind _ = (includeLines fs opened text pattern).map _
  rw [includeLines, includedTexts]
  cases configGetFileList fs opened pattern with
  | none => rfl
  | some files =>
    show ((files.foldlM (includeFile fs extended (configProcessInclude fs extended opened depth) level)
        (memory, newBuilder, listLast)).bind fun st => some (st.1, st.2.1.head, st.2.2)) =
      ((files.mapM (fileText fs)).bind fun texts => (texts.mapM text).map List.flatten).map _
    rw [hstart, includeFiles_eq h]
    have hmap : ((files.mapM (fileText fs)).bind fun texts => (texts.mapM text).map List.flatten) =
        (files.mapM fun f => (fileText fs f).bind text).map List.flatten := by
      rw [← mapM_bind_mapM]
      cases files.mapM (fileText fs) <;> rfl
    rw [hmap]
    cases files.mapM fun f => (fileText fs f).bind text <;> rfl

/-- **An include** is handled right, at every level. -/
theorem configProcessInclude_eq (fs : FileSystem) (extended opened : Bool) {depth level : ℕ}
    (hlevel : level + depth + 1 = maxIncludeRecursionLevel + 1) :
    Handles (configProcessInclude fs extended opened (depth + 1)) level
      (includeLines fs opened (textLines fs extended opened depth)) := by
  induction depth generalizing level with
  | zero =>
    -- the files are one level too deep
    refine configProcessInclude_handles fun memory s => ?_
    exact configGetLinesAux_eq (by omega) (fun d hd => absurd hd (Nat.succ_ne_zero d).symm) memory s
  | succ depth ih =>
    refine configProcessInclude_handles fun memory s => ?_
    refine configGetLinesAux_eq (by omega) (fun d hd => ?_) memory s
    obtain rfl := Nat.succ.inj hd
    exact ih (by omega)

/-- What a call returns if the content of the text is as given: a list with its lines, in order, or
no list. -/
def Returns (result : Option Reader) (content : Option Content) : Prop :=
  match content with
  | none => result = none
  | some content =>
    ∃ r, result = some r ∧ IsList r.memory r.builder.head content.lines

theorem configGetLinesInclude_returns (fs : FileSystem) (text : Bytes) (extended opened : Bool)
    (memory : Memory) :
    Returns (configGetLinesInclude fs text extended opened memory)
      (contentOf fs extended opened maxIncludeRecursionLevel text) := by
  have hhandles : Handles (configProcessInclude fs extended opened 31) 1
      (includeLines fs opened (textLines fs extended opened 30)) :=
    configProcessInclude_eq fs extended opened rfl
  have hlevel : 1 + 31 = maxIncludeRecursionLevel + 1 := rfl
  have h : Appends memory [] (configGetLinesInclude fs text extended opened memory)
      (textLines fs extended opened 31 text) :=
    configGetLinesAux_eq hlevel (fun d hd => by obtain rfl := Nat.succ.inj hd; exact hhandles)
      memory text
  rw [textLines] at h
  show Returns _ (contentOf fs extended opened 31 text)
  cases hcontent : contentOf fs extended opened 31 text with
  | none =>
    rw [hcontent] at h
    exact h
  | some content =>
    rw [hcontent] at h
    obtain ⟨used, h⟩ := h
    exact ⟨_, h, isList_append_segment memory content.lines⟩

/-! ### Failures -/

/-- The texts that are read for a text: it, the texts of its includes, and so on. -/
inductive Reaches (fs : FileSystem) (extended opened : Bool) : Bytes → Bytes → Prop
  | refl (text : Bytes) : Reaches fs extended opened text text
  | step {text file bad : Bytes} {pairs : List (Bytes × Bytes)} {pair : Bytes × Bytes}
      {texts : List Bytes} (hpairs : fileLines text = some pairs) (hpair : pair ∈ pairs)
      (hkey : (lineOf extended pair).key = includeKey)
      (htexts : includedTexts fs opened (lineOf extended pair).value = some texts)
      (hfile : file ∈ texts) (hbad : Reaches fs extended opened file bad) :
      Reaches fs extended opened text bad

theorem mapM_eq_none {α β : Type} {f : α → Option β} {l : List α} {a : α} (ha : a ∈ l)
    (h : f a = none) : l.mapM f = none := by
  induction l with
  | nil => cases ha
  | cons b l ih =>
    rw [List.mapM_cons]
    rcases List.mem_cons.mp ha with rfl | ha
    · rw [h]
      rfl
    · rw [ih ha]
      cases f b <;> rfl

theorem foldrM_eq_none {α β : Type} {f : α → β → Option β} {l : List α} {a : α} (ha : a ∈ l)
    (h : ∀ b, f a b = none) (b : β) : l.foldrM f b = none := by
  induction l with
  | nil => cases ha
  | cons c l ih =>
    rw [List.foldrM_cons]
    rcases List.mem_cons.mp ha with rfl | ha
    · cases l.foldrM f b with
      | none => rfl
      | some b' => exact h b'
    · rw [ih ha]
      rfl

theorem contentOf_eq_none {fs : FileSystem} {extended opened : Bool} {text bad : Bytes}
    (h : Reaches fs extended opened text bad) (hbad : fileLines bad = none) (depth : ℕ) :
    contentOf fs extended opened depth text = none := by
  induction h generalizing depth with
  | refl text =>
    cases depth with
    | zero => rfl
    | succ depth =>
      rw [contentOf, hbad]
      rfl
  | step hpairs hpair hkey htexts hfile _ ih =>
    cases depth with
    | zero => rfl
    | succ depth =>
      rw [contentOf, hpairs]
      refine foldrM_eq_none (List.mem_map_of_mem hpair) (fun rest => ?_) _
      have hnone := mapM_eq_none hfile (ih hbad depth)
      rw [itemContent, if_pos hkey, htexts]
      simp only [Option.bind_eq_bind, Option.bind_some, hnone, Option.bind_none]

def quoteFile : FileSystem where
  torGlob _ := none
  getGlobOpenedFiles _ := none
  sandboxInternedStringIsMissing _ := false
  fileStatus _ := .file
  torListdir _ := none
  readFileToStr _ := some [107, 32, 34]

end Confline
