/-
The key-pinning table and its journal (`feature/dirauth/keypin.c`).

An entry is found by its RSA digest and by its Ed25519 key.  What is added to the table is appended
to the journal as a line; at start the lines are added again, each in place of what it contradicts.
-/
import LibEltor.Binascii
import LibEltor.Transition

open Bytes Binascii Transition

namespace Keypin

/-! ### The table -/

structure KeypinEnt where
  rsaId : Block 20
  ed25519Key : Block 32
  deriving DecidableEq

structure Table where
  rsaMap : Block 20 → Option KeypinEnt
  edMap : Block 32 → Option KeypinEnt

def emptyTable : Table := ⟨fun _ => none, fun _ => none⟩

inductive KeypinStatus
  | found
  | added
  | mismatch
  | notFound
  deriving DecidableEq

def addEntryToMap (ent : KeypinEnt) (t : Table) : Table where
  rsaMap := Function.update t.rsaMap ent.rsaId (some ent)
  edMap := Function.update t.edMap ent.ed25519Key (some ent)

/-- Remove an entry from both maps; `none` where it is not what is found there. -/
def removeEntry (ent : KeypinEnt) (t : Table) : Option Table :=
  if t.rsaMap ent.rsaId = some ent ∧ t.edMap ent.ed25519Key = some ent then
    some
      { rsaMap := Function.update t.rsaMap ent.rsaId none
        edMap := Function.update t.edMap ent.ed25519Key none }
  else none

/-- Add `ent`, replacing any entries that contradict it.  The number is 0 if it was a duplicate, -1
if there was a conflict, 1 if there was none; `none` where an assertion fails. -/
def addOrReplaceEntryInMap (ent : KeypinEnt) (t : Table) : Option (Table × ℤ) :=
  let ent2 := t.rsaMap ent.rsaId
  let ent3 := t.edMap ent.ed25519Key
  if ent2.map (·.ed25519Key) = some ent.ed25519Key then some (t, 0)
  else if ent2.isSome || ent3.isSome then do
    let t ← match ent2 with
      | none => some t
      | some ent2 => removeEntry ent2 t
    let t ← match ent3 with
      | none => some t
      | some ent3 => if ent2 ≠ some ent3 then removeEntry ent3 t else some t
    some (addEntryToMap ent t, -1)
  else some (addEntryToMap ent t, 1)

/-- `keypin_check_and_add_impl`, and the entry that is to be appended to the journal. -/
def checkAndAddImpl (rsaIdDigest : Block 20) (ed25519IdKey : Block 32) (doNotAdd replace : Bool)
    (t : Table) : Option (Table × KeypinStatus × Option KeypinEnt) :=
  let search : KeypinEnt := ⟨rsaIdDigest, ed25519IdKey⟩
  let byRsa := t.rsaMap rsaIdDigest
  if byRsa.map (·.ed25519Key) = some ed25519IdKey then some (t, .found, none)
  else if byRsa.isSome && !replace then some (t, .mismatch, none)
  else
    match (if replace then none else t.edMap ed25519IdKey) with
    | some ent => if ent.rsaId = rsaIdDigest then none else some (t, .mismatch, none)
    | none =>
      if doNotAdd then some (t, .notFound, none)
      else
        match addOrReplaceEntryInMap search t with
        | none => none
        | some (t, r) =>
          if (if replace then r ≠ 0 else r = 1) then some (t, .added, some search) else none

def keypinCheckAndAdd (rsaIdDigest : Block 20) (ed25519IdKey : Block 32) (replaceExisting : Bool) :=
  checkAndAddImpl rsaIdDigest ed25519IdKey false replaceExisting

def keypinCheck (rsaIdDigest : Block 20) (ed25519IdKey : Block 32) :=
  checkAndAddImpl rsaIdDigest ed25519IdKey true false

/-! ### The journal -/

def base64DigestLen : ℕ := 27

def base64Digest256Len : ℕ := 43

def journalLineLen : ℕ := base64DigestLen + base64Digest256Len + 2

def journalLine (ent : KeypinEnt) : Bytes :=
  base64EncodeNopad ent.rsaId.toList ++ 32 :: base64EncodeNopad ent.ed25519Key.toList

def journalAppendEntry (ent : KeypinEnt) (file : Bytes) : Bytes := file ++ (journalLine ent ++ [10])

/-- `cp` has at least `journalLineLen - 1` bytes. -/
def parseJournalLine (cp : Bytes) : Option KeypinEnt :=
  match base64Decode 20 (cp.take base64DigestLen) with
  | none => none
  | some rsaId =>
    if rsaId.length ≠ 20 ∨ cp[base64DigestLen]? ≠ some 32 then none
    else
      match base64Decode 32 ((cp.drop (base64DigestLen + 1)).take base64Digest256Len) with
      | none => none
      | some edKey =>
        if edKey.length ≠ 32 then none else some ⟨zeroFill 20 rsaId, zeroFill 32 edKey⟩

def loadLine (line : Bytes) (t : Table) : Option Table :=
  if line = [] then some t
  else if line.head? = some 64 then some t
  else if line.head? = some 35 then some t
  else if line.length ≠ journalLineLen - 1 then some t
  else
    match parseJournalLine line with
    | none => some t
    | some ent => (addOrReplaceEntryInMap ent t).map Prod.fst

/-- Load a journal; `none` where an assertion fails. -/
def loadJournal : Bytes → Table → Option Table
  | [], t => some t
  | c :: data, t =>
    match loadLine ((c :: data).takeWhile (· ≠ 10)) t with
    | none => none
    | some t => loadJournal (((c :: data).dropWhile (· ≠ 10)).drop 1) t
termination_by data => data.length
decreasing_by
  have hdrop := (List.dropWhile_suffix (l := c :: data) fun b => decide (b ≠ 10)).length_le
  simp only [List.length_drop, List.length_cons] at hdrop ⊢
  omega

def openJournal (tbuf : Bytes) (file : Bytes) : Bytes :=
  file ++ 10 :: (ascii "@opened-at " ++ tbuf ++ [10])

/-! ### The maps index the same entries -/

structure SameEntries (t : Table) : Prop where
  ofRsa : ∀ r e, t.rsaMap r = some e → e.rsaId = r ∧ t.edMap e.ed25519Key = some e
  ofEd : ∀ k e, t.edMap k = some e → e.ed25519Key = k ∧ t.rsaMap e.rsaId = some e

variable {t t' : Table}

theorem sameEntries_emptyTable : SameEntries emptyTable where
  ofRsa := by simp [emptyTable]
  ofEd := by simp [emptyTable]

theorem SameEntries.eq_iff (h : SameEntries t) {e e' : KeypinEnt} (he : t.rsaMap e.rsaId = some e)
    (he' : t.rsaMap e'.rsaId = some e') : e.rsaId = e'.rsaId ↔ e.ed25519Key = e'.ed25519Key := by
  constructor
  · intro heq
    rw [heq, he'] at he
    rw [Option.some.inj he]
  · intro heq
    have hed := (h.ofRsa _ _ he).2
    rw [heq, (h.ofRsa _ _ he').2] at hed
    rw [Option.some.inj hed]

theorem removeEntry_spec {ent : KeypinEnt} (h : SameEntries t) (hent : t.rsaMap ent.rsaId = some ent) :
    ∃ t', removeEntry ent t = some t' ∧ SameEntries t' ∧ t'.rsaMap ent.rsaId = none ∧
      t'.edMap ent.ed25519Key = none ∧
      (∀ r, t.rsaMap r = none → t'.rsaMap r = none) ∧ (∀ k, t.edMap k = none → t'.edMap k = none) ∧
      ∀ e, e.rsaId ≠ ent.rsaId → t.rsaMap e.rsaId = some e → t'.rsaMap e.rsaId = some e := by
  have hed := (h.ofRsa _ _ hent).2
  refine ⟨_, if_pos ⟨hent, hed⟩, ⟨?_, ?_⟩, Function.update_self .., Function.update_self .., ?_, ?_, ?_⟩
  · intro r e hr
    have hne : r ≠ ent.rsaId := fun heq => by
      subst heq
      simp at hr
    dsimp only at hr ⊢
    rw [Function.update_of_ne hne] at hr
    obtain ⟨hid, hmap⟩ := h.ofRsa r e hr
    have hne' : e.ed25519Key ≠ ent.ed25519Key := fun heq => by
      rw [heq, hed] at hmap
      exact hne (hid ▸ congrArg KeypinEnt.rsaId (Option.some.inj hmap).symm)
    exact ⟨hid, by rw [Function.update_of_ne hne', hmap]⟩
  · intro k e hk
    have hne : k ≠ ent.ed25519Key := fun heq => by
      subst heq
      simp at hk
    dsimp only at hk ⊢
    rw [Function.update_of_ne hne] at hk
    obtain ⟨hid, hmap⟩ := h.ofEd k e hk
    have hne' : e.rsaId ≠ ent.rsaId := fun heq => by
      rw [heq, hent] at hmap
      exact hne (hid ▸ congrArg KeypinEnt.ed25519Key (Option.some.inj hmap).symm)
    exact ⟨hid, by rw [Function.update_of_ne hne', hmap]⟩
  · intro r hr
    by_cases heq : r = ent.rsaId
    · subst heq
      exact Function.update_self ..
    · exact (Function.update_of_ne heq _ _).trans hr
  · intro k hk
    by_cases heq : k = ent.ed25519Key
    · subst heq
      exact Function.update_self ..
    · exact (Function.update_of_ne heq _ _).trans hk
  · exact fun e hne he => (Function.update_of_ne hne _ _).trans he

theorem sameEntries_addEntryToMap (ent : KeypinEnt) (h : SameEntries t)
    (hrsa : t.rsaMap ent.rsaId = none) (hed : t.edMap ent.ed25519Key = none) :
    SameEntries (addEntryToMap ent t) where
  ofRsa r e hr := by
    simp only [addEntryToMap] at hr ⊢
    by_cases heq : r = ent.rsaId
    · subst heq
      rw [Function.update_self] at hr
      obtain rfl := Option.some.inj hr
      exact ⟨rfl, Function.update_self ..⟩
    · rw [Function.update_of_ne heq] at hr
      obtain ⟨hid, hmap⟩ := h.ofRsa r e hr
      have hne : e.ed25519Key ≠ ent.ed25519Key := fun heq => by
        rw [heq, hed] at hmap
        cases hmap
      exact ⟨hid, by rw [Function.update_of_ne hne, hmap]⟩
  ofEd k e hk := by
    simp only [addEntryToMap] at hk ⊢
    by_cases heq : k = ent.ed25519Key
    · subst heq
      rw [Function.update_self] at hk
      obtain rfl := Option.some.inj hk
      exact ⟨rfl, Function.update_self ..⟩
    · rw [Function.update_of_ne heq] at hk
      obtain ⟨hid, hmap⟩ := h.ofEd k e hk
      have hne : e.rsaId ≠ ent.rsaId := fun heq => by
        rw [heq, hrsa] at hmap
        cases hmap
      exact ⟨hid, by rw [Function.update_of_ne hne, hmap]⟩

theorem addOrReplace_spec (h : SameEntries t) (ent : KeypinEnt) :
    ∃ t' r, addOrReplaceEntryInMap ent t = some (t', r) ∧ SameEntries t' ∧
      (r = 0 ↔ (t.rsaMap ent.rsaId).map (·.ed25519Key) = some ent.ed25519Key) ∧
      (t.rsaMap ent.rsaId = none → t.edMap ent.ed25519Key = none → r = 1) := by
  unfold addOrReplaceEntryInMap
  dsimp only
  by_cases hdup : (t.rsaMap ent.rsaId).map (·.ed25519Key) = some ent.ed25519Key
  · rw [if_pos hdup]
    refine ⟨t, 0, rfl, h, by simp [hdup], fun hnone => ?_⟩
    rw [hnone] at hdup
    cases hdup
  rw [if_neg hdup]
  cases h2 : t.rsaMap ent.rsaId with
  | none =>
    cases h3 : t.edMap ent.ed25519Key with
    | none => exact ⟨_, 1, rfl, sameEntries_addEntryToMap ent h h2 h3, by simp, fun _ _ => rfl⟩
    | some ent3 =>
      obtain ⟨hkey, hmap⟩ := h.ofEd _ _ h3
      obtain ⟨t3, ht3, hsame, -, hed, hrsa, -, -⟩ := removeEntry_spec h hmap
      have hadd := sameEntries_addEntryToMap ent hsame (hrsa _ h2) (hkey ▸ hed)
      refine ⟨addEntryToMap ent t3, -1, ?_, hadd, by simp, fun _ h3' => by cases h3'⟩
      simp [ht3]
  | some ent2 =>
    obtain ⟨hid, hmap⟩ := h.ofRsa _ _ h2
    rw [h2] at hdup
    have hne : ent2.ed25519Key ≠ ent.ed25519Key := fun heq => hdup (congrArg some heq)
    obtain ⟨t2, ht2, hsame, hrsa, -, -, hednone, hkept⟩ := removeEntry_spec h (hid ▸ h2)
    cases h3 : t.edMap ent.ed25519Key with
    | none =>
      have hadd := sameEntries_addEntryToMap ent hsame (hid ▸ hrsa) (hednone _ h3)
      refine ⟨addEntryToMap ent t2, -1, ?_, hadd, by simpa using hdup, fun h2' => by cases h2'⟩
      simp [ht2]
    | some ent3 =>
      -- the entry under the Ed25519 key is another one, and is still there
      obtain ⟨hkey, hmap3⟩ := h.ofEd _ _ h3
      have hne3 : ent2 ≠ ent3 := fun heq => hne (heq ▸ hkey)
      have hid3 : ent3.rsaId ≠ ent2.rsaId := fun heq => by
        rw [heq, hid, h2] at hmap3
        exact hne3 (Option.some.inj hmap3)
      obtain ⟨t3, ht3, hsame3, -, hed3, hrsanone, -, -⟩ :=
        removeEntry_spec hsame (hkept ent3 hid3 hmap3)
      have hadd := sameEntries_addEntryToMap ent hsame3 (hrsanone _ (hid ▸ hrsa))
        (hkey ▸ hed3)
      refine ⟨addEntryToMap ent t3, -1, ?_, hadd, by simpa using hdup, fun h2' => by cases h2'⟩
      simp [ht2, ht3, hne3]

theorem SameEntries.rsaId_ne (h : SameEntries t) {rsaIdDigest : Block 20} {ed25519IdKey : Block 32}
    {ent : KeypinEnt} (hed : t.edMap ed25519IdKey = some ent)
    (hfound : (t.rsaMap rsaIdDigest).map KeypinEnt.ed25519Key ≠ some ed25519IdKey) :
    ent.rsaId ≠ rsaIdDigest := by
  obtain ⟨hkey, hmap⟩ := h.ofEd _ _ hed
  intro heq
  rw [heq] at hmap
  rw [hmap] at hfound
  exact hfound (congrArg some hkey)

theorem checkAndAdd_spec (h : SameEntries t) (rsaIdDigest : Block 20) (ed25519IdKey : Block 32)
    (doNotAdd replace : Bool) :
    ∃ t' status line, checkAndAddImpl rsaIdDigest ed25519IdKey doNotAdd replace t =
        some (t', status, line) ∧ SameEntries t' ∧
      (line = none ∧ t' = t ∨
        ∃ ent r, doNotAdd = false ∧ line = some ent ∧ addOrReplaceEntryInMap ent t = some (t', r)) := by
  unfold checkAndAddImpl
  dsimp only
  split_ifs with hfound hmismatch hreplace hadd hadd
  · exact ⟨t, _, _, rfl, h, .inl ⟨rfl, rfl⟩⟩
  · exact ⟨t, _, _, rfl, h, .inl ⟨rfl, rfl⟩⟩
  · exact ⟨t, _, _, rfl, h, .inl ⟨rfl, rfl⟩⟩
  · -- whatever contradicts the entry is replaced
    obtain ⟨t', r, heq, hsame, hzero, -⟩ := addOrReplace_spec h ⟨rsaIdDigest, ed25519IdKey⟩
    have hr : r ≠ 0 := fun hr => hfound (hzero.mp hr)
    refine ⟨t', .added, _, ?_, hsame, .inr ⟨_, r, by simpa using hadd, rfl, heq⟩⟩
    simp [heq, hr]
  · cases hed : t.edMap ed25519IdKey with
    | none => exact ⟨t, _, _, rfl, h, .inl ⟨rfl, rfl⟩⟩
    | some ent =>
      have hid := h.rsaId_ne hed hfound
      refine ⟨t, .mismatch, none, ?_, h, .inl ⟨rfl, rfl⟩⟩
      simp [hid]
  · cases hed : t.edMap ed25519IdKey with
    | none =>
      have hrsa : t.rsaMap rsaIdDigest = none := by
        cases hrsa : t.rsaMap rsaIdDigest with
        | none => rfl
        | some ent => simp [hrsa, hreplace] at hmismatch
      obtain ⟨t', r, heq, hsame, -, hone⟩ := addOrReplace_spec h ⟨rsaIdDigest, ed25519IdKey⟩
      have hr : r = 1 := hone hrsa hed
      refine ⟨t', .added, _, ?_, hsame, .inr ⟨_, r, by simpa using hadd, rfl, heq⟩⟩
      simp [heq, hr]
    | some ent =>
      have hid := h.rsaId_ne hed hfound
      refine ⟨t, .mismatch, none, ?_, h, .inl ⟨rfl, rfl⟩⟩
      simp [hid]

theorem loadLine_spec (h : SameEntries t) (line : Bytes) :
    ∃ t', loadLine line t = some t' ∧ SameEntries t' := by
  unfold loadLine
  split_ifs
  · exact ⟨t, rfl, h⟩
  · exact ⟨t, rfl, h⟩
  · exact ⟨t, rfl, h⟩
  · exact ⟨t, rfl, h⟩
  · cases parseJournalLine line with
    | none => exact ⟨t, rfl, h⟩
    | some ent =>
      obtain ⟨t', r, heq, hsame, -⟩ := addOrReplace_spec h ent
      exact ⟨t', by simp [heq], hsame⟩

theorem loadJournal_spec (h : SameEntries t) (data : Bytes) :
    ∃ t', loadJournal data t = some t' ∧ SameEntries t' := by
  induction data, t using loadJournal.induct with
  | case1 t =>
    rw [loadJournal]
    exact ⟨t, rfl, h⟩
  | case2 c data t hline =>
    obtain ⟨t', heq, -⟩ := loadLine_spec h ((c :: data).takeWhile (· ≠ 10))
    rw [heq] at hline
    cases hline
  | case3 c data t t' hline ih =>
    obtain ⟨t'', heq, hsame⟩ := loadLine_spec h ((c :: data).takeWhile (· ≠ 10))
    rw [heq] at hline
    obtain rfl := Option.some.inj hline
    rw [loadJournal, heq]
    exact ih hsame

/-! ### Lines of the journal -/

theorem firstLine_append (data rest : Bytes) :
    (data ++ 10 :: rest).takeWhile (· ≠ 10) = data.takeWhile (· ≠ 10) := by
  induction data with
  | nil => simp
  | cons c data ih =>
    by_cases hc : c = 10
    · simp [hc]
    · simpa [hc] using ih

theorem afterLine_append_of_mem {data : Bytes} (h : 10 ∈ data) (rest : Bytes) :
    ((data ++ rest).dropWhile (· ≠ 10)).drop 1 = (data.dropWhile (· ≠ 10)).drop 1 ++ rest := by
  induction data with
  | nil => cases h
  | cons c data ih =>
    by_cases hc : c = 10
    · simp [hc]
    · have hmem : 10 ∈ data := (List.mem_cons.mp h).resolve_left (Ne.symm hc)
      simpa [hc] using ih hmem

theorem afterLine_append_of_notMem {data : Bytes} (h : 10 ∉ data) (rest : Bytes) :
    ((data ++ 10 :: rest).dropWhile (· ≠ 10)).drop 1 = rest := by
  induction data with
  | nil => simp
  | cons c data ih =>
    simp only [List.mem_cons, not_or] at h
    simpa [Ne.symm h.1] using ih h.2

theorem afterLine_of_notMem {data : Bytes} (h : 10 ∉ data) :
    (data.dropWhile (· ≠ 10)).drop 1 = [] ∧ data.takeWhile (· ≠ 10) = data := by
  have hall : ∀ c ∈ data, decide (c ≠ 10) = true := fun c hc => by
    simpa using fun heq : c = 10 => h (heq ▸ hc)
  rw [List.dropWhile_eq_nil_iff.mpr hall, List.takeWhile_eq_self_iff.mpr hall]
  exact ⟨rfl, rfl⟩

theorem loadLine_nil : loadLine [] t = some t := rfl

theorem loadJournal_nil : loadJournal [] t = some t := by rw [loadJournal]

theorem loadJournal_eq (data : Bytes) :
    loadJournal data t = (loadLine (data.takeWhile (· ≠ 10)) t).bind
      (loadJournal ((data.dropWhile (· ≠ 10)).drop 1)) := by
  cases data with
  | nil => simp [loadJournal_nil, loadLine_nil]
  | cons c data =>
    rw [loadJournal]
    cases loadLine ((c :: data).takeWhile (· ≠ 10)) t <;> rfl

theorem loadJournal_append (data rest : Bytes) :
    loadJournal (data ++ 10 :: rest) t = (loadJournal data t).bind (loadJournal rest) := by
  induction hlen : data.length using Nat.strong_induction_on generalizing data t with
  | _ n ih =>
    rw [loadJournal_eq (data ++ 10 :: rest), firstLine_append]
    by_cases hmem : 10 ∈ data
    · rw [afterLine_append_of_mem hmem, loadJournal_eq data, Option.bind_assoc]
      congr 1
      funext t'
      have hshort : ((data.dropWhile (· ≠ 10)).drop 1).length < n := by
        have hpos := List.length_pos_of_mem hmem
        have hdrop := (List.dropWhile_suffix (l := data) fun b => decide (b ≠ 10)).length_le
        simp only [List.length_drop]
        omega
      exact ih _ hshort _ rfl
    · obtain ⟨hrest, hline⟩ := afterLine_of_notMem hmem
      rw [afterLine_append_of_notMem hmem, loadJournal_eq data, hrest, hline, Option.bind_assoc]
      congr 1
      funext t'
      rw [loadJournal_nil]
      rfl

theorem loadJournal_line {line : Bytes} (h : 10 ∉ line) : loadJournal line t = loadLine line t := by
  obtain ⟨hrest, hline⟩ := afterLine_of_notMem h
  rw [loadJournal_eq, hrest, hline]
  cases loadLine line t with
  | none => rfl
  | some t' => exact loadJournal_nil

theorem length_journalLine (ent : KeypinEnt) : (journalLine ent).length = journalLineLen - 1 := by
  simp [journalLine, length_base64EncodeNopad, journalLineLen, base64DigestLen, base64Digest256Len]

theorem journalLine_chars {ent : KeypinEnt} {c : UInt8} (h : c ∈ journalLine ent) :
    c = 32 ∨ ∃ v, base64DecodeTable c = .bits v := by
  simp only [journalLine, List.mem_append, List.mem_cons] at h
  obtain h | h | h := h
  · exact .inr (mem_base64EncodeNopad h)
  · exact .inl h
  · exact .inr (mem_base64EncodeNopad h)

theorem newline_notMem_journalLine (ent : KeypinEnt) : 10 ∉ journalLine ent := by
  intro h
  obtain h | ⟨v, h⟩ := journalLine_chars h
  · revert h
    decide
  · cases h

theorem parseJournalLine_journalLine (ent : KeypinEnt) :
    parseJournalLine (journalLine ent) = some ent := by
  have hlen : (base64EncodeNopad ent.rsaId.toList).length = base64DigestLen := by
    simp [length_base64EncodeNopad, base64DigestLen]
  have hlen' : (base64EncodeNopad ent.ed25519Key.toList).length = base64Digest256Len := by
    simp [length_base64EncodeNopad, base64Digest256Len]
  have htake : (journalLine ent).take base64DigestLen = base64EncodeNopad ent.rsaId.toList :=
    List.take_left' hlen
  have hspace : (journalLine ent)[base64DigestLen]? = some 32 := by
    rw [journalLine, ← hlen]
    simp
  have hdrop : (journalLine ent).drop (base64DigestLen + 1) =
      base64EncodeNopad ent.ed25519Key.toList := by
    rw [journalLine, ← List.drop_drop, List.drop_left' hlen]
    rfl
  have hrsa : base64Decode 20 (base64EncodeNopad ent.rsaId.toList) = some ent.rsaId.toList :=
    base64Decode_base64EncodeNopad 20 (by simp)
  have hed : base64Decode 32 (base64EncodeNopad ent.ed25519Key.toList) =
      some ent.ed25519Key.toList := base64Decode_base64EncodeNopad 32 (by simp)
  have hfill : ∀ {n} (b : Block n), zeroFill n b.toList = b := fun b =>
    List.Vector.eq _ _ (by rw [toList_zeroFill (by simp)]; simp)
  unfold parseJournalLine
  rw [htake, hrsa]
  dsimp only
  rw [if_neg (by simp [hspace]), hdrop, ← hlen', List.take_length, hed]
  dsimp only
  rw [if_neg (by simp), hfill, hfill]

theorem loadLine_journalLine (ent : KeypinEnt) :
    loadLine (journalLine ent) t = (addOrReplaceEntryInMap ent t).map Prod.fst := by
  have hlen := length_journalLine ent
  have hne : journalLine ent ≠ [] := fun heq => by
    rw [heq] at hlen
    revert hlen
    decide
  have hhead : ∀ c : UInt8, c ≠ 32 → (∀ v, base64DecodeTable c ≠ .bits v) →
      (journalLine ent).head? ≠ some c := by
    intro c hspace hbits heq
    obtain h | ⟨v, h⟩ := journalLine_chars (List.mem_of_mem_head? heq)
    · exact hspace h
    · exact hbits v h
  unfold loadLine
  rw [if_neg hne, if_neg (hhead 64 (by decide) fun v h => by cases h),
    if_neg (hhead 35 (by decide) fun v h => by cases h), if_neg (not_not.mpr hlen),
    parseJournalLine_journalLine]

/-! ### A run of an authority -/

structure Authority where
  table : Table
  file : Bytes

def start (tbuf : Bytes) (file : Bytes) : Option Authority :=
  (loadJournal file emptyTable).map fun t => ⟨t, openJournal tbuf file⟩

/-- `restart`: the process ends, and of the journal only some bytes have been written. -/
inductive AuthorityAction
  | check (rsaIdDigest : Block 20) (ed25519IdKey : Block 32)
  | checkAndAdd (rsaIdDigest : Block 20) (ed25519IdKey : Block 32) (replaceExisting : Bool)
  | restart (written : ℕ) (tbuf : Bytes)

def authorityStep (A : Authority) : AuthorityAction → Option Authority
  | .check rsaIdDigest ed25519IdKey =>
    (keypinCheck rsaIdDigest ed25519IdKey A.table).map fun r => { A with table := r.1 }
  | .checkAndAdd rsaIdDigest ed25519IdKey replaceExisting =>
    (keypinCheckAndAdd rsaIdDigest ed25519IdKey replaceExisting A.table).map fun r =>
      { table := r.1
        file := match r.2.2 with
          | none => A.file
          | some ent => journalAppendEntry ent A.file }
  | .restart written tbuf => if 10 ∈ tbuf then none else start tbuf (A.file.take written)

def authoritySystem : System Authority AuthorityAction where
  init := fun A => ∃ tbuf file, 10 ∉ tbuf ∧ start tbuf file = some A
  step := fun A a A' => authorityStep A a = some A'

structure JournalInv (A : Authority) : Prop where
  same : SameEntries A.table
  ended : ∃ data, A.file = data ++ [10]
  loads : loadJournal A.file emptyTable = some A.table

variable {A A' : Authority}

theorem loadJournal_openJournal {tbuf : Bytes} (htbuf : 10 ∉ tbuf) (file : Bytes) :
    loadJournal (openJournal tbuf file) t = loadJournal file t := by
  have hnotMem : 10 ∉ ascii "@opened-at " ++ tbuf := by
    rw [List.mem_append, not_or]
    exact ⟨by decide, htbuf⟩
  have hskip : ∀ t, loadLine (ascii "@opened-at " ++ tbuf) t = some t := fun t => rfl
  have hopened : ∀ t, loadJournal (ascii "@opened-at " ++ tbuf ++ [10]) t = some t := fun t => by
    rw [loadJournal_append, loadJournal_line hnotMem, hskip]
    exact loadJournal_nil
  rw [openJournal, loadJournal_append]
  cases loadJournal file t with
  | none => rfl
  | some t' => exact hopened t'

theorem journalInv_start {tbuf file : Bytes} (htbuf : 10 ∉ tbuf) (h : start tbuf file = some A) :
    JournalInv A := by
  obtain ⟨t, ht, rfl⟩ := Option.map_eq_some_iff.mp h
  obtain ⟨t', ht', hsame⟩ := loadJournal_spec sameEntries_emptyTable file
  rw [ht] at ht'
  obtain rfl := Option.some.inj ht'
  refine ⟨hsame, ⟨file ++ 10 :: (ascii "@opened-at " ++ tbuf), ?_⟩, ?_⟩
  · simp [openJournal]
  · exact (loadJournal_openJournal htbuf file).trans ht

theorem journalInv_step {a : AuthorityAction} (h : JournalInv A) (hstep : authorityStep A a = some A') :
    JournalInv A' := by
  cases a with
  | restart written tbuf =>
    simp only [authorityStep] at hstep
    split_ifs at hstep with htbuf
    exact journalInv_start htbuf hstep
  | check rsaIdDigest ed25519IdKey =>
    obtain ⟨⟨t', status, line⟩, heq, rfl⟩ := Option.map_eq_some_iff.mp hstep
    obtain ⟨t'', _, _, heq', hsame, hline⟩ :=
      checkAndAdd_spec h.same rsaIdDigest ed25519IdKey true false
    rw [keypinCheck, heq'] at heq
    obtain ⟨rfl, rfl, rfl⟩ := Option.some.inj heq
    obtain ⟨-, rfl⟩ | ⟨_, _, hadd, -, -⟩ := hline
    · exact h
    · cases hadd
  | checkAndAdd rsaIdDigest ed25519IdKey replaceExisting =>
    obtain ⟨⟨t', status, line⟩, heq, rfl⟩ := Option.map_eq_some_iff.mp hstep
    obtain ⟨t'', _, _, heq', hsame, hline⟩ :=
      checkAndAdd_spec h.same rsaIdDigest ed25519IdKey false replaceExisting
    rw [keypinCheckAndAdd, heq'] at heq
    obtain ⟨rfl, rfl, rfl⟩ := Option.some.inj heq
    obtain ⟨rfl, rfl⟩ | ⟨ent, r, -, rfl, hadded⟩ := hline
    · exact h
    · obtain ⟨data, hdata⟩ := h.ended
      have hloads := h.loads
      refine ⟨hsame, ⟨A.file ++ journalLine ent, by simp [journalAppendEntry]⟩, ?_⟩
      dsimp only
      rw [hdata, loadJournal_append] at hloads
      have hdataLoads : loadJournal data emptyTable = some A.table := by
        rw [← hloads]
        cases loadJournal data emptyTable with
        | none => rfl
        | some t => exact loadJournal_nil.symm
      rw [journalAppendEntry, hdata, List.append_assoc, List.singleton_append, loadJournal_append,
        hdataLoads, Option.bind_some, loadJournal_append,
        loadJournal_line (newline_notMem_journalLine ent), loadLine_journalLine, hadded]
      exact loadJournal_nil

theorem journal_loads (hr : Reached authoritySystem (fun _ _ => True) A) : JournalInv A :=
  hr.invariant
    { init := by
        rintro A ⟨tbuf, file, htbuf, hstart⟩
        exact journalInv_start htbuf hstart
      step := fun _ _ _ h _ hstep => journalInv_step h hstep }

inductive TableOp
  | check (rsaIdDigest : Block 20) (ed25519IdKey : Block 32)
  | checkAndAdd (rsaIdDigest : Block 20) (ed25519IdKey : Block 32) (replaceExisting : Bool)
  | load (data : Bytes)

def applyOp (t : Table) : TableOp → Option Table
  | .check rsaIdDigest ed25519IdKey => (keypinCheck rsaIdDigest ed25519IdKey t).map Prod.fst
  | .checkAndAdd rsaIdDigest ed25519IdKey replaceExisting =>
    (keypinCheckAndAdd rsaIdDigest ed25519IdKey replaceExisting t).map Prod.fst
  | .load data => loadJournal data t

theorem applyOp_spec (h : SameEntries t) (op : TableOp) :
    ∃ t', applyOp t op = some t' ∧ SameEntries t' := by
  cases op with
  | check rsaIdDigest ed25519IdKey =>
    obtain ⟨t', _, _, heq, hsame, -⟩ := checkAndAdd_spec h rsaIdDigest ed25519IdKey true false
    exact ⟨t', by simp [applyOp, keypinCheck, heq], hsame⟩
  | checkAndAdd rsaIdDigest ed25519IdKey replaceExisting =>
    obtain ⟨t', _, _, heq, hsame, -⟩ :=
      checkAndAdd_spec h rsaIdDigest ed25519IdKey false replaceExisting
    exact ⟨t', by simp [applyOp, keypinCheckAndAdd, heq], hsame⟩
  | load data => exact loadJournal_spec h data

theorem foldlM_applyOp (h : SameEntries t) (ops : List TableOp) :
    ∃ t', ops.foldlM applyOp t = some t' ∧ SameEntries t' := by
  induction ops generalizing t with
  | nil => exact ⟨t, rfl, h⟩
  | cons op ops ih =>
    obtain ⟨t', heq, hsame⟩ := applyOp_spec h op
    obtain ⟨t'', heq', hsame'⟩ := ih hsame
    exact ⟨t'', by rw [List.foldlM_cons, heq]; exact heq', hsame'⟩

/-- No assertion fails, the maps index one set of entries that is one-to-one, and what a run has
journalled is what it has pinned. -/
theorem keypin_consistent :
    (∀ ops : List TableOp, ∃ t, ops.foldlM applyOp emptyTable = some t ∧
      (∀ e, (∃ r, t.rsaMap r = some e) ↔ ∃ k, t.edMap k = some e) ∧
      ∀ r e r' e', t.rsaMap r = some e → t.rsaMap r' = some e' →
        e.rsaId = r ∧ (e.rsaId = e'.rsaId ↔ e.ed25519Key = e'.ed25519Key)) ∧
      ∀ A, Reached authoritySystem (fun _ _ => True) A →
        loadJournal A.file emptyTable = some A.table := by
  refine ⟨fun ops => ?_, fun A hr => (journal_loads hr).loads⟩
  obtain ⟨t, heq, hsame⟩ := foldlM_applyOp sameEntries_emptyTable ops
  refine ⟨t, heq, fun e => ⟨?_, ?_⟩, fun r e r' e' he he' => ?_⟩
  · rintro ⟨r, hr⟩
    exact ⟨_, (hsame.ofRsa r e hr).2⟩
  · rintro ⟨k, hk⟩
    exact ⟨_, (hsame.ofEd k e hk).2⟩
  · obtain ⟨rfl, -⟩ := hsame.ofRsa r e he
    obtain ⟨rfl, -⟩ := hsame.ofRsa r' e' he'
    exact ⟨rfl, hsame.eq_iff he he'⟩

/-- A new authority pins a key, and has it when it starts again. -/
theorem first_key_loaded :
    ∃ A : Authority, A.table.rsaMap (zeroFill 20 []) = some ⟨zeroFill 20 [], zeroFill 32 []⟩ ∧
      loadJournal A.file emptyTable = some A.table := by
  have hstart : Reached authoritySystem (fun _ _ => True) ⟨emptyTable, openJournal [] []⟩ :=
    .init ⟨[], [], by decide, by simp [start, loadJournal_nil]⟩
  have hadded : Reached authoritySystem (fun _ _ => True) _ :=
    hstart.step (a := AuthorityAction.checkAndAdd (zeroFill 20 []) (zeroFill 32 []) false) trivial rfl
  exact ⟨_, rfl, keypin_consistent.2 _ hadded⟩

end Keypin
