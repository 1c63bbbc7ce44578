/-
Exit policy summaries as text, and how they are read back (`core/or/policies.c`).

Neighbouring items with one mark become one range; the ranges that are let through, or else those
that are not, are listed with commas in between.
-/
import Mathlib
import LibEltor.PolicySummary
import LibEltor.Protover

open Bytes Onion Consdiff Smartlist Protover

namespace Policies

/-! ### The text -/

structure PortRange where
  low : ℕ
  high : ℕ
  deriving DecidableEq

def portRanges (startPrt : ℕ) : Summary → List (Bool × PortRange)
  | [] => []
  | [item] => [(item.accepted, ⟨startPrt, item.prtMax⟩)]
  | item :: next :: summary =>
    if item.accepted ≠ next.accepted then
      (item.accepted, ⟨startPrt, item.prtMax⟩) :: portRanges next.prtMin (next :: summary)
    else portRanges startPrt (next :: summary)

def rangesOf (accepted : Bool) (summary : Summary) : List PortRange :=
  ((portRanges 1 summary).filter fun r => r.1 == accepted).map Prod.snd

def portText (range : PortRange) : Bytes :=
  if range.low = range.high then decimal range.low
  else decimal range.low ++ 45 :: decimal range.high

/-- `smartlist_join_strings` with a comma. -/
def joinStrings : List Bytes → Bytes
  | [] => []
  | [a] => a
  | a :: b :: sl => a ++ 44 :: joinStrings (b :: sl)

def acceptsStr (summary : Summary) : Bytes := joinStrings ((rangesOf true summary).map portText)

def rejectsStr (summary : Summary) : Bytes := joinStrings ((rangesOf false summary).map portText)

def maxExitpolicySummaryLen : ℕ := 1000

/-- Back to a comma, from index `c` on; none in front of the text. -/
def lastComma (str : Bytes) : ℕ → Option ℕ
  | 0 => if str.getD 0 0 = 44 then some 0 else none
  | c + 1 => if str.getD (c + 1) 0 = 44 then some (c + 1) else lastComma str c

def Truncated (summary : Summary) : Prop :=
  (rejectsStr summary).length > maxExitpolicySummaryLen - 6 - 1 ∧
    (acceptsStr summary).length > maxExitpolicySummaryLen - 6 - 1

instance (summary : Summary) : Decidable (Truncated summary) := inferInstanceAs (Decidable (_ ∧ _))

def summaryText (summary : Summary) : Option Bytes :=
  if rangesOf true summary = [] then some (ascii "reject 1-65535")
  else if rangesOf false summary = [] then some (ascii "accept 1-65535")
  else if Truncated summary then
    (lastComma (acceptsStr summary) (maxExitpolicySummaryLen - 6 - 1)).map fun c =>
      ascii "accept " ++ (acceptsStr summary).take c
  else if (rejectsStr summary).length < (acceptsStr summary).length then
    some (ascii "reject " ++ rejectsStr summary)
  else some (ascii "accept " ++ acceptsStr summary)

def policySummarize (policy : List AddrPolicy) (family : ℕ) : Option Bytes := do
  let summary ← summaryOf policy family
  summaryText summary

/-! ### Reading it back -/

structure ShortPolicy where
  isAccept : Bool
  entries : List PortRange
  deriving DecidableEq

theorem length_torParseUlong {s next : Bytes} {min max n : ℕ}
    (h : torParseUlong s min max = some (n, next)) : next.length < s.length := by
  have hspace := (List.dropWhile_suffix torIsspace : s.dropWhile torIsspace <:+ s).length_le
  simp only [torParseUlong] at h
  generalize s.dropWhile torIsspace = t at h hspace
  generalize hdigits : (if t.head? = some 45 ∨ t.head? = some 43 then t.tail else t) = digits at h
  have hle : digits.length ≤ t.length := by
    rw [← hdigits]
    split_ifs <;> simp
  have hsum : (digits.takeWhile torIsdigit).length + (digits.dropWhile torIsdigit).length =
      digits.length := by
    rw [← List.length_append, List.takeWhile_append_dropWhile]
  by_cases hnone : digits.takeWhile torIsdigit = [] ∨
      valueOf (digits.takeWhile torIsdigit) > ulongMax
  · rw [if_pos hnone] at h
    cases h
  rw [if_neg hnone] at h
  generalize (if t.head? = some 45 then (2 ^ 64 - valueOf (digits.takeWhile torIsdigit)) % 2 ^ 64
    else valueOf (digits.takeWhile torIsdigit)) = r at h
  by_cases hrange : r < min ∨ r > max
  · rw [if_pos hrange] at h
    cases h
  · rw [if_neg hrange] at h
    cases h
    simp only [not_or, ← List.length_pos_iff] at hnone
    omega

/-- What stands behind a number: the upper end of its range, and the next entry. -/
def parseHigh (low : ℕ) (next : Bytes) : Option (ℕ × Bytes) :=
  if next.headD 0 = 44 then some (low, next.tail)
  else if next.headD 0 = 0 then some (low, next)
  else if next.headD 0 = 45 then
    match torParseUlong next.tail low maxPort with
    | none => none
    | some (high, next) =>
      if next.headD 0 = 44 then some (high, next.tail)
      else if next.headD 0 = 0 then some (high, next)
      else none
  else none

theorem length_parseHigh {low high : ℕ} {next rest : Bytes}
    (h : parseHigh low next = some (high, rest)) : rest.length ≤ next.length := by
  have htail : ∀ l : Bytes, l.tail.length ≤ l.length := fun l => by simp
  unfold parseHigh at h
  by_cases hcomma : next.headD 0 = 44
  · rw [if_pos hcomma] at h
    cases h
    exact htail next
  rw [if_neg hcomma] at h
  by_cases hend : next.headD 0 = 0
  · rw [if_pos hend] at h
    cases h
    exact le_refl _
  rw [if_neg hend] at h
  by_cases hdash : next.headD 0 = 45
  · rw [if_pos hdash] at h
    cases hnum : torParseUlong next.tail low maxPort with
    | none =>
      rw [hnum] at h
      cases h
    | some r =>
      obtain ⟨n, after⟩ := r
      have hlt := length_torParseUlong hnum
      have hle := htail next
      have hafter := htail after
      rw [hnum] at h
      simp only at h
      split_ifs at h
      · cases h
        omega
      · cases h
        omega
  · rw [if_neg hdash] at h
    cases h

def strchr (s : Bytes) (c : UInt8) : Option Bytes :=
  if c ∈ cstr s then some (s.dropWhile (· ≠ c)) else none

theorem length_strchr_le {s next : Bytes} {c : UInt8} (h : strchr s c = some next) :
    next.length ≤ s.length := by
  unfold strchr at h
  split_ifs at h
  cases h
  exact (List.dropWhile_suffix _).length_le

theorem length_pos_of_headD {s : Bytes} (h : ¬ s.headD 0 = 0) : 0 < s.length := by
  cases s with
  | nil => exact absurd rfl h
  | cons c s => exact Nat.succ_pos _

/-- The entries from here on; `nEntries` have been read. -/
def parseEntries (summary : Bytes) (nEntries : ℕ) : Option (List PortRange) :=
  if _ : summary.headD 0 = 0 then some []
  else if nEntries = maxExitpolicySummaryLen then none
  else
    match _ : torParseUlong summary 1 maxPort with
    | none =>
      -- an entry in another format is skipped
      if torIsdigit (summary.headD 0) = false ∨ summary.headD 0 = 44 then
        match _ : strchr summary 44 with
        | none => some []
        | some next => parseEntries next.tail nEntries
      else none
    | some (low, next) =>
      match _ : parseHigh low next with
      | none => none
      | some (high, next) => (parseEntries next (nEntries + 1)).map (⟨low, high⟩ :: ·)
termination_by summary.length
decreasing_by
  · have hpos := length_pos_of_headD ‹_›
    have hle := length_strchr_le ‹_›
    rw [List.length_tail]
    omega
  · have hlt := length_torParseUlong ‹_›
    have hle := length_parseHigh ‹_›
    omega

def parseShortPolicy (summary : Bytes) : Option ShortPolicy :=
  if summary.take 7 = ascii "accept " ∨ summary.take 7 = ascii "reject " then
    match parseEntries (summary.drop 7) 0 with
    | none => none
    | some entries =>
      if entries = [] then none
      else some ⟨decide (summary.take 7 = ascii "accept "), entries⟩
  else none

def compareToShortPolicy (port : ℕ) (policy : ShortPolicy) : AddrPolicyResult :=
  let foundMatch := policy.entries.any fun e => decide (e.low ≤ port ∧ port ≤ e.high)
  let accept := if foundMatch then policy.isAccept else !policy.isAccept
  if accept then .probablyAccepted else .rejected

/-! ### The ranges say what the items say -/

def HasItem (accepted : Bool) (summary : Summary) (port : ℕ) : Prop :=
  ∃ item ∈ summary, item.accepted = accepted ∧ item.prtMin ≤ port ∧ port ≤ item.prtMax

def HasPort (ranges : List PortRange) (port : ℕ) : Prop :=
  ∃ r ∈ ranges, r.low ≤ port ∧ port ≤ r.high

/-- A range that is not empty, in front of `hi`. -/
def PortRange.Fits (hi : ℕ) (r : PortRange) : Prop := 1 ≤ r.low ∧ r.low ≤ r.high ∧ r.high < hi

theorem hasItem_cons {accepted : Bool} {item : PolicySummaryItem} {summary : Summary} {port : ℕ} :
    HasItem accepted (item :: summary) port ↔
      (item.accepted = accepted ∧ item.prtMin ≤ port ∧ port ≤ item.prtMax) ∨
        HasItem accepted summary port := by
  simp [HasItem]

theorem mem_portRanges_iff {summary : Summary} {item : PolicySummaryItem} {start hi : ℕ}
    (h : Run item.prtMin hi (item :: summary)) (hstart : start ≤ item.prtMin) (accepted : Bool)
    (port : ℕ) :
    (∃ r ∈ portRanges start (item :: summary),
        r.1 = accepted ∧ r.2.low ≤ port ∧ port ≤ r.2.high) ↔
      HasItem accepted ({ item with prtMin := start } :: summary) port := by
  induction summary generalizing item start with
  | nil => simp [portRanges, HasItem]
  | cons next summary ih =>
    obtain ⟨-, hle, hnext⟩ := h
    have hmin : next.prtMin = item.prtMax + 1 := hnext.1
    have hrun : Run next.prtMin hi (next :: summary) := hmin ▸ hnext
    rw [portRanges]
    by_cases hsame : item.accepted = next.accepted
    · -- the range goes on: the ports of `item` are counted as ports of `next`
      rw [if_neg (not_not.mpr hsame), ih hrun (by omega)]
      simp only [hasItem_cons, hsame]
      have hle' := hrun.2.1
      constructor
      · rintro (⟨hacc, hlow, hhigh⟩ | hrest)
        · rcases Nat.lt_or_ge item.prtMax port with hlt | hge
          · exact Or.inr (Or.inl ⟨hacc, by omega, hhigh⟩)
          · exact Or.inl ⟨hacc, hlow, hge⟩
        · exact Or.inr (Or.inr hrest)
      · rintro (⟨hacc, hlow, hhigh⟩ | ⟨hacc, hlow, hhigh⟩ | hrest)
        · exact Or.inl ⟨hacc, hlow, by omega⟩
        · exact Or.inl ⟨hacc, by omega, hhigh⟩
        · exact Or.inr hrest
    · rw [if_pos hsame, hasItem_cons, ← ih hrun (le_refl _)]
      simp

theorem portRanges_fits {summary : Summary} {item : PolicySummaryItem} {start hi : ℕ}
    (h : Run item.prtMin hi (item :: summary)) (hpos : 1 ≤ start) (hstart : start ≤ item.prtMin) :
    ∀ r ∈ portRanges start (item :: summary), r.2.Fits hi := by
  induction summary generalizing item start with
  | nil =>
    obtain ⟨-, hle, hend⟩ := h
    have hhi := Run.le hend
    simp only [portRanges, List.mem_singleton, forall_eq]
    exact ⟨hpos, hstart.trans hle, hhi⟩
  | cons next summary ih =>
    obtain ⟨-, hle, hnext⟩ := h
    have hmin : next.prtMin = item.prtMax + 1 := hnext.1
    have hrun : Run next.prtMin hi (next :: summary) := hmin ▸ hnext
    rw [portRanges]
    by_cases hsame : item.accepted = next.accepted
    · rw [if_neg (not_not.mpr hsame)]
      exact ih hrun hpos (by omega)
    · rw [if_pos hsame]
      exact List.forall_mem_cons.mpr
        ⟨⟨hpos, hstart.trans hle, hnext.le⟩, ih hrun (by omega) (le_refl _)⟩

theorem Run.restart {lo hi : ℕ} {item : PolicySummaryItem} {summary : Summary}
    (h : Run lo hi (item :: summary)) : Run item.prtMin hi (item :: summary) :=
  ⟨rfl, h.1.le.trans h.2.1, h.2.2⟩

theorem hasPort_rangesOf {summary : Summary} (h : Partition summary) (accepted : Bool) (port : ℕ) :
    HasPort (rangesOf accepted summary) port ↔ HasItem accepted summary port := by
  cases summary with
  | nil => cases h
  | cons item summary =>
    have hmin : item.prtMin = 1 := h.1
    have hitem : { item with prtMin := 1 } = item := by rw [← hmin]
    have hiff := mem_portRanges_iff (Run.restart h) hmin.ge accepted port
    rw [hitem] at hiff
    rw [← hiff]
    simp only [HasPort, rangesOf, List.mem_map, List.mem_filter, beq_iff_eq]
    constructor
    · rintro ⟨_, ⟨r, ⟨hr, hacc⟩, rfl⟩, hport⟩
      exact ⟨r, hr, hacc, hport⟩
    · rintro ⟨r, hr, hacc, hport⟩
      exact ⟨r.2, ⟨r, ⟨hr, hacc⟩, rfl⟩, hport⟩

theorem rangesOf_fits {summary : Summary} (h : Partition summary) (accepted : Bool) :
    ∀ r ∈ rangesOf accepted summary, r.Fits (maxPort + 1) := by
  cases summary with
  | nil => cases h
  | cons item summary =>
    have hmin : item.prtMin = 1 := h.1
    intro r hr
    obtain ⟨r', hr', rfl⟩ := List.mem_map.mp hr
    exact portRanges_fits (Run.restart h) (le_refl 1) hmin.ge r'
      (List.mem_filter.mp hr').1

/-! ### A list of ranges is read back -/

/-- What stands behind a range: nothing, or a comma and the ranges that follow. -/
def Separated (e : Bytes) : Prop := e = [] ∨ ∃ rest, e = 44 :: rest

theorem Separated.headD {e : Bytes} (h : Separated e) :
    torIsdigit (e.headD 0) = false ∧ e.headD 0 ≠ 45 := by
  obtain rfl | ⟨rest, rfl⟩ := h
  · exact ⟨rfl, by decide⟩
  · refine ⟨rfl, ?_⟩
    show (44 : UInt8) ≠ 45
    decide

theorem parseHigh_separated (low : ℕ) {e : Bytes} (he : Separated e) :
    parseHigh low e = some (low, e.tail) := by
  obtain rfl | ⟨rest, rfl⟩ := he
  · rfl
  · rfl

theorem parseHigh_range {r : PortRange} (h : r.Fits (maxPort + 1)) {e : Bytes} (he : Separated e) :
    parseHigh r.low (45 :: (decimal r.high ++ e)) = some (r.high, e.tail) := by
  obtain ⟨-, hle, hlt⟩ := h
  have hread := torParseUlong_decimal hle (Nat.le_of_lt_succ hlt) (by decide) he.headD.1
  have h44 : ¬ (45 : UInt8) = 44 := by decide
  have h0 : ¬ (45 : UInt8) = 0 := by decide
  simp only [parseHigh, List.headD_cons, List.tail_cons, if_neg h44, if_neg h0, if_true, hread]
  obtain rfl | ⟨rest, rfl⟩ := he
  · rfl
  · rfl

theorem portText_startsNumber (r : PortRange) : StartsNumber (portText r) := by
  unfold portText
  split_ifs
  · exact startsNumber_decimal _
  · exact (startsNumber_decimal _).append _

theorem parseEntries_portText {r : PortRange} (h : r.Fits (maxPort + 1)) {e : Bytes}
    (he : Separated e) {nEntries : ℕ} (hn : nEntries < maxExitpolicySummaryLen) :
    parseEntries (portText r ++ e) nEntries = (parseEntries e.tail (nEntries + 1)).map (r :: ·) := by
  have hhead := ((portText_startsNumber r).append e).headD
  have hmore : ¬ (portText r ++ e).headD 0 = 0 := by
    intro hzero
    rw [hzero] at hhead
    exact absurd hhead (by decide)
  obtain ⟨next, hlow, hhigh⟩ : ∃ next, torParseUlong (portText r ++ e) 1 maxPort =
      some (r.low, next) ∧ parseHigh r.low next = some (r.high, e.tail) := by
    have hmax : r.low ≤ maxPort := h.2.1.trans (Nat.le_of_lt_succ h.2.2)
    unfold portText
    by_cases hone : r.low = r.high
    · rw [if_pos hone]
      exact ⟨e, torParseUlong_decimal h.1 hmax (by decide) he.headD.1,
        hone ▸ parseHigh_separated r.low he⟩
    · rw [if_neg hone, List.append_assoc]
      exact ⟨45 :: (decimal r.high ++ e), torParseUlong_decimal h.1 hmax (by decide) rfl,
        parseHigh_range h he⟩
  rw [parseEntries, dif_neg hmore, if_neg hn.ne]
  split
  next hread =>
    rw [hlow] at hread
    cases hread
  next hread =>
    rw [hlow] at hread
    cases hread
    split
    next hread =>
      rw [hhigh] at hread
      cases hread
    next hread =>
      rw [hhigh] at hread
      cases hread
      rfl

theorem joinStrings_cons (a : Bytes) (sl : List Bytes) :
    ∃ e, joinStrings (a :: sl) = a ++ e ∧ Separated e ∧ e.tail = joinStrings sl := by
  cases sl with
  | nil => exact ⟨[], by simp [joinStrings], Or.inl rfl, rfl⟩
  | cons b sl => exact ⟨44 :: joinStrings (b :: sl), rfl, Or.inr ⟨_, rfl⟩, rfl⟩

theorem parseEntries_joinStrings {ranges : List PortRange} (h : ∀ r ∈ ranges, r.Fits (maxPort + 1))
    (nEntries : ℕ) (hn : nEntries + ranges.length ≤ maxExitpolicySummaryLen) :
    parseEntries (joinStrings (ranges.map portText)) nEntries = some ranges := by
  induction ranges generalizing nEntries with
  | nil =>
    rw [parseEntries]
    rfl
  | cons r ranges ih =>
    obtain ⟨hr, hrest⟩ := List.forall_mem_cons.mp h
    obtain ⟨e, hjoin, hsep, htail⟩ := joinStrings_cons (portText r) (ranges.map portText)
    rw [List.length_cons] at hn
    rw [List.map_cons, hjoin, parseEntries_portText hr hsep (by omega), htail,
      ih hrest (nEntries + 1) (by omega)]
    rfl

/-! ### The cut -/

theorem comma_notMem_decimal (n : ℕ) : (44 : UInt8) ∉ decimal n := by
  intro h
  exact absurd ((decimal_spec n).2.1 44 h) (by decide)

theorem comma_notMem_portText (r : PortRange) : (44 : UInt8) ∉ portText r := by
  unfold portText
  split_ifs
  · exact comma_notMem_decimal _
  · simp [comma_notMem_decimal]

theorem length_portText_le {r : PortRange} (h : r.Fits (maxPort + 1)) :
    (portText r).length ≤ 21 := by
  obtain ⟨-, hle, hlt⟩ := h
  have hmax : maxPort + 1 ≤ intMax := by decide
  have hlow : (decimal r.low).length ≤ 10 := length_decimal_le ((hle.trans_lt hlt).le.trans hmax)
  have hhigh : (decimal r.high).length ≤ 10 := length_decimal_le (hlt.le.trans hmax)
  unfold portText
  split_ifs
  · omega
  · rw [List.length_append, List.length_cons]
    omega

theorem length_le_joinStrings {sl : List Bytes} (h : ∀ a ∈ sl, a ≠ []) :
    sl.length ≤ (joinStrings sl).length := by
  induction sl with
  | nil => exact le_refl _
  | cons a sl ih =>
    obtain ⟨ha, hrest⟩ := List.forall_mem_cons.mp h
    have hpos := List.length_pos_iff.mpr ha
    obtain ⟨e, hjoin, -, htail⟩ := joinStrings_cons a sl
    have hle := ih hrest
    rw [hjoin, List.length_append, List.length_cons]
    rw [← htail, List.length_tail] at hle
    omega

theorem take_joinStrings {sl : List Bytes} (h : ∀ a ∈ sl, (44 : UInt8) ∉ a) {c : ℕ}
    (hc : (joinStrings sl).getD c 0 = 44) :
    ∃ k, 0 < k ∧ (joinStrings sl).take c = joinStrings (sl.take k) := by
  induction sl generalizing c with
  | nil => simp [joinStrings] at hc
  | cons a sl ih =>
    obtain ⟨ha, hrest⟩ := List.forall_mem_cons.mp h
    have hin : ∀ i, a.getD i 0 ≠ 44 := by
      intro i hi
      rcases Nat.lt_or_ge i a.length with hlt | hge
      · rw [List.getD_eq_getElem _ _ hlt] at hi
        exact ha (hi ▸ List.getElem_mem hlt)
      · rw [List.getD_eq_default _ _ hge] at hi
        exact absurd hi (by decide)
    cases sl with
    | nil => exact absurd hc (hin c)
    | cons b sl =>
      rw [joinStrings] at hc ⊢
      rcases lt_trichotomy c a.length with hlt | rfl | hgt
      · rw [List.getD_append _ _ _ _ hlt] at hc
        exact absurd hc (hin c)
      · exact ⟨1, Nat.one_pos, by simp [joinStrings]⟩
      · -- the comma stands behind the first text and the comma that follows it
        obtain ⟨d, rfl⟩ := Nat.exists_eq_add_of_lt hgt
        have hd : (joinStrings (b :: sl)).getD d 0 = 44 := by
          rw [List.getD_append_right _ _ _ _ (by omega), Nat.add_assoc, Nat.add_sub_cancel_left,
            List.getD_cons_succ] at hc
          exact hc
        obtain ⟨k, hk, htake⟩ := ih hrest hd
        obtain ⟨k, rfl⟩ := Nat.exists_eq_succ_of_ne_zero hk.ne'
        refine ⟨k + 2, Nat.succ_pos _, ?_⟩
        rw [Nat.add_assoc, List.take_length_add_append, List.take_succ_cons, htake]
        rfl

theorem lastComma_some {str : Bytes} {c i : ℕ} (h : lastComma str c = some i) :
    i ≤ c ∧ str.getD i 0 = 44 := by
  induction c with
  | zero =>
    rw [lastComma] at h
    split_ifs at h with hcomma
    cases h
    exact ⟨le_refl _, hcomma⟩
  | succ c ih =>
    rw [lastComma] at h
    split_ifs at h with hcomma
    · cases h
      exact ⟨le_refl _, hcomma⟩
    · obtain ⟨hle, hi⟩ := ih h
      exact ⟨hle.trans (Nat.le_succ c), hi⟩

theorem lastComma_isSome {str : Bytes} {c i : ℕ} (hi : i ≤ c) (h : str.getD i 0 = 44) :
    (lastComma str c).isSome := by
  induction c with
  | zero =>
    obtain rfl := Nat.le_zero.mp hi
    rw [lastComma, if_pos h]
    rfl
  | succ c ih =>
    rw [lastComma]
    split_ifs with hcomma
    · rfl
    · refine ih (Nat.le_of_lt_succ (lt_of_le_of_ne hi ?_))
      rintro rfl
      exact hcomma h

/-! ### The summary -/

/-- The items are a partition of the ports after each entry of the policy; the text fits, is read
back, and what is read lets a port through exactly if its item is marked, or only if it is where the
text has been cut. -/
structure Summarizes (policy : List AddrPolicy) (family : ℕ) : Prop where
  partition : ∀ k, ∃ summary, summaryOf (policy.take k) family = some summary ∧ Partition summary
  readBack : ∃ summary text short, summaryOf policy family = some summary ∧
    policySummarize policy family = some text ∧ text.length ≤ maxExitpolicySummaryLen ∧
    parseShortPolicy text = some short ∧
    ∀ port, ∀ item ∈ summary, item.prtMin ≤ port → port ≤ item.prtMax →
      (compareToShortPolicy port short = .probablyAccepted → item.accepted = true) ∧
      (¬ Truncated summary → item.accepted = true →
        compareToShortPolicy port short = .probablyAccepted)

theorem compareToShortPolicy_iff (port : ℕ) (policy : ShortPolicy) :
    compareToShortPolicy port policy = .probablyAccepted ↔
      (HasPort policy.entries port ↔ policy.isAccept = true) := by
  have hany : (policy.entries.any fun e => decide (e.low ≤ port ∧ port ≤ e.high)) = true ↔
      HasPort policy.entries port := by
    simp [HasPort]
  rw [← hany, compareToShortPolicy]
  cases policy.entries.any fun e => decide (e.low ≤ port ∧ port ≤ e.high) <;>
    cases policy.isAccept <;> simp

theorem parseShortPolicy_text (isAccept : Bool) {ranges : List PortRange} (hne : ranges ≠ [])
    (h : ∀ r ∈ ranges, r.Fits (maxPort + 1)) (hlen : ranges.length ≤ maxExitpolicySummaryLen) :
    parseShortPolicy ((if isAccept then ascii "accept " else ascii "reject ") ++
      joinStrings (ranges.map portText)) = some ⟨isAccept, ranges⟩ := by
  have hentries := parseEntries_joinStrings h 0 (by omega)
  cases isAccept with
  | true =>
    have htake : (ascii "accept " ++ joinStrings (ranges.map portText)).take 7 = ascii "accept " := rfl
    have hdrop : (ascii "accept " ++ joinStrings (ranges.map portText)).drop 7 =
      joinStrings (ranges.map portText) := rfl
    simp [parseShortPolicy, htake, hdrop, hentries, hne]
  | false =>
    have htake : (ascii "reject " ++ joinStrings (ranges.map portText)).take 7 = ascii "reject " := rfl
    have hdrop : (ascii "reject " ++ joinStrings (ranges.map portText)).drop 7 =
      joinStrings (ranges.map portText) := rfl
    have hother : ¬ ascii "reject " = ascii "accept " := by decide
    simp [parseShortPolicy, htake, hdrop, hentries, hne, hother]

theorem Run.le_prtMin {summary : Summary} {lo hi : ℕ} (h : Run lo hi summary)
    {item : PolicySummaryItem} (hitem : item ∈ summary) : lo ≤ item.prtMin := by
  induction summary generalizing lo with
  | nil => cases hitem
  | cons first summary ih =>
    obtain ⟨hmin, hle, hrest⟩ := h
    rcases List.mem_cons.mp hitem with rfl | hmem
    · exact hmin.ge
    · have := ih hrest hmem
      omega

theorem Run.unique {summary : Summary} {lo hi port : ℕ} (h : Run lo hi summary)
    {item item' : PolicySummaryItem} (hitem : item ∈ summary) (hitem' : item' ∈ summary)
    (hport : item.prtMin ≤ port ∧ port ≤ item.prtMax)
    (hport' : item'.prtMin ≤ port ∧ port ≤ item'.prtMax) : item = item' := by
  induction summary generalizing lo with
  | nil => cases hitem
  | cons first summary ih =>
    obtain ⟨-, -, hrest⟩ := h
    rcases List.mem_cons.mp hitem with rfl | hmem
    · rcases List.mem_cons.mp hitem' with rfl | hmem'
      · rfl
      · have := hrest.le_prtMin hmem'
        omega
    · rcases List.mem_cons.mp hitem' with rfl | hmem'
      · have := hrest.le_prtMin hmem
        omega
      · exact ih hrest hmem hmem'

theorem hasPort_iff_accepted {summary : Summary} (h : Partition summary) (accepted : Bool)
    {port : ℕ} {item : PolicySummaryItem} (hitem : item ∈ summary)
    (hport : item.prtMin ≤ port ∧ port ≤ item.prtMax) :
    HasPort (rangesOf accepted summary) port ↔ item.accepted = accepted := by
  rw [hasPort_rangesOf h]
  constructor
  · rintro ⟨item', hitem', hacc, hport'⟩
    rw [Run.unique h hitem hitem' hport hport']
    exact hacc
  · intro hacc
    exact ⟨item, hitem, hacc, hport⟩

def Means (text : Bytes) (summary : Summary) : Prop :=
  text.length ≤ maxExitpolicySummaryLen ∧ ∃ short, parseShortPolicy text = some short ∧
    ∀ port, ∀ item ∈ summary, item.prtMin ≤ port ∧ port ≤ item.prtMax →
      (compareToShortPolicy port short = .probablyAccepted ↔ item.accepted = true)

theorem length_text (isAccept : Bool) (text : Bytes) :
    ((if isAccept then ascii "accept " else ascii "reject ") ++ text).length = text.length + 7 := by
  rw [List.length_append, Nat.add_comm]
  cases isAccept <;> rfl

theorem length_ranges_le (ranges : List PortRange) :
    ranges.length ≤ (joinStrings (ranges.map portText)).length := by
  have hne : ∀ a ∈ ranges.map portText, a ≠ [] := by
    intro a ha
    obtain ⟨r, -, rfl⟩ := List.mem_map.mp ha
    obtain ⟨c, t, ht, -⟩ := portText_startsNumber r
    rw [ht]
    exact List.cons_ne_nil c t
  have h := length_le_joinStrings hne
  rwa [List.length_map] at h

theorem means_rangesOf {summary : Summary} (h : Partition summary) (isAccept : Bool)
    (hne : rangesOf isAccept summary ≠ [])
    (hlen : (joinStrings ((rangesOf isAccept summary).map portText)).length ≤
      maxExitpolicySummaryLen - 6 - 1) :
    Means ((if isAccept then ascii "accept " else ascii "reject ") ++
      joinStrings ((rangesOf isAccept summary).map portText)) summary := by
  have hcount := length_ranges_le (rangesOf isAccept summary)
  unfold maxExitpolicySummaryLen at hlen
  refine ⟨?_, _, parseShortPolicy_text isAccept hne (rangesOf_fits h isAccept) ?_, ?_⟩
  · rw [length_text]
    unfold maxExitpolicySummaryLen
    omega
  · unfold maxExitpolicySummaryLen
    omega
  · intro port item hitem hport
    rw [compareToShortPolicy_iff, hasPort_iff_accepted h isAccept hitem hport]
    cases isAccept with
    | true => simp
    | false => simp

theorem means_all {summary : Summary} (h : Partition summary) (isAccept : Bool)
    (hempty : rangesOf (!isAccept) summary = []) :
    Means (if isAccept then ascii "accept 1-65535" else ascii "reject 1-65535") summary := by
  have hparse : parseShortPolicy (if isAccept then ascii "accept 1-65535"
      else ascii "reject 1-65535") = some ⟨isAccept, [⟨1, maxPort⟩]⟩ := by
    cases isAccept <;> decide +kernel
  refine ⟨by cases isAccept <;> decide, _, hparse, fun port item hitem hport => ?_⟩
  have hlow := Run.le_prtMin h hitem
  have hhigh := Run.prtMax_lt h hitem
  have hin : HasPort [⟨1, maxPort⟩] port :=
    ⟨_, List.mem_singleton_self _, hlow.trans hport.1, hport.2.trans (Nat.le_of_lt_succ hhigh)⟩
  have hnot := (hasPort_iff_accepted h (!isAccept) hitem hport).not.mp (by
    rw [hempty]
    rintro ⟨r, hr, -⟩
    cases hr)
  rw [compareToShortPolicy_iff]
  cases isAccept <;> simp_all

theorem exists_comma {ranges : List PortRange} (h : ∀ r ∈ ranges, r.Fits (maxPort + 1))
    (hlen : 21 < (joinStrings (ranges.map portText)).length) :
    ∃ c ≤ 21, (joinStrings (ranges.map portText)).getD c 0 = 44 := by
  match ranges, h, hlen with
  | [], _, hlen => exact absurd hlen (Nat.not_lt_zero 21)
  | [r], h, hlen =>
    have hle := length_portText_le (h r List.mem_cons_self)
    exact absurd hlen (Nat.not_lt.mpr hle)
  | r :: r' :: ranges, h, _ =>
    refine ⟨(portText r).length, length_portText_le (h r List.mem_cons_self), ?_⟩
    simp [joinStrings]

theorem cut_means {summary : Summary} (h : Partition summary)
    (hlong : maxExitpolicySummaryLen - 6 - 1 < (acceptsStr summary).length) :
    ∃ c short, lastComma (acceptsStr summary) (maxExitpolicySummaryLen - 6 - 1) = some c ∧
      (ascii "accept " ++ (acceptsStr summary).take c).length ≤ maxExitpolicySummaryLen ∧
      parseShortPolicy (ascii "accept " ++ (acceptsStr summary).take c) = some short ∧
      ∀ port, ∀ item ∈ summary, item.prtMin ≤ port ∧ port ≤ item.prtMax →
        compareToShortPolicy port short = .probablyAccepted → item.accepted = true := by
  have hfits := rangesOf_fits h true
  have hmax : maxExitpolicySummaryLen - 6 - 1 = 993 := rfl
  rw [hmax] at hlong ⊢
  obtain ⟨i, hi, hcomma⟩ := exists_comma hfits (lt_trans (by decide) hlong)
  obtain ⟨c, hc⟩ := Option.isSome_iff_exists.mp
    (lastComma_isSome (hi.trans (by decide : 21 ≤ 993)) hcomma)
  obtain ⟨hle, hget⟩ := lastComma_some hc
  have hcommas : ∀ a ∈ (rangesOf true summary).map portText, (44 : UInt8) ∉ a := by
    intro a ha
    obtain ⟨r, -, rfl⟩ := List.mem_map.mp ha
    exact comma_notMem_portText r
  -- cut at a comma, the text is that of the first `k` ranges
  obtain ⟨k, hk, htake⟩ := take_joinStrings hcommas hget
  rw [← List.map_take] at htake
  have hcount := length_ranges_le ((rangesOf true summary).take k)
  have hshort : (joinStrings (((rangesOf true summary).take k).map portText)).length ≤ 993 := by
    rw [← htake, List.length_take]
    omega
  have hne : (rangesOf true summary).take k ≠ [] := by
    intro hnil
    rcases List.take_eq_nil_iff.mp hnil with rfl | hnil
    · exact absurd hk (lt_irrefl 0)
    · rw [acceptsStr, hnil] at hlong
      exact absurd hlong (by decide)
  have hparse := parseShortPolicy_text true hne (fun r hr => hfits r (List.mem_of_mem_take hr))
    (hcount.trans (hshort.trans (by decide)))
  have hlen := length_text true (joinStrings (((rangesOf true summary).take k).map portText))
  rw [if_pos rfl] at hparse hlen
  refine ⟨c, ⟨true, (rangesOf true summary).take k⟩, hc, ?_, ?_,
    fun port item hitem hport haccept => ?_⟩
  · rw [acceptsStr, htake, hlen]
    unfold maxExitpolicySummaryLen
    omega
  · rw [acceptsStr, htake]
    exact hparse
  · rw [compareToShortPolicy_iff] at haccept
    obtain ⟨r, hr, hin⟩ := haccept.mpr rfl
    exact (hasPort_iff_accepted h true hitem hport).mp ⟨r, List.mem_of_mem_take hr, hin⟩

theorem summaryText_spec {summary : Summary} (h : Partition summary) :
    ∃ text short, summaryText summary = some text ∧ text.length ≤ maxExitpolicySummaryLen ∧
      parseShortPolicy text = some short ∧
      ∀ port, ∀ item ∈ summary, item.prtMin ≤ port ∧ port ≤ item.prtMax →
        (compareToShortPolicy port short = .probablyAccepted → item.accepted = true) ∧
        (¬ Truncated summary → item.accepted = true →
          compareToShortPolicy port short = .probablyAccepted) := by
  have hmeans : ∀ {text}, Means text summary → summaryText summary = some text →
      ∃ text short, summaryText summary = some text ∧ text.length ≤ maxExitpolicySummaryLen ∧
        parseShortPolicy text = some short ∧
        ∀ port, ∀ item ∈ summary, item.prtMin ≤ port ∧ port ≤ item.prtMax →
          (compareToShortPolicy port short = .probablyAccepted → item.accepted = true) ∧
          (¬ Truncated summary → item.accepted = true →
            compareToShortPolicy port short = .probablyAccepted) := by
    rintro text ⟨hlen, short, hparse, hread⟩ htext
    exact ⟨text, short, htext, hlen, hparse, fun port item hitem hport =>
      ⟨(hread port item hitem hport).mp, fun _ => (hread port item hitem hport).mpr⟩⟩
  -- the texts that are not cut list all ranges of one kind
  unfold summaryText at hmeans ⊢
  by_cases haccepts : rangesOf true summary = []
  · exact hmeans (means_all h false haccepts) (if_pos haccepts)
  rw [if_neg haccepts] at hmeans ⊢
  by_cases hrejects : rangesOf false summary = []
  · exact hmeans (means_all h true hrejects) (if_pos hrejects)
  rw [if_neg hrejects] at hmeans ⊢
  by_cases htruncated : Truncated summary
  · obtain ⟨c, short, hc, hlen, hparse, hread⟩ := cut_means h htruncated.2
    rw [if_pos htruncated, hc]
    exact ⟨_, short, rfl, hlen, hparse, fun port item hitem hport =>
      ⟨hread port item hitem hport, fun hnot => absurd htruncated hnot⟩⟩
  rw [if_neg htruncated] at hmeans ⊢
  unfold Truncated at htruncated
  by_cases hshorter : (rejectsStr summary).length < (acceptsStr summary).length
  · refine hmeans (means_rangesOf h false hrejects ?_) (if_pos hshorter)
    change (rejectsStr summary).length ≤ _
    omega
  · refine hmeans (means_rangesOf h true haccepts ?_) (if_neg hshorter)
    change (acceptsStr summary).length ≤ _
    omega

theorem policySummarize_iff (policy : List AddrPolicy) (family : ℕ) :
    Summarizes policy family ↔
      ∀ p ∈ policy, torAddrFamily p.addr = family → Counts p → HasPorts p := by
  constructor
  · exact fun h => partition_iff.mp h.partition
  · intro hports
    refine ⟨partition_iff.mpr hports, ?_⟩
    obtain ⟨summary, hsummary, hpartition⟩ := summaryOf_partition hports
    obtain ⟨text, short, htext, hlen, hparse, hread⟩ := summaryText_spec hpartition
    refine ⟨summary, text, short, hsummary, ?_, hlen, hparse, fun port item hitem hmin hmax =>
      hread port item hitem ⟨hmin, hmax⟩⟩
    rw [policySummarize, hsummary]
    exact htext

/-- `parse_port_range` reads port 0 as the ports from 1 to 0, and `policy_summary_item_split` asserts
that an item does not end before it begins. -/
theorem port_zero_aborts :
    policySummarize [⟨.reject, .inet 0x12000001, 32, 1, 0⟩] afInet = none ∧
      ¬ Summarizes [⟨.reject, .inet 0x12000001, 32, 1, 0⟩] afInet := by
  have hnone : policySummarize [⟨.reject, .inet 0x12000001, 32, 1, 0⟩] afInet = none := by
    decide +kernel
  refine ⟨hnone, fun h => ?_⟩
  obtain ⟨_, _, _, -, hsome, -⟩ := h.readBack
  rw [hnone] at hsome
  cases hsome

end Policies
