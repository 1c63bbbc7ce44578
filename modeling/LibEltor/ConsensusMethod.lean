/-
The choice of the consensus method (`compute_consensus_method`).

Each vote's methods are sorted and made unique as numbers, and then counted as strings: what is equal
as a number need not be next to itself as a string.  Strings that are no numbers are counted too.
-/
import Mathlib
import LibEltor.Comparison
import LibEltor.DirvoteParams
import LibEltor.Versions

open Comparison Versions

namespace Dirvote

/-! ### The code -/

def intMax : ℤ := 2 ^ 31 - 1

def denotes (s : Bytes) : Option ℤ := torParseLong s 1 intMax

/-- `(int)tor_parse_long(s, 10, 1, INT_MAX, NULL, NULL)` -/
def methodValue (s : Bytes) : ℤ := (denotes s).getD 0

def cmpIntStrings (a b : Bytes) : ℤ :=
  if methodValue a < methodValue b then -1
  else if methodValue a = methodValue b then
    if methodValue a = 0 then bytesCmp a b else 0
  else 1

/-- The loop of `get_frequent_members`, `cur` having been found `count` times. -/
def frequentFrom (min : ℕ) (cur : Option Bytes) (count : ℕ) : List Bytes → List Bytes
  | [] => if count > min then cur.toList else []
  | cp :: rest =>
    if cur = some cp then frequentFrom min cur (count + 1) rest
    else (if count > min then cur.toList else []) ++ frequentFrom min (some cp) 1 rest

def getFrequentMembers (methods : List Bytes) (min : ℕ) : List Bytes :=
  frequentFrom min none 0 methods

/-- What each vote adds; `qsort i` is what the call for the vote `i` does. -/
def uniqueMethods (qsort : ℕ → (Bytes → Bytes → ℤ) → List Bytes → List Bytes) :
    ℕ → List (List Bytes) → List Bytes
  | _, [] => []
  | i, supportedMethods :: votes =>
    smartlistUniq cmpIntStrings (qsort i cmpIntStrings supportedMethods) ++
      uniqueMethods qsort (i + 1) votes

def computeConsensusMethod (qsort : ℕ → (Bytes → Bytes → ℤ) → List Bytes → List Bytes)
    (votes : List (List Bytes)) : ℤ :=
  let min := votes.length * 2 / 3
  let allMethods := qsort votes.length cmpIntStrings (uniqueMethods qsort 0 votes)
  match (getFrequentMembers allMethods min).getLast? with
  | some best => methodValue best
  | none => 1

def nListingSome (votes : List (List Bytes)) (p : Bytes → Bool) : ℕ :=
  votes.countP fun methods => methods.any p

/-- More than two thirds of the votes list a string that denotes the method. -/
def Supported (votes : List (List Bytes)) (m : ℤ) : Prop :=
  votes.length * 2 / 3 < nListingSome votes fun s => decide (denotes s = some m)

instance (votes : List (List Bytes)) (m : ℤ) : Decidable (Supported votes m) :=
  inferInstanceAs (Decidable (_ < _))

def highestMethod (votes : List (List Bytes)) : ℤ :=
  ((votes.flatten.filterMap denotes).filter fun m => decide (Supported votes m)).foldr max 1

/-- All strings of the votes that denote the method are the same, or there is one vote at most. -/
def OneSpelling (votes : List (List Bytes)) (m : ℤ) : Prop :=
  votes.length ≤ 1 ∨ ∀ s ∈ votes.flatten, ∀ t ∈ votes.flatten,
    denotes s = some m → denotes t = some m → s = t

/-- More than two thirds of the votes list the string, which denotes no method. -/
def SupportedNonInteger (votes : List (List Bytes)) (s : Bytes) : Prop :=
  denotes s = none ∧ votes.length * 2 / 3 < nListingSome votes fun t => decide (t = s)

/-! ### The order of the strings -/

theorem denotes_pos {s : Bytes} {m : ℤ} (h : denotes s = some m) : 1 ≤ m := by
  unfold denotes torParseLong at h
  simp only at h
  split_ifs at h <;> simp only [Option.some.injEq] at h <;> omega

theorem methodValue_nonneg (s : Bytes) : 0 ≤ methodValue s := by
  unfold methodValue
  cases h : denotes s with
  | none => exact le_rfl
  | some m => exact zero_le_one.trans (denotes_pos h)

theorem denotes_eq_some_iff {s : Bytes} {m : ℤ} (hm : 1 ≤ m) :
    denotes s = some m ↔ methodValue s = m := by
  unfold methodValue
  cases h : denotes s with
  | none =>
    simp only [Option.getD_none, reduceCtorEq, false_iff]
    omega
  | some n => simp

theorem denotes_eq_none_iff {s : Bytes} : denotes s = none ↔ methodValue s = 0 := by
  unfold methodValue
  cases h : denotes s with
  | none => simp
  | some n =>
    have hpos := denotes_pos h
    simp only [reduceCtorEq, Option.getD_some, false_iff]
    omega

/-- By its value, and among the strings that are no numbers by its bytes. -/
def methodKey (s : Bytes) : List (List ℕ) :=
  [[(methodValue s).toNat], if methodValue s = 0 then bytesKey s else []]

theorem methodKey_lt_of_value_lt {a b : Bytes} (h : methodValue a < methodValue b) :
    methodKey a < methodKey b := by
  have ha := methodValue_nonneg a
  refine List.cons_lt_cons_iff.mpr (.inl (List.cons_lt_cons_iff.mpr (.inl ?_)))
  omega

theorem methodValue_le_of_key_le {a b : Bytes} (h : methodKey a ≤ methodKey b) :
    methodValue a ≤ methodValue b := by
  by_contra hlt
  exact absurd (methodKey_lt_of_value_lt (not_le.mp hlt)) (not_lt.mpr h)

theorem methodKey_eq_iff {a b : Bytes} : methodKey a = methodKey b ↔
    methodValue a = methodValue b ∧ (methodValue a = 0 → a = b) := by
  constructor
  · intro h
    have hvalue := le_antisymm (methodValue_le_of_key_le h.le) (methodValue_le_of_key_le h.ge)
    refine ⟨hvalue, fun hzero => ?_⟩
    simp only [methodKey, ← hvalue, hzero, if_true, List.cons.injEq, and_true, true_and] at h
    exact List.map_injective_iff.mpr (fun _ _ => UInt8.toNat_inj.mp) h
  · rintro ⟨hvalue, hsame⟩
    unfold methodKey
    by_cases hzero : methodValue a = 0
    · rw [hsame hzero]
    · rw [← hvalue, if_neg hzero, if_neg hzero]

theorem cmpIntStrings_agrees (a b : Bytes) :
    Agrees (cmpIntStrings a b) (methodKey a) (methodKey b) := by
  unfold cmpIntStrings
  rcases lt_trichotomy (methodValue a) (methodValue b) with hlt | heq | hgt
  · rw [if_pos hlt]
    exact agrees_of_lt (methodKey_lt_of_value_lt hlt)
  · rw [if_neg heq.not_lt, if_pos heq]
    unfold methodKey
    by_cases hzero : methodValue a = 0
    · rw [if_pos hzero, ← heq, if_pos hzero, if_pos hzero]
      exact (bytesCmp_agrees a b).single.tail _
    · rw [if_neg hzero, ← heq, if_neg hzero, if_neg hzero]
      exact ⟨by simp, by simp⟩
  · rw [if_neg hgt.not_gt, if_neg hgt.ne']
    exact agrees_of_gt (methodKey_lt_of_value_lt hgt)

theorem cmpIntStrings_byKey (l : List Bytes) : ByKey cmpIntStrings methodKey l :=
  fun a _ b _ => cmpIntStrings_agrees a b

/-! ### What is found often enough -/

theorem replicate_infix_of_lt {min count : ℕ} (cur : Bytes) (rest : List Bytes) (h : min < count) :
    List.replicate (min + 1) cur <:+: List.replicate count cur ++ rest := by
  refine ⟨[], List.replicate (count - (min + 1)) cur ++ rest, ?_⟩
  rw [List.nil_append, ← List.append_assoc, List.replicate_append_replicate]
  congr 2
  omega

theorem replicate_succ_append (count : ℕ) (cur : Bytes) (rest : List Bytes) :
    List.replicate (count + 1) cur ++ rest = List.replicate count cur ++ cur :: rest := by
  rw [List.replicate_succ', List.append_assoc, List.singleton_append]

theorem replicate_infix_of_mem {min count : ℕ} {cur s : Bytes} {l : List Bytes}
    (h : s ∈ frequentFrom min (some cur) count l) :
    List.replicate (min + 1) s <:+: List.replicate count cur ++ l := by
  induction l generalizing cur count with
  | nil =>
    unfold frequentFrom at h
    split_ifs at h with hcount
    · obtain rfl := List.mem_singleton.mp h
      exact replicate_infix_of_lt s [] hcount
    · cases h
  | cons cp rest ih =>
    unfold frequentFrom at h
    by_cases hsame : some cur = some cp
    · rw [if_pos hsame] at h
      obtain rfl := Option.some.inj hsame
      rw [← replicate_succ_append]
      exact ih h
    · rw [if_neg hsame, List.mem_append] at h
      obtain hfirst | hrest := h
      · split_ifs at hfirst with hcount
        · obtain rfl := List.mem_singleton.mp hfirst
          exact replicate_infix_of_lt s _ hcount
        · cases hfirst
      · exact (ih hrest).trans (List.suffix_append _ _).isInfix

theorem frequentFrom_sublist (min count : ℕ) (cur : Bytes) (l : List Bytes) :
    (frequentFrom min (some cur) count l).Sublist (cur :: l) := by
  induction l generalizing cur count with
  | nil =>
    unfold frequentFrom
    split_ifs
    · exact List.Sublist.refl _
    · exact List.nil_sublist _
  | cons cp rest ih =>
    unfold frequentFrom
    split_ifs with hsame hcount
    · exact (ih _ cur).trans (.cons_cons cur (List.sublist_cons_self cp rest))
    · exact (ih 1 cp).cons_cons cur
    · exact (ih 1 cp).cons cur

theorem mem_frequentFrom_of_count {min count : ℕ} {cur s : Bytes} {l : List Bytes}
    (hsorted : (cur :: l).Pairwise fun a b => methodKey a ≤ methodKey b)
    (hclass : ∀ t ∈ cur :: l, methodKey t = methodKey s → t = s)
    (hcount : min < (List.replicate count cur ++ l).count s) :
    s ∈ frequentFrom min (some cur) count l := by
  induction l generalizing cur count with
  | nil =>
    rw [List.append_nil, List.count_replicate] at hcount
    unfold frequentFrom
    by_cases hcur : cur = s
    · rw [if_pos (by simpa [hcur] using hcount)]
      simp [hcur]
    · simp [hcur] at hcount
  | cons cp rest ih =>
    obtain ⟨hle, hsorted'⟩ := List.pairwise_cons.mp hsorted
    have hclass' : ∀ t ∈ cp :: rest, methodKey t = methodKey s → t = s := fun t ht =>
      hclass t (List.mem_cons_of_mem cur ht)
    unfold frequentFrom
    by_cases hsame : some cur = some cp
    · rw [if_pos hsame]
      obtain rfl := Option.some.inj hsame
      rw [← replicate_succ_append] at hcount
      exact ih hsorted' hclass' hcount
    · rw [if_neg hsame, List.mem_append]
      rw [List.count_append, List.count_replicate] at hcount
      by_cases hcur : cur = s
      · -- the run of `s` ends here, and `s` does not come again
        subst hcur
        have hgone : (cp :: rest).count cur = 0 := by
          refine List.count_eq_zero_of_not_mem fun hmem => ?_
          have hcp : methodKey cp ≤ methodKey cur := by
            obtain rfl | hmem := List.mem_cons.mp hmem
            · exact le_rfl
            · exact (List.pairwise_cons.mp hsorted').1 cur hmem
          have hkey := le_antisymm hcp (hle cp List.mem_cons_self)
          exact hsame (congrArg some (hclass' cp List.mem_cons_self hkey).symm)
        rw [hgone] at hcount
        left
        rw [if_pos (by simpa using hcount)]
        simp
      · right
        refine ih hsorted' hclass' ?_
        simpa [hcur] using hcount

theorem getFrequentMembers_cons (min : ℕ) (cp : Bytes) (rest : List Bytes) :
    getFrequentMembers (cp :: rest) min = frequentFrom min (some cp) 1 rest := by
  simp [getFrequentMembers, frequentFrom]

theorem mem_getFrequentMembers {min : ℕ} {methods : List Bytes} {s : Bytes}
    (h : s ∈ getFrequentMembers methods min) : List.replicate (min + 1) s <:+: methods := by
  cases methods with
  | nil => simp [getFrequentMembers, frequentFrom] at h
  | cons cp rest =>
    rw [getFrequentMembers_cons] at h
    exact replicate_infix_of_mem h

theorem getFrequentMembers_sublist (methods : List Bytes) (min : ℕ) :
    (getFrequentMembers methods min).Sublist methods := by
  cases methods with
  | nil => simp [getFrequentMembers, frequentFrom]
  | cons cp rest =>
    rw [getFrequentMembers_cons]
    exact frequentFrom_sublist min 1 cp rest

theorem frequent_of_count {min : ℕ} {methods : List Bytes} {s : Bytes}
    (hsorted : methods.Pairwise fun a b => methodKey a ≤ methodKey b)
    (hclass : ∀ t ∈ methods, methodKey t = methodKey s → t = s) (hcount : min < methods.count s) :
    s ∈ getFrequentMembers methods min := by
  cases methods with
  | nil => simp at hcount
  | cons cp rest =>
    rw [getFrequentMembers_cons]
    exact mem_frequentFrom_of_count hsorted hclass hcount

/-! ### All methods -/

structure AllMethods (votes : List (List Bytes)) (methods : List Bytes) : Prop where
  sorted : methods.Pairwise fun a b => methodKey a ≤ methodKey b
  mem : ∀ s ∈ methods, s ∈ votes.flatten
  counts : ∀ k, (methods.countP fun s => decide (methodKey s = k)) =
    nListingSome votes fun s => decide (methodKey s = k)

variable {qsort : ℕ → (Bytes → Bytes → ℤ) → List Bytes → List Bytes} {votes : List (List Bytes)}

theorem sorted_of_sorts {sort : (Bytes → Bytes → ℤ) → List Bytes → List Bytes} (h : Sorts sort)
    (l : List Bytes) : (sort cmpIntStrings l).Perm l ∧
      (sort cmpIntStrings l).Pairwise fun a b => methodKey a ≤ methodKey b := by
  have hkey := cmpIntStrings_byKey l
  have hperm := h.perm cmpIntStrings l hkey.preordered
  refine ⟨hperm, (h.sorted cmpIntStrings l hkey.preordered).imp_of_mem fun ha hb hab => ?_⟩
  exact (hkey _ (hperm.mem_iff.mp ha) _ (hperm.mem_iff.mp hb)).le_iff.mp hab

theorem uniqueMethods_vote {sort : (Bytes → Bytes → ℤ) → List Bytes → List Bytes} (h : Sorts sort)
    (methods : List Bytes) :
    (∀ s ∈ smartlistUniq cmpIntStrings (sort cmpIntStrings methods), s ∈ methods) ∧
      ∀ k, ((smartlistUniq cmpIntStrings (sort cmpIntStrings methods)).countP
          fun s => decide (methodKey s = k)) =
        if (methods.any fun s => decide (methodKey s = k)) = true then 1 else 0 := by
  obtain ⟨hperm, hsorted⟩ := sorted_of_sorts h methods
  obtain ⟨hstrict, hsub, hall⟩ :=
    smartlistUniq_spec (cmpIntStrings_byKey (sort cmpIntStrings methods)) hsorted
  refine ⟨fun s hs => hperm.mem_iff.mp (hsub s hs), fun k => ?_⟩
  set kept := smartlistUniq cmpIntStrings (sort cmpIntStrings methods) with hkept
  have hcount : (kept.countP fun s => decide (methodKey s = k)) = (kept.map methodKey).count k := by
    rw [List.count, List.countP_map]
    refine List.countP_congr fun s _ => ?_
    simp
  have hnodup : (kept.map methodKey).Nodup := List.pairwise_map.mpr (hstrict.imp ne_of_lt)
  rw [hcount]
  split_ifs with hany
  · obtain ⟨s, hs, hk⟩ := List.any_eq_true.mp hany
    obtain ⟨b, hb, hsb⟩ := hall s (hperm.mem_iff.mpr hs)
    refine List.count_eq_one_of_mem hnodup (List.mem_map.mpr ⟨b, hb, ?_⟩)
    rw [← hsb]
    exact of_decide_eq_true hk
  · refine List.count_eq_zero_of_not_mem fun hmem => hany ?_
    obtain ⟨b, hb, rfl⟩ := List.mem_map.mp hmem
    exact List.any_eq_true.mpr ⟨b, hperm.mem_iff.mp (hsub b hb), by simp⟩

theorem uniqueMethods_spec (hsorts : ∀ i, Sorts (qsort i)) (i : ℕ) (votes : List (List Bytes)) :
    (∀ s ∈ uniqueMethods qsort i votes, s ∈ votes.flatten) ∧
      ∀ k, ((uniqueMethods qsort i votes).countP fun s => decide (methodKey s = k)) =
        nListingSome votes fun s => decide (methodKey s = k) := by
  induction votes generalizing i with
  | nil => exact ⟨fun s hs => hs, fun k => rfl⟩
  | cons methods votes ih =>
    obtain ⟨hmem, hcount⟩ := uniqueMethods_vote (hsorts i) methods
    obtain ⟨hmem', hcount'⟩ := ih (i + 1)
    unfold uniqueMethods
    constructor
    · intro s hs
      rw [List.flatten_cons, List.mem_append]
      exact (List.mem_append.mp hs).imp (hmem s) (hmem' s)
    · intro k
      rw [List.countP_append, hcount k, hcount' k]
      unfold nListingSome
      rw [List.countP_cons, Nat.add_comm]

theorem allMethods_spec (hsorts : ∀ i, Sorts (qsort i)) (votes : List (List Bytes)) :
    AllMethods votes (qsort votes.length cmpIntStrings (uniqueMethods qsort 0 votes)) := by
  obtain ⟨hmem, hcount⟩ := uniqueMethods_spec hsorts 0 votes
  obtain ⟨hperm, hsorted⟩ := sorted_of_sorts (hsorts votes.length) (uniqueMethods qsort 0 votes)
  exact ⟨hsorted, fun s hs => hmem s (hperm.mem_iff.mp hs),
    fun k => (hperm.countP_eq _).trans (hcount k)⟩

theorem exists_of_supported {m : ℤ} (h : Supported votes m) :
    ∃ s ∈ votes.flatten, denotes s = some m := by
  obtain ⟨methods, hmethods, hany⟩ := List.countP_pos_iff.mp (Nat.zero_lt_of_lt h)
  obtain ⟨s, hs, hm⟩ := List.any_eq_true.mp hany
  exact ⟨s, List.mem_flatten.mpr ⟨methods, hmethods, hs⟩, of_decide_eq_true hm⟩

theorem foldr_max_spec (l : List ℤ) : 1 ≤ l.foldr max 1 ∧ (∀ m ∈ l, m ≤ l.foldr max 1) ∧
    (l.foldr max 1 = 1 ∨ l.foldr max 1 ∈ l) := by
  induction l with
  | nil => simp
  | cons m l ih =>
    obtain ⟨hone, hle, hmem⟩ := ih
    refine ⟨hone.trans (le_max_right _ _), ?_, ?_⟩
    · exact List.forall_mem_cons.mpr
        ⟨le_max_left _ _, fun m' hm' => (hle m' hm').trans (le_max_right _ _)⟩
    · rw [List.foldr_cons, List.mem_cons]
      obtain hmax | hmax := max_choice m (l.foldr max 1)
      · exact .inr (.inl hmax)
      · rw [hmax]
        exact hmem.imp_right .inr

theorem highestMethod_spec (votes : List (List Bytes)) :
    1 ≤ highestMethod votes ∧ (∀ m, Supported votes m → m ≤ highestMethod votes) ∧
      (highestMethod votes = 1 ∨ Supported votes (highestMethod votes)) := by
  obtain ⟨hone, hle, hmem⟩ := foldr_max_spec
    ((votes.flatten.filterMap denotes).filter fun m => decide (Supported votes m))
  refine ⟨hone, fun m hm => hle m ?_, hmem.imp_right fun h => ?_⟩
  · obtain ⟨s, hs, hdenotes⟩ := exists_of_supported hm
    rw [List.mem_filter, List.mem_filterMap]
    exact ⟨⟨s, hs, hdenotes⟩, decide_eq_true hm⟩
  · exact of_decide_eq_true (List.mem_filter.mp h).2

/-! ### What is chosen -/

theorem nListingSome_congr {p q : Bytes → Bool} (h : ∀ s, p s = q s) :
    nListingSome votes p = nListingSome votes q := by
  rw [show p = q from funext h]

theorem nListingSome_key {s : Bytes} (hs : 1 ≤ methodValue s) :
    (nListingSome votes fun t => decide (methodKey t = methodKey s)) =
      nListingSome votes fun t => decide (denotes t = some (methodValue s)) := by
  refine nListingSome_congr fun t => decide_eq_decide.mpr ?_
  rw [denotes_eq_some_iff hs, methodKey_eq_iff]
  exact ⟨fun h => h.1, fun h => ⟨h, fun hzero => by omega⟩⟩

theorem nListingSome_key_zero {s : Bytes} (hs : methodValue s = 0) :
    (nListingSome votes fun t => decide (methodKey t = methodKey s)) =
      nListingSome votes fun t => decide (t = s) := by
  refine nListingSome_congr fun t => decide_eq_decide.mpr ?_
  rw [methodKey_eq_iff]
  exact ⟨fun h => h.2 (h.1.trans hs), fun h => h ▸ ⟨rfl, fun _ => rfl⟩⟩

theorem AllMethods.supported {methods : List Bytes} (h : AllMethods votes methods) {s : Bytes}
    (hs : s ∈ getFrequentMembers methods (votes.length * 2 / 3)) :
    (1 ≤ methodValue s → Supported votes (methodValue s)) ∧
      (methodValue s = 0 → SupportedNonInteger votes s) := by
  have hcount := (mem_getFrequentMembers hs).sublist.countP_le
    (p := fun t => decide (methodKey t = methodKey s))
  rw [h.counts, List.countP_replicate, if_pos (by simp)] at hcount
  constructor
  · intro hpos
    rw [nListingSome_key hpos] at hcount
    exact hcount
  · intro hzero
    rw [nListingSome_key_zero hzero] at hcount
    exact ⟨denotes_eq_none_iff.mpr hzero, hcount⟩

theorem AllMethods.found {methods : List Bytes} (h : AllMethods votes methods) {s : Bytes}
    (hclass : ∀ t ∈ methods, methodKey t = methodKey s → t = s)
    (hcount : votes.length * 2 / 3 <
      nListingSome votes fun t => decide (methodKey t = methodKey s)) :
    s ∈ getFrequentMembers methods (votes.length * 2 / 3) := by
  refine frequent_of_count h.sorted hclass ?_
  rw [← h.counts] at hcount
  refine hcount.trans_le (le_of_eq (List.countP_congr fun t ht => ?_))
  simp only [decide_eq_true_eq, beq_iff_eq]
  exact ⟨fun hkey => hclass t ht hkey, fun heq => heq ▸ rfl⟩

theorem AllMethods.found_nonInteger {methods : List Bytes} (h : AllMethods votes methods) {s : Bytes}
    (hs : SupportedNonInteger votes s) :
    s ∈ getFrequentMembers methods (votes.length * 2 / 3) := by
  have hzero := denotes_eq_none_iff.mp hs.1
  refine h.found (fun t _ hkey => ?_) ?_
  · obtain ⟨hvalue, hsame⟩ := methodKey_eq_iff.mp hkey
    exact hsame (hvalue.trans hzero)
  · rw [nListingSome_key_zero hzero]
    exact hs.2

theorem computeConsensusMethod_cases (hsorts : ∀ i, Sorts (qsort i)) (votes : List (List Bytes)) :
    let found := getFrequentMembers
      (qsort votes.length cmpIntStrings (uniqueMethods qsort 0 votes)) (votes.length * 2 / 3)
    (found = [] ∧ computeConsensusMethod qsort votes = 1) ∨
      ∃ best ∈ found, (∀ s ∈ found, methodValue s ≤ methodValue best) ∧
        computeConsensusMethod qsort votes = methodValue best := by
  intro found
  have hresult : computeConsensusMethod qsort votes =
      match found.getLast? with
      | some best => methodValue best
      | none => 1 := rfl
  rcases List.eq_nil_or_concat found with hnil | ⟨before, best, hlast⟩
  · left
    rw [hresult, hnil]
    exact ⟨rfl, rfl⟩
  · right
    have hsorted := (allMethods_spec hsorts votes).sorted.sublist
      (getFrequentMembers_sublist _ (votes.length * 2 / 3))
    change found.Pairwise _ at hsorted
    rw [hresult, hlast, List.concat_eq_append]
    rw [hlast, List.concat_eq_append, List.pairwise_append] at hsorted
    refine ⟨best, by simp, fun s hs => ?_, by simp⟩
    obtain hs | hs := List.mem_append.mp hs
    · exact methodValue_le_of_key_le (hsorted.2.2 s hs best List.mem_cons_self)
    · rw [List.mem_singleton.mp hs]

theorem two_le_countP {l : List Bytes} {p : Bytes → Bool} {s t : Bytes} (hs : s ∈ l) (ht : t ∈ l)
    (hne : s ≠ t) (hps : p s = true) (hpt : p t = true) : 2 ≤ l.countP p := by
  have hsub : [s, t].Subperm l := List.subperm_of_subset (by simpa using hne) (by simp [hs, ht])
  have hcount := hsub.countP_le p
  rwa [List.countP_cons_of_pos hps, List.countP_cons_of_pos hpt] at hcount

/-- The votes for the highest method spell it in one way, or it is the fallback and no string that
denotes no method is supported. -/
def CountedRight (votes : List (List Bytes)) : Prop :=
  (Supported votes (highestMethod votes) ∧ OneSpelling votes (highestMethod votes)) ∨
    (highestMethod votes = 1 ∧ ∀ s, ¬ SupportedNonInteger votes s)

theorem computeConsensusMethod_right (hsorts : ∀ i, Sorts (qsort i)) {votes : List (List Bytes)}
    (h : CountedRight votes) : computeConsensusMethod qsort votes = highestMethod votes := by
  obtain ⟨hone, hle, -⟩ := highestMethod_spec votes
  have hall := allMethods_spec hsorts votes
  have hcases := computeConsensusMethod_cases hsorts votes
  set methods := qsort votes.length cmpIntStrings (uniqueMethods qsort 0 votes) with hmethods
  have hatMost : ∀ s ∈ getFrequentMembers methods (votes.length * 2 / 3),
      methodValue s ≤ highestMethod votes := by
    intro s hs
    by_cases hpos : 1 ≤ methodValue s
    · exact hle _ ((hall.supported hs).1 hpos)
    · omega
  obtain ⟨hsupported, hspelling⟩ | ⟨hfallback, hnone⟩ := h
  · -- some string for the method is in the list, and there is no other for it
    obtain ⟨s, hs, hdenotes⟩ : ∃ s ∈ methods, methodValue s = highestMethod votes := by
      obtain ⟨s, -, hs⟩ := exists_of_supported hsupported
      have hvalue := (denotes_eq_some_iff hone).mp hs
      have hcount := hall.counts (methodKey s)
      rw [nListingSome_key (by omega), hvalue] at hcount
      obtain ⟨t, ht, hkey⟩ := List.countP_pos_iff.mp (hcount ▸ Nat.zero_lt_of_lt hsupported)
      exact ⟨t, ht, (methodKey_eq_iff.mp (of_decide_eq_true hkey)).1.trans hvalue⟩
    have hfound : s ∈ getFrequentMembers methods (votes.length * 2 / 3) := by
      refine hall.found (fun t ht hkey => ?_) ?_
      · obtain hfew | hsame := hspelling
        · by_contra hne
          have htwo := two_le_countP (p := fun u => decide (methodKey u = methodKey s)) ht hs hne
            (by simpa using hkey) (by simp)
          rw [hall.counts] at htwo
          exact absurd (htwo.trans (List.countP_le_length.trans hfew)) (by omega)
        · have hvalue := (methodKey_eq_iff.mp hkey).1.trans hdenotes
          exact hsame t (hall.mem t ht) s (hall.mem s hs) ((denotes_eq_some_iff hone).mpr hvalue)
            ((denotes_eq_some_iff hone).mpr hdenotes)
      · rw [nListingSome_key (by omega), hdenotes]
        exact hsupported
    obtain ⟨hnil, -⟩ | ⟨best, hbest, hmax, hresult⟩ := hcases
    · rw [hnil] at hfound
      cases hfound
    · rw [hresult]
      exact le_antisymm (hatMost best hbest) (hdenotes ▸ hmax s hfound)
  · obtain ⟨-, hresult⟩ | ⟨best, hbest, -, hresult⟩ := hcases
    · rw [hresult, hfallback]
    · have hnotZero : methodValue best ≠ 0 := fun hzero =>
        hnone best ((hall.supported hbest).2 hzero)
      have hnonneg := methodValue_nonneg best
      have hbound := hatMost best hbest
      omega

/-! ### Votes that spell a method in two ways -/

theorem exists_sort_with {l c : List Bytes} {k : List (List ℕ)}
    (hc : c.Perm (l.filter fun s => decide (methodKey s = k))) :
    ∃ sort, Sorts sort ∧ ∃ low high, sort cmpIntStrings l = low ++ c ++ high ∧
      (∀ s ∈ low, methodKey s < k) ∧ ∀ s ∈ high, k < methodKey s := by
  obtain ⟨hperm, hsorted⟩ := sorted_of_sorts sorts_sortBy l
  set base := sortBy cmpIntStrings l with hbase
  set low := base.filter fun s => decide (methodKey s < k) with hlow
  set high := base.filter fun s => decide (k < methodKey s) with hhigh
  have hlowKey : ∀ s ∈ low, methodKey s < k := fun s hs =>
    of_decide_eq_true (List.mem_filter.mp hs).2
  have hhighKey : ∀ s ∈ high, k < methodKey s := fun s hs =>
    of_decide_eq_true (List.mem_filter.mp hs).2
  have hcKey : ∀ s ∈ c, methodKey s = k := fun s hs =>
    of_decide_eq_true (List.mem_filter.mp (hc.mem_iff.mp hs)).2
  have hcount : ∀ (p : Bytes → Bool) s, (base.filter p).count s =
      if p s = true then base.count s else 0 := by
    intro p s
    split_ifs with hp
    · exact List.count_filter hp
    · exact List.count_eq_zero_of_not_mem fun hmem => hp (List.mem_filter.mp hmem).2
  have hperm' : (low ++ c ++ high).Perm l := by
    refine (List.perm_iff_count.mpr fun s => ?_).trans hperm
    rw [List.count_append, List.count_append, (hc.trans (hperm.symm.filter _)).count_eq, hlow,
      hhigh, hcount, hcount, hcount]
    -- each string is in one of the three parts
    simp only [decide_eq_true_eq]
    rcases lt_trichotomy (methodKey s) k with hlt | heq | hgt
    · simp [hlt, hlt.ne, hlt.not_gt]
    · simp [heq]
    · simp [hgt, hgt.ne', hgt.not_gt]
  have hsorted' : (low ++ c ++ high).Pairwise fun a b => methodKey a ≤ methodKey b := by
    rw [List.append_assoc, List.pairwise_append, List.pairwise_append]
    refine ⟨hsorted.sublist List.filter_sublist, ⟨?_, hsorted.sublist List.filter_sublist, ?_⟩, ?_⟩
    · exact List.pairwise_of_forall_mem_list fun a ha b hb => by rw [hcKey a ha, hcKey b hb]
    · exact fun a ha b hb => (hcKey a ha).trans_le (hhighKey b hb).le
    · intro a ha b hb
      obtain hb | hb := List.mem_append.mp hb
      · exact (hcKey b hb).symm ▸ (hlowKey a ha).le
      · exact ((hlowKey a ha).trans (hhighKey b hb)).le
  have hcmp : (low ++ c ++ high).Pairwise fun a b => cmpIntStrings a b ≤ 0 :=
    hsorted'.imp fun hab => (cmpIntStrings_agrees _ _).le_iff.mpr hab
  obtain ⟨sort, hsort, hresult⟩ := sorts_sortBy.replace hperm' hcmp
  exact ⟨sort, hsort, low, high, hresult, hlowKey, hhighKey⟩

theorem mem_uniqFrom {kept s : Bytes} {low high : List Bytes} (hkept : methodKey kept < methodKey s)
    (hlow : ∀ t ∈ low, methodKey t < methodKey s) :
    s ∈ uniqFrom cmpIntStrings kept (low ++ s :: high) := by
  induction low generalizing kept with
  | nil =>
    rw [List.nil_append, uniqFrom, if_neg fun h => hkept.ne ((cmpIntStrings_agrees _ _).zero_iff.mp h)]
    exact List.mem_cons_self
  | cons a low ih =>
    have hlow' : ∀ t ∈ low, methodKey t < methodKey s := fun t ht =>
      hlow t (List.mem_cons_of_mem a ht)
    rw [List.cons_append, uniqFrom]
    split_ifs
    · exact ih hkept hlow'
    · exact List.mem_cons_of_mem a (ih (hlow a List.mem_cons_self) hlow')

theorem mem_smartlistUniq {s : Bytes} {low high : List Bytes}
    (hlow : ∀ t ∈ low, methodKey t < methodKey s) :
    s ∈ smartlistUniq cmpIntStrings (low ++ s :: high) := by
  cases low with
  | nil => exact List.mem_cons_self
  | cons a low =>
    exact List.mem_cons_of_mem a (mem_uniqFrom (hlow a List.mem_cons_self) fun t ht =>
      hlow t (List.mem_cons_of_mem a ht))

theorem exists_sort_keeping {methods : List Bytes} {s : Bytes} (hs : s ∈ methods) :
    ∃ sort, Sorts sort ∧ s ∈ smartlistUniq cmpIntStrings (sort cmpIntStrings methods) := by
  set same := methods.filter fun t => decide (methodKey t = methodKey s) with hsame
  have hmem : s ∈ same := List.mem_filter.mpr ⟨hs, by simp⟩
  obtain ⟨sort, hsort, low, high, hresult, hlow, -⟩ :=
    exists_sort_with (k := methodKey s) (List.perm_cons_erase hmem).symm
  refine ⟨sort, hsort, ?_⟩
  rw [hresult, List.append_assoc, List.cons_append]
  exact mem_smartlistUniq hlow

theorem replicate_infix_split {n : ℕ} {s u : Bytes} {l r : List Bytes} (hne : s ≠ u)
    (h : List.replicate n s <:+: l ++ u :: r) : n ≤ l.count s ∨ n ≤ r.count s := by
  obtain ⟨before, behind, heq⟩ := h
  rw [List.append_assoc] at heq
  have hgroup : ∀ {m : List Bytes}, List.replicate n s ++ behind = m ++ u :: r →
      n ≤ m.count s := by
    intro m hm
    rcases List.append_eq_append_iff.mp hm with ⟨d, rfl, -⟩ | ⟨d, hd, hrest⟩
    · simp
    · cases d with
      | nil =>
        rw [List.append_nil] at hd
        simp [← hd]
      | cons x d =>
        obtain ⟨rfl, -⟩ := List.cons.inj hrest
        have hu : u ∈ List.replicate n s := by simp [hd]
        exact absurd (List.eq_of_mem_replicate hu).symm hne
  rcases List.append_eq_append_iff.mp heq with ⟨d, rfl, hd⟩ | ⟨d, rfl, hd⟩
  · left
    rw [List.count_append]
    exact (hgroup hd).trans (Nat.le_add_left _ _)
  · cases d with
    | nil =>
      left
      have hnil := hgroup (m := []) hd.symm
      exact hnil.trans (Nat.zero_le _)
    | cons x d =>
      right
      rw [List.cons_append] at hd
      obtain ⟨-, rfl⟩ := List.cons.inj hd
      rw [List.count_append, List.count_append, List.count_replicate_self]
      omega

theorem exists_split_order {c : List Bytes} {u : Bytes} (hu : u ∈ c)
    (hfew : 2 * c.count u ≤ c.length) :
    ∃ l r, (l ++ u :: r).Perm c ∧ 2 * l.length ≤ c.length ∧ 2 * r.length ≤ c.length := by
  have hlen := List.length_erase_of_mem hu
  have hpos := List.length_pos_of_mem hu
  refine ⟨(c.erase u).take ((c.length - 1) / 2), (c.erase u).drop ((c.length - 1) / 2), ?_, ?_, ?_⟩
  · refine List.perm_middle.trans ?_
    rw [List.take_append_drop]
    exact (List.perm_cons_erase hu).symm
  · rw [List.length_take]
    omega
  · rw [List.length_drop]
    omega

theorem uniqueMethods_congr {qsort qsort' : ℕ → (Bytes → Bytes → ℤ) → List Bytes → List Bytes}
    {i n : ℕ} {votes : List (List Bytes)} (hn : i + votes.length = n)
    (h : ∀ j < n, qsort j = qsort' j) : uniqueMethods qsort i votes = uniqueMethods qsort' i votes := by
  induction votes generalizing i with
  | nil => rfl
  | cons methods votes ih =>
    rw [List.length_cons] at hn
    rw [uniqueMethods, uniqueMethods, h i (by omega), ih (by omega)]

theorem mem_uniqueMethods {i j : ℕ} {votes : List (List Bytes)} {methods : List Bytes} {s : Bytes}
    (hvote : votes[j]? = some methods)
    (hs : s ∈ smartlistUniq cmpIntStrings (qsort (i + j) cmpIntStrings methods)) :
    s ∈ uniqueMethods qsort i votes := by
  induction votes generalizing i j with
  | nil => simp at hvote
  | cons first votes ih =>
    rw [uniqueMethods, List.mem_append]
    cases j with
    | zero =>
      obtain rfl := Option.some.inj hvote
      exact .inl hs
    | succ j =>
      right
      refine ih (j := j) hvote ?_
      rwa [Nat.add_right_comm]

theorem exists_other {p : List Bytes → Bool} (h : 2 ≤ votes.countP p) (i : ℕ) :
    ∃ j methods, j ≠ i ∧ votes[j]? = some methods ∧ p methods = true := by
  have hpos : 0 < (votes.eraseIdx i).countP p := by
    by_cases hi : i < votes.length
    · have hperm := (List.getElem_cons_eraseIdx_perm hi).countP_eq p
      rw [List.countP_cons] at hperm
      split_ifs at hperm <;> omega
    · rw [List.eraseIdx_of_length_le (by omega)]
      omega
  obtain ⟨methods, hmem, hp⟩ := List.countP_pos_iff.mp hpos
  obtain ⟨j, hj, hvote⟩ := List.mem_eraseIdx_iff_getElem?.mp hmem
  exact ⟨j, methods, hj, hvote, hp⟩

theorem exists_two_votes {m : ℤ} (hsupported : Supported votes m) (h : ¬ OneSpelling votes m) :
    ∃ (i j : ℕ) (u v : List Bytes) (s t : Bytes), i ≠ j ∧ votes[i]? = some u ∧ votes[j]? = some v ∧ s ∈ u ∧ t ∈ v ∧ s ≠ t ∧
      denotes s = some m ∧ denotes t = some m := by
  simp only [OneSpelling, not_or, not_le, not_forall] at h
  obtain ⟨hmany, s, hs, t, ht, hsm, htm, hne⟩ := h
  obtain ⟨u, hu, hsu⟩ := List.mem_flatten.mp hs
  obtain ⟨v, hv, htv⟩ := List.mem_flatten.mp ht
  obtain ⟨i, hi⟩ := List.mem_iff_getElem?.mp hu
  obtain ⟨j, hj⟩ := List.mem_iff_getElem?.mp hv
  by_cases hij : i = j
  · -- both are in one vote, and another lists the method as well
    subst hij
    obtain rfl := Option.some.inj (hi.symm.trans hj)
    have htwo : 2 ≤ nListingSome votes fun s => decide (denotes s = some m) := by
      unfold Supported at hsupported
      omega
    obtain ⟨k, w, hk, hw, hany⟩ := exists_other htwo i
    obtain ⟨x, hx, hxm⟩ := List.any_eq_true.mp hany
    by_cases hxs : x = s
    · exact ⟨k, i, w, u, x, t, hk, hw, hi, hx, htv, hxs ▸ hne, of_decide_eq_true hxm, htm⟩
    · exact ⟨k, i, w, u, x, s, hk, hw, hi, hx, hsu, hxs, of_decide_eq_true hxm, hsm⟩
  · exact ⟨i, j, u, v, s, t, hij, hi, hj, hsu, htv, hne, hsm, htm⟩

theorem count_add_count_le {s t : Bytes} (hne : s ≠ t) (l : List Bytes) :
    l.count s + l.count t ≤ l.length := by
  induction l with
  | nil => exact le_rfl
  | cons x l ih =>
    rw [List.count_cons, List.count_cons, List.length_cons]
    by_cases hx : x = s
    · subst hx
      simp only [beq_self_eq_true, if_true, beq_iff_eq, hne, if_false]
      omega
    · simp only [beq_iff_eq, hx, if_false]
      split_ifs <;> omega

theorem exists_not_found {m : ℤ} (hsupported : Supported votes m) (h : ¬ OneSpelling votes m) :
    ∃ qsort : ℕ → (Bytes → Bytes → ℤ) → List Bytes → List Bytes, (∀ i, Sorts (qsort i)) ∧
      ∀ s ∈ getFrequentMembers (qsort votes.length cmpIntStrings (uniqueMethods qsort 0 votes))
        (votes.length * 2 / 3), methodValue s ≠ m := by
  obtain ⟨i, j, u, v, s, t, hij, hi, hj, hsu, htv, hne, hsm, htm⟩ := exists_two_votes hsupported h
  obtain ⟨sortS, hsortS, hkeepS⟩ := exists_sort_keeping hsu
  obtain ⟨sortT, hsortT, hkeepT⟩ := exists_sort_keeping htv
  have hm := denotes_pos hsm
  have hsv := (denotes_eq_some_iff hm).mp hsm
  have htv' := (denotes_eq_some_iff hm).mp htm
  have hkey : methodKey t = methodKey s :=
    methodKey_eq_iff.mpr ⟨htv'.trans hsv.symm, fun hzero => by omega⟩
  let qsort : ℕ → (Bytes → Bytes → ℤ) → List Bytes → List Bytes := fun k =>
    if k = i then sortS else if k = j then sortT else sortBy
  have hsorts : ∀ k, Sorts (qsort k) := by
    intro k
    dsimp only [qsort]
    split_ifs
    · exact hsortS
    · exact hsortT
    · exact sorts_sortBy
  have hs : s ∈ uniqueMethods qsort 0 votes :=
    mem_uniqueMethods hi (by simpa [qsort] using hkeepS)
  have ht : t ∈ uniqueMethods qsort 0 votes :=
    mem_uniqueMethods hj (by simpa [qsort, hij.symm] using hkeepT)
  set methods := uniqueMethods qsort 0 votes with hmethods
  set same := methods.filter fun x => decide (methodKey x = methodKey s) with hsame
  have hsmem : s ∈ same := List.mem_filter.mpr ⟨hs, by simp⟩
  have htmem : t ∈ same := List.mem_filter.mpr ⟨ht, by simpa using hkey⟩
  have hlength : same.length ≤ votes.length := by
    rw [hsame, ← List.countP_eq_length_filter, (uniqueMethods_spec hsorts 0 votes).2]
    exact List.countP_le_length
  -- one of the two is not more than half
  obtain ⟨x, hx, hfew⟩ : ∃ x ∈ same, 2 * same.count x ≤ same.length := by
    have hboth := count_add_count_le hne same
    by_cases hhalf : 2 * same.count s ≤ same.length
    · exact ⟨s, hsmem, hhalf⟩
    · exact ⟨t, htmem, by omega⟩
  obtain ⟨l, r, hperm, hl, hr⟩ := exists_split_order hx hfew
  obtain ⟨sort, hsort, low, high, hresult, hlow, hhigh⟩ := exists_sort_with hperm
  refine ⟨Function.update qsort votes.length sort, fun k => ?_, ?_⟩
  · by_cases hk : k = votes.length
    · subst hk
      rwa [Function.update_self]
    · rw [Function.update_of_ne hk]
      exact hsorts k
  · have hcongr : uniqueMethods (Function.update qsort votes.length sort) 0 votes = methods :=
      uniqueMethods_congr (Nat.zero_add _) fun k hk => Function.update_of_ne (by omega) _ _
    rw [hcongr, Function.update_self, hresult]
    intro y hy hvalue
    have hinfix := mem_getFrequentMembers hy
    have hykey : methodKey y = methodKey s :=
      methodKey_eq_iff.mpr ⟨hvalue.trans hsv.symm, fun hzero => by omega⟩
    have hlowCount : low.count y = 0 :=
      List.count_eq_zero_of_not_mem fun hmem => (hlow y hmem).ne hykey
    have hhighCount : high.count y = 0 :=
      List.count_eq_zero_of_not_mem fun hmem => (hhigh y hmem).ne' hykey
    by_cases hyx : y = x
    · subst hyx
      have hcount := hinfix.sublist.count_le y
      rw [List.count_replicate_self, List.count_append, List.count_append, hlowCount, hhighCount,
        hperm.count_eq] at hcount
      omega
    · rw [show low ++ (l ++ x :: r) ++ high = (low ++ l) ++ x :: (r ++ high) by simp] at hinfix
      have hsplit := replicate_infix_split hyx hinfix
      rw [List.count_append, List.count_append, hlowCount, hhighCount] at hsplit
      have hlcount := List.count_le_length (a := y) (l := l)
      have hrcount := List.count_le_length (a := y) (l := r)
      omega

def twoSpellings : List (List Bytes) :=
  [[Bytes.ascii "7"], [Bytes.ascii "7"], [Bytes.ascii "07"]]

/-- All three votes list method 7, and method 1 is chosen, whatever `qsort` does. -/
theorem method_seven_missed :
    highestMethod twoSpellings = 7 ∧
      ∀ qsort : ℕ → (Bytes → Bytes → ℤ) → List Bytes → List Bytes, (∀ i, Sorts (qsort i)) →
        computeConsensusMethod qsort twoSpellings = 1 := by
  refine ⟨by decide, fun qsort hsorts => ?_⟩
  have hsingle : ∀ i s, qsort i cmpIntStrings [s] = [s] := fun i s =>
    List.perm_singleton.mp (sorted_of_sorts (hsorts i) [s]).1
  have hunique : uniqueMethods qsort 0 twoSpellings =
      [Bytes.ascii "7", Bytes.ascii "7", Bytes.ascii "07"] := by
    simp [twoSpellings, uniqueMethods, hsingle, smartlistUniq, uniqFrom]
  obtain ⟨-, hresult⟩ | ⟨best, hbest, -⟩ := computeConsensusMethod_cases hsorts twoSpellings
  · exact hresult
  · -- no string is there three times
    have hcount := (mem_getFrequentMembers hbest).sublist.count_le best
    rw [(sorted_of_sorts (hsorts _) _).1.count_eq, hunique, List.count_replicate_self] at hcount
    exfalso
    by_cases hseven : best = Bytes.ascii "7"
    · rw [hseven] at hcount
      exact absurd hcount (by decide)
    · have hfew : List.count best [Bytes.ascii "7", Bytes.ascii "7", Bytes.ascii "07"] ≤ 1 := by
        rw [List.count_cons_of_ne (Ne.symm hseven), List.count_cons_of_ne (Ne.symm hseven)]
        exact List.count_le_length
      have hthree := hcount.trans hfew
      exact absurd hthree (by decide)

/-- Whatever order `qsort` leaves equal elements in, the method that is chosen is the highest that is
supported, or 1 if none is, exactly when it is counted right. -/
theorem computeConsensusMethod_iff (votes : List (List Bytes)) :
    (∀ qsort : ℕ → (Bytes → Bytes → ℤ) → List Bytes → List Bytes, (∀ i, Sorts (qsort i)) →
      computeConsensusMethod qsort votes = highestMethod votes) ↔ CountedRight votes := by
  constructor
  · intro hright
    obtain ⟨hone, hle, hchosen⟩ := highestMethod_spec votes
    by_contra hwrong
    simp only [CountedRight, not_or, not_and, not_forall, not_not] at hwrong
    obtain ⟨hspelling, hfallback⟩ := hwrong
    by_cases hsupported : Supported votes (highestMethod votes)
    · obtain ⟨qsort, hsorts, hnone⟩ := exists_not_found hsupported (hspelling hsupported)
      have hresult := hright qsort hsorts
      obtain ⟨hnil, hone'⟩ | ⟨best, hbest, -, hbest'⟩ := computeConsensusMethod_cases hsorts votes
      · -- the fallback would be right, but a string that denotes no method is found
        obtain ⟨s, hs⟩ := hfallback (hresult.symm.trans hone')
        have hfound := (allMethods_spec hsorts votes).found_nonInteger hs
        rw [hnil] at hfound
        cases hfound
      · exact hnone best hbest (hbest'.symm.trans hresult)
    · -- nothing but strings that denote no method is found
      have hvalue := hchosen.resolve_right hsupported
      obtain ⟨s, hs⟩ := hfallback hvalue
      have hsorts : ∀ i : ℕ, Sorts ((fun _ => sortBy) i : (Bytes → Bytes → ℤ) → _) := fun _ =>
        sorts_sortBy
      have hall := allMethods_spec hsorts votes
      have hresult := hright (fun _ => sortBy) hsorts
      obtain ⟨hnil, -⟩ | ⟨best, hbest, -, hbest'⟩ := computeConsensusMethod_cases hsorts votes
      · have hfound := hall.found_nonInteger hs
        rw [hnil] at hfound
        cases hfound
      · have hbestOne : methodValue best = highestMethod votes := hbest'.symm.trans hresult
        have hbestSupported := (hall.supported hbest).1 (by omega)
        rw [hbestOne] at hbestSupported
        exact hsupported hbestSupported
  · intro h qsort hsorts
    exact computeConsensusMethod_right hsorts h

end Dirvote
