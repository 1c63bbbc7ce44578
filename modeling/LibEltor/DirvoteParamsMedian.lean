/-
What the consensus says about network parameters (`dirvote_compute_params`).

The parameters of all votes are sorted as strings, and each series of strings with one keyword gives
an entry.  A keyword ends at its `=`, so that strings with one keyword stand together, also where
another keyword goes on with a character before or behind the sign.
-/
import Mathlib
import LibEltor.Consdiff
import LibEltor.DirvoteParams

open OrderStatistic

namespace Dirvote

/-! ### What is to be written -/

/-- `"%ld"` -/
def decimalInt (v : ℤ) : Bytes :=
  if v < 0 then 45 :: Consdiff.decimal v.natAbs else Consdiff.decimal v.natAbs

/-- The string that is written for what stands up to the sign and a value. -/
def paramEntry (p : Bytes × ℤ) : Bytes := p.1 ++ decimalInt p.2

def valuesFor (params : List Bytes) (k : Bytes) : List ℤ :=
  params.filterMap fun p =>
    if keyword p = k then torParseLong (integerStr p) int32Min int32Max else none

def nListing (votes : List (List Bytes)) (k : Bytes) : ℕ :=
  votes.countP fun l => l.any fun p => decide (keyword p = k)

def EnoughVotes (total n : ℕ) : Prop := total < 2 * n ∨ minVotesForParam ≤ n

/-- Fewer than half are below `v`, and at least half are not above it. -/
structure IsLowMedian (v : ℤ) (vals : List ℤ) : Prop where
  mem : v ∈ vals
  below : 2 * (vals.countP fun x => decide (x < v)) < vals.length
  atMost : vals.length ≤ 2 * vals.countP fun x => decide (x ≤ v)

theorem isLowMedian_median {vals : List ℤ} (hne : vals ≠ []) : IsLowMedian (median vals) vals where
  mem := median_mem hne
  below := by
    have hnot : ¬ median vals ≤ median vals - 1 := by omega
    rw [median_le_iff hne] at hnot
    have hcount : (vals.countP fun x => decide (x < median vals)) =
        vals.countP fun x => decide (x ≤ median vals - 1) := by
      refine List.countP_congr fun x _ => ?_
      simp only [decide_eq_true_eq]
      omega
    omega
  atMost := (median_le_iff hne _).mp le_rfl

theorem IsLowMedian.le {v w : ℤ} {vals : List ℤ} (h : IsLowMedian v vals) (h' : IsLowMedian w vals) :
    w ≤ v := by
  by_contra hlt
  have hmono : (vals.countP fun x => decide (x ≤ v)) ≤ vals.countP fun x => decide (x < w) := by
    refine List.countP_mono_left fun x _ hx => ?_
    simp only [decide_eq_true_eq] at hx ⊢
    omega
  have hhalf := h.atMost
  have hbelow := h'.below
  omega

theorem isLowMedian_iff {v : ℤ} {vals : List ℤ} (hne : vals ≠ []) :
    IsLowMedian v vals ↔ v = median vals := by
  constructor
  · intro h
    exact le_antisymm ((isLowMedian_median hne).le h) (h.le (isLowMedian_median hne))
  · rintro rfl
    exact isLowMedian_median hne

theorem IsLowMedian.perm {v : ℤ} {vals vals' : List ℤ} (hperm : vals.Perm vals')
    (h : IsLowMedian v vals) : IsLowMedian v vals' where
  mem := hperm.mem_iff.mp h.mem
  below := by
    rw [← hperm.countP_eq, ← hperm.length_eq]
    exact h.below
  atMost := by
    rw [← hperm.countP_eq, ← hperm.length_eq]
    exact h.atMost

theorem append_lt_append_of_begins {p q a b : Bytes} (hp : p <+: a) (hq : q <+: b) (hpq : ¬ p <+: q)
    (hqp : ¬ q <+: p) (hlt : a < b) (s t : Bytes) : p ++ s < q ++ t := by
  induction p generalizing q a b with
  | nil => exact absurd List.nil_prefix hpq
  | cons x p ih =>
    cases q with
    | nil => exact absurd List.nil_prefix hqp
    | cons y q =>
      obtain ⟨a', rfl⟩ := hp
      obtain ⟨b', rfl⟩ := hq
      rw [List.cons_append, List.cons_append, List.cons_lt_cons_iff] at hlt
      rw [List.cons_append, List.cons_append, List.cons_lt_cons_iff]
      obtain hxy | ⟨rfl, hrest⟩ := hlt
      · exact .inl hxy
      · refine .inr ⟨rfl, ih (List.prefix_append p a') (List.prefix_append q b') ?_ ?_ hrest⟩
        · exact fun h => hpq (List.cons_prefix_cons.mpr ⟨rfl, h⟩)
        · exact fun h => hqp (List.cons_prefix_cons.mpr ⟨rfl, h⟩)

theorem eq_of_keyword_begins {k k' : Bytes} (hk : 61 ∉ k) (hk' : 61 ∉ k')
    (h : k ++ [61] <+: k' ++ [61]) : k = k' := by
  have hkey := keyword_of_begins hk h
  rwa [keyword_append hk', eq_comm] at hkey

theorem entry_lt {a b : Bytes} (ha : 61 ∈ a) (hb : 61 ∈ b) (hne : keyword a ≠ keyword b) (hle : a ≤ b)
    (s t : Bytes) : (keyword a ++ [61]) ++ s < (keyword b ++ [61]) ++ t := by
  have hlt : a < b := (List.le_iff_lt_or_eq.mp hle).resolve_right fun h => hne (congrArg keyword h)
  refine append_lt_append_of_begins (keyword_begins ha) (keyword_begins hb) ?_ ?_ hlt s t
  · exact fun h => hne (eq_of_keyword_begins (notMem_keyword a) (notMem_keyword b) h)
  · exact fun h => hne (eq_of_keyword_begins (notMem_keyword b) (notMem_keyword a) h).symm

theorem keyword_eq_of_between {a b c : Bytes} (ha : 61 ∈ a) (hc : 61 ∈ c) (hab : a ≤ b) (hbc : b ≤ c)
    (hkey : keyword c = keyword a) : keyword b = keyword a := by
  obtain hab | rfl := List.le_iff_lt_or_eq.mp hab
  · obtain hbc | rfl := List.le_iff_lt_or_eq.mp hbc
    · have hend := keyword_begins hc
      rw [hkey] at hend
      exact keyword_of_begins (notMem_keyword a)
        (prefix_of_between (keyword_begins ha) hend hab hbc)
    · exact hkey
  · rfl

theorem take_keyword {param : Bytes} (h : 61 ∈ param) :
    param.take ((keyword param).length + 1) = keyword param ++ [61] := by
  have hbegins := List.prefix_iff_eq_take.mp (keyword_begins h)
  rw [List.length_append, List.length_singleton] at hbegins
  exact hbegins.symm

def EntryOf (total : ℕ) (k : Bytes) (vals : List ℤ) (start : Bytes) (v : ℤ) : Prop :=
  start = k ++ [61] ∧ EnoughVotes total vals.length ∧ v = median vals

theorem mem_paramOutput {total : ℕ} {param : Bytes} {vals : List ℤ} (hparam : 61 ∈ param)
    (start : Bytes) (v : ℤ) :
    (start, v) ∈ paramOutput total ((keyword param).length + 1) param vals ↔
      EntryOf total (keyword param) vals start v := by
  have henough : (vals.length > total / 2 ∨ vals.length ≥ minVotesForParam) ↔
      EnoughVotes total vals.length := by
    simp only [EnoughVotes]
    omega
  unfold paramOutput
  rw [take_keyword hparam]
  by_cases h : EnoughVotes total vals.length
  · rw [if_pos (henough.mpr h)]
    simp [EntryOf, h]
  · rw [if_neg (fun h' => h (henough.mp h'))]
    simp [EntryOf, h]

theorem valuesFor_cons_self {param : Bytes} {val : ℤ} (rest : List Bytes)
    (hval : torParseLong (integerStr param) int32Min int32Max = some val) :
    valuesFor (param :: rest) (keyword param) = val :: valuesFor rest (keyword param) := by
  simp [valuesFor, hval]

theorem valuesFor_cons_of_ne {param k : Bytes} (rest : List Bytes) (hne : keyword param ≠ k) :
    valuesFor (param :: rest) k = valuesFor rest k := by
  simp [valuesFor, hne]

theorem valuesFor_eq_nil {params : List Bytes} {k : Bytes} (h : k ∉ params.map keyword) :
    valuesFor params k = [] := by
  rw [valuesFor, List.filterMap_eq_nil_iff]
  intro p hp
  have hne : keyword p ≠ k := by
    rintro rfl
    exact h (List.mem_map_of_mem hp)
  rw [if_neg hne]

theorem paramsLoop_spec {nVotes total : ℕ} {rest : List Bytes} {param : Bytes} {vals : List ℤ}
    {output : List (Bytes × ℤ)} (hok : ∀ p ∈ param :: rest, paramOk p = true)
    (hsorted : (param :: rest).Pairwise (· ≤ ·))
    (hloop : paramsLoop nVotes total ((keyword param).length + 1) vals (param :: rest) =
      some output) :
    (output.map paramEntry).Pairwise (· < ·) ∧
      ∀ start v, (start, v) ∈ output ↔ ∃ k ∈ (param :: rest).map keyword,
        EntryOf total k ((if k = keyword param then vals else []) ++ valuesFor (param :: rest) k)
          start v := by
  induction rest generalizing param vals output with
  | nil =>
    have hparam := mem_of_paramOk (hok param List.mem_cons_self)
    obtain ⟨val, hval⟩ :=
      Option.isSome_iff_exists.mp (isSome_of_paramOk (hok param List.mem_cons_self))
    rw [paramsLoop] at hloop
    split_ifs at hloop
    rw [hval] at hloop
    obtain rfl := Option.some.inj hloop
    constructor
    · unfold paramOutput
      split_ifs <;> simp
    · intro start v
      rw [mem_paramOutput hparam]
      have hvalues : valuesFor [param] (keyword param) = [val] := valuesFor_cons_self [] hval
      simp [hvalues]
  | cons nextParam rest ih =>
    have hparam := mem_of_paramOk (hok param List.mem_cons_self)
    have hok' : ∀ p ∈ nextParam :: rest, paramOk p = true :=
      fun p hp => hok p (List.mem_cons_of_mem param hp)
    obtain ⟨hle, hsorted'⟩ := List.pairwise_cons.mp hsorted
    obtain ⟨val, hval⟩ :=
      Option.isSome_iff_exists.mp (isSome_of_paramOk (hok param List.mem_cons_self))
    rw [paramsLoop] at hloop
    split_ifs at hloop
    rw [hval] at hloop
    simp only [Option.bind_eq_bind, Option.bind_some] at hloop
    split_ifs at hloop with htake
    · -- the series ends here, and its keyword does not come again
      obtain ⟨output', hrest, hout⟩ := Option.bind_eq_some_iff.mp hloop
      obtain rfl := Option.some.inj hout
      obtain ⟨hordered, hmem⟩ := ih hok' hsorted' hrest
      have hnext : keyword nextParam ≠ keyword param := by
        intro hkey
        have hnextTake := take_keyword (mem_of_paramOk (hok' nextParam List.mem_cons_self))
        rw [hkey] at hnextTake
        exact htake (hnextTake.trans (take_keyword hparam).symm)
      have hgone : keyword param ∉ (nextParam :: rest).map keyword := by
        intro hmem'
        obtain ⟨p, hp, hkey⟩ := List.mem_map.mp hmem'
        have hnextle : nextParam ≤ p := by
          obtain rfl | hp := List.mem_cons.mp hp
          · exact List.le_refl _
          · exact (List.pairwise_cons.mp hsorted').1 p hp
        exact hnext (keyword_eq_of_between hparam (mem_of_paramOk (hok' p hp))
          (hle nextParam List.mem_cons_self) hnextle hkey)
      constructor
      · rw [List.map_append, List.pairwise_append]
        refine ⟨?_, hordered, ?_⟩
        · unfold paramOutput
          split_ifs <;> simp
        · intro x hx y hy
          obtain ⟨⟨start, v⟩, hxmem, rfl⟩ := List.mem_map.mp hx
          obtain ⟨⟨start', v'⟩, hymem, rfl⟩ := List.mem_map.mp hy
          obtain ⟨rfl, -⟩ := (mem_paramOutput hparam start v).mp hxmem
          obtain ⟨k, hk, rfl, -⟩ := (hmem start' v').mp hymem
          obtain ⟨p, hp, rfl⟩ := List.mem_map.mp hk
          exact entry_lt hparam (mem_of_paramOk (hok' p hp))
            (fun hkey => hgone (hkey ▸ hk)) (hle p hp) _ _
      · intro start v
        rw [List.mem_append, mem_paramOutput hparam, hmem, List.map_cons (a := param)]
        constructor
        · rintro (hentry | ⟨k, hk, hentry⟩)
          · refine ⟨keyword param, List.mem_cons_self, ?_⟩
            rwa [if_pos rfl, valuesFor_cons_self _ hval, valuesFor_eq_nil hgone]
          · refine ⟨k, List.mem_cons_of_mem _ hk, ?_⟩
            have hne : keyword param ≠ k := fun hkey => hgone (hkey ▸ hk)
            rw [if_neg (Ne.symm hne), valuesFor_cons_of_ne _ hne, List.nil_append]
            simpa using hentry
        · rintro ⟨k, hk, hentry⟩
          obtain rfl | hk := List.mem_cons.mp hk
          · rw [if_pos rfl, valuesFor_cons_self _ hval, valuesFor_eq_nil hgone] at hentry
            exact .inl hentry
          · have hne : keyword param ≠ k := fun hkey => hgone (hkey ▸ hk)
            rw [if_neg (Ne.symm hne), valuesFor_cons_of_ne _ hne, List.nil_append] at hentry
            exact .inr ⟨k, hk, by simpa using hentry⟩
    · have hkey := keyword_eq_of_take hparam (not_not.mp htake)
      rw [← hkey] at hloop
      obtain ⟨hordered, hmem⟩ := ih hok' hsorted' hloop
      refine ⟨hordered, fun start v => ?_⟩
      rw [hmem]
      have hvals : ∀ k, (if k = keyword nextParam then vals ++ [val] else []) ++
            valuesFor (nextParam :: rest) k =
          (if k = keyword param then vals else []) ++ valuesFor (param :: nextParam :: rest) k := by
        intro k
        by_cases hk : k = keyword param
        · rw [hkey, if_pos hk, if_pos hk, hk, valuesFor_cons_self _ hval, List.append_assoc]
          rfl
        · rw [hkey, if_neg hk, if_neg hk, valuesFor_cons_of_ne _ (Ne.symm hk)]
      have hkeys : ∀ k, k ∈ (nextParam :: rest).map keyword ↔
          k ∈ (param :: nextParam :: rest).map keyword := by
        intro k
        simp [hkey]
      exact exists_congr fun k => by rw [hkeys, hvals]

theorem valuesFor_length {params : List Bytes} (hok : ∀ p ∈ params, paramOk p = true) (k : Bytes) :
    (valuesFor params k).length = params.countP fun p => decide (keyword p = k) := by
  induction params with
  | nil => rfl
  | cons param params ih =>
    have hrest := ih fun p hp => hok p (List.mem_cons_of_mem param hp)
    obtain ⟨val, hval⟩ :=
      Option.isSome_iff_exists.mp (isSome_of_paramOk (hok param List.mem_cons_self))
    by_cases hk : keyword param = k
    · subst hk
      rw [valuesFor_cons_self _ hval, List.length_cons, hrest, List.countP_cons_of_pos (by simp)]
    · rw [valuesFor_cons_of_ne _ hk, hrest, List.countP_cons_of_neg (by simpa using hk)]

theorem countP_flatten_eq_nListing {votes : List (List Bytes)}
    (h : ∀ l ∈ votes, paramsAccepted l = true) (k : Bytes) :
    (votes.flatten.countP fun p => decide (keyword p = k)) = nListing votes k := by
  induction votes with
  | nil => rfl
  | cons l votes ih =>
    have hrest := ih fun l' hl' => h l' (List.mem_cons_of_mem l hl')
    have hl : (l.countP fun p => decide (keyword p = k)) = (l.map keyword).count k := by
      rw [List.count, List.countP_map]
      refine List.countP_congr fun p _ => ?_
      simp
    rw [List.flatten_cons, List.countP_append, hrest, hl]
    have hnodup := paramsAccepted_nodup (h l List.mem_cons_self)
    unfold nListing
    by_cases hmem : k ∈ l.map keyword
    · rw [List.count_eq_one_of_mem hnodup hmem, List.countP_cons_of_pos (by simpa using hmem)]
      omega
    · rw [List.count_eq_zero_of_not_mem hmem, List.countP_cons_of_neg (by simpa using hmem)]
      omega

theorem pairwise_sorted (params : List Bytes) :
    (params.mergeSort fun a b => decide (a ≤ b)).Pairwise (· ≤ ·) := by
  have h := @List.pairwise_mergeSort Bytes (fun a b => decide (a ≤ b))
    (fun a b c hab hbc => by
      rw [decide_eq_true_eq] at hab hbc ⊢
      exact List.le_trans hab hbc)
    (fun a b => by simpa using List.le_total a b) params
  exact h.imp fun hab => of_decide_eq_true hab

/-- For votes that the parser accepts: no assertion fails, the entries are in strict order of their
strings and have different keywords, and there is one for each keyword with enough votes, with the
low median of what was voted for it, and no other. -/
theorem dirvoteComputeParams_spec {votes : List (List Bytes)}
    (h : ∀ l ∈ votes, paramsAccepted l = true) (total : ℕ) :
    ∃ output, dirvoteComputeParams votes total = some output ∧
      (output.map paramEntry).Pairwise (· < ·) ∧
      (output.map fun p => keyword p.1).Nodup ∧
      ∀ start v, (start, v) ∈ output ↔ ∃ k, 61 ∉ k ∧ start = k ++ [61] ∧
        EnoughVotes total (nListing votes k) ∧ IsLowMedian v (valuesFor votes.flatten k) := by
  obtain ⟨output, houtput, -⟩ := dirvoteComputeParams_isSome total h
  refine ⟨output, houtput, ?_⟩
  have hperm := List.mergeSort_perm votes.flatten fun a b => decide (a ≤ b)
  have hsorted := pairwise_sorted votes.flatten
  have hokFlat : ∀ p ∈ votes.flatten, paramOk p = true := by
    intro p hp
    obtain ⟨l, hl, hpl⟩ := List.mem_flatten.mp hp
    exact paramOk_of_accepted (h l hl) hpl
  have hlen : ∀ k, (valuesFor votes.flatten k).length = nListing votes k := fun k =>
    (valuesFor_length hokFlat k).trans (countP_flatten_eq_nListing h k)
  -- an entry that the loop writes is one that is to be written
  have hentry : ∀ k start v,
      EntryOf total k (valuesFor (votes.flatten.mergeSort fun a b => decide (a ≤ b)) k) start v ↔
        start = k ++ [61] ∧ EnoughVotes total (nListing votes k) ∧
          IsLowMedian v (valuesFor votes.flatten k) := by
    intro k start v
    have hvalues : (valuesFor (votes.flatten.mergeSort fun a b => decide (a ≤ b)) k).Perm
        (valuesFor votes.flatten k) := hperm.filterMap _
    unfold EntryOf
    rw [hvalues.length_eq, hlen k]
    refine and_congr_right fun _ => and_congr_right fun henough => ?_
    have hpos : 0 < (valuesFor votes.flatten k).length := by
      rw [hlen k]
      simp only [EnoughVotes, minVotesForParam] at henough
      omega
    have hne := List.ne_nil_of_length_pos (hvalues.length_eq.symm ▸ hpos)
    rw [← isLowMedian_iff hne]
    exact ⟨fun hmedian => hmedian.perm hvalues, fun hmedian => hmedian.perm hvalues.symm⟩
  unfold dirvoteComputeParams at houtput
  cases hsort : votes.flatten.mergeSort fun a b => decide (a ≤ b) with
  | nil =>
    rw [hsort] at houtput hperm
    obtain rfl := Option.some.inj houtput
    refine ⟨List.Pairwise.nil, List.nodup_nil, fun start v => ?_⟩
    rw [List.nil_perm.mp hperm]
    simp only [List.not_mem_nil, false_iff]
    rintro ⟨k, -, -, -, hmedian⟩
    exact absurd hmedian.mem (by simp [valuesFor])
  | cons param rest =>
    rw [hsort] at houtput hperm hsorted hentry
    have hok : ∀ p ∈ param :: rest, paramOk p = true := fun p hp =>
      hokFlat p (hperm.mem_iff.mp hp)
    dsimp only at houtput
    rw [if_pos (mem_of_paramOk (hok param List.mem_cons_self))] at houtput
    obtain ⟨hordered, hmem⟩ := paramsLoop_spec hok hsorted houtput
    have hmem' : ∀ start v, (start, v) ∈ output ↔ ∃ k, 61 ∉ k ∧ start = k ++ [61] ∧
        EnoughVotes total (nListing votes k) ∧ IsLowMedian v (valuesFor votes.flatten k) := by
      intro start v
      rw [hmem]
      simp only [ite_self, List.nil_append, hentry]
      constructor
      · rintro ⟨k, hk, hstart, henough, hmedian⟩
        obtain ⟨p, -, rfl⟩ := List.mem_map.mp hk
        exact ⟨keyword p, notMem_keyword p, hstart, henough, hmedian⟩
      · rintro ⟨k, -, hstart, henough, hmedian⟩
        refine ⟨k, ?_, hstart, henough, hmedian⟩
        by_contra hk
        have hnil := valuesFor_eq_nil hk
        have hperm' := hperm.filterMap fun p =>
          if keyword p = k then torParseLong (integerStr p) int32Min int32Max else none
        change (valuesFor (param :: rest) k).Perm (valuesFor votes.flatten k) at hperm'
        rw [hnil] at hperm'
        rw [List.nil_perm.mp hperm'] at hmedian
        exact absurd hmedian.mem List.not_mem_nil
    refine ⟨hordered, ?_, hmem'⟩
    rw [List.Nodup, List.pairwise_map]
    rw [List.pairwise_map] at hordered
    refine hordered.imp_of_mem fun {a b} ha hb hlt hkey => ?_
    -- entries with one keyword have one value, and no entry comes before itself
    obtain ⟨k, hk, hstart, -, hmedian⟩ := (hmem' a.1 a.2).mp ha
    obtain ⟨k', hk', hstart', -, hmedian'⟩ := (hmem' b.1 b.2).mp hb
    rw [hstart, hstart', keyword_append hk, keyword_append hk'] at hkey
    subst hkey
    have hvalue : a.2 = b.2 := le_antisymm (hmedian'.le hmedian) (hmedian.le hmedian')
    have hab : a = b := Prod.ext (hstart.trans hstart'.symm) hvalue
    rw [hab] at hlt
    exact List.lt_irrefl _ hlt

/-- `a-b` sorts before the sign that ends `a`. -/
def sampleParams : List (List Bytes) :=
  [[Bytes.ascii "a-b=7", Bytes.ascii "a=-1"], [Bytes.ascii "a=4", Bytes.ascii "ab=2"],
    [Bytes.ascii "a-b=8", Bytes.ascii "a=+5"]]

theorem sampleParams_consensus :
    ∃ output, dirvoteComputeParams sampleParams 4 = some output ∧
      (output.map paramEntry).Pairwise (· < ·) ∧
      (output.map fun p => keyword p.1).Nodup ∧
      ∀ start v, (start, v) ∈ output ↔ ∃ k, 61 ∉ k ∧ start = k ++ [61] ∧
        EnoughVotes 4 (nListing sampleParams k) ∧ IsLowMedian v (valuesFor sampleParams.flatten k) :=
  dirvoteComputeParams_spec (by decide) 4

end Dirvote
