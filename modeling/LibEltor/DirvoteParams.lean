/-
Network parameters in votes and in the consensus made of them (`feature/dirparse/ns_parse.c`,
`feature/dirauth/dirvote.c`).

A vote is accepted when its parameters are in order, each a keyword, an equals sign and a number,
and no keyword follows itself.  Between two strings with one keyword only strings with that keyword
stand, so no keyword is there twice (`paramsAccepted_nodup`); so no more parameters with one keyword
than votes are counted, and the assertions of `dirvoteComputeParams` hold
(`dirvoteComputeParams_isSome`).
-/
import Mathlib
import LibEltor.Bytes
import LibEltor.OrderStatistic

open OrderStatistic

namespace Dirvote

def isDigit (c : UInt8) : Bool := decide (48 ≤ c ∧ c ≤ 57)

/-- What `isspace` accepts. -/
def isSpace (c : UInt8) : Bool := decide (c = 32 ∨ (9 ≤ c ∧ c ≤ 13))

def torParseLong (s : Bytes) (min max : ℤ) : Option ℤ :=
  let s := s.dropWhile isSpace
  let digits := if s.head? = some 45 ∨ s.head? = some 43 then s.tail else s
  if digits = [] ∨ digits.all isDigit = false then none
  else
    let value : ℤ := (digits.foldl (fun n c => n * 10 + (c.toNat - 48)) 0 : ℕ)
    let r := if s.head? = some 45 then -value else value
    if r < min ∨ r > max then none else some r

def int32Min : ℤ := -2 ^ 31

def int32Max : ℤ := 2 ^ 31 - 1

/-- What stands before the `=`. -/
def keyword (param : Bytes) : Bytes := param.takeWhile (· ≠ 61)

/-- What stands behind the `=`. -/
def integerStr (param : Bytes) : Bytes := (param.dropWhile (· ≠ 61)).tail

def paramOk (param : Bytes) : Bool :=
  decide (61 ∈ param) && (torParseLong (integerStr param) int32Min int32Max).isSome

/-- Strictly ascending, by `strcmp`. -/
def inOrder : List Bytes → Bool
  | a :: b :: l => decide (a < b) && inOrder (b :: l)
  | _ => true

def noDups : List Bytes → Bool
  | a :: b :: l => decide (keyword a ≠ keyword b) && noDups (b :: l)
  | _ => true

def paramsAccepted (netParams : List Bytes) : Bool :=
  netParams.all paramOk && inOrder netParams && noDups netParams

def minVotesForParam : ℕ := 3

/-- What is written for a series: its keyword with the `=`, and the median. -/
def paramOutput (total curParamLen : ℕ) (param : Bytes) (vals : List ℤ) : List (Bytes × ℤ) :=
  if vals.length > total / 2 ∨ vals.length ≥ minVotesForParam then
    [(param.take curParamLen, median vals)]
  else []

def paramsLoop (nVotes total : ℕ) (curParamLen : ℕ) (vals : List ℤ) :
    List Bytes → Option (List (Bytes × ℤ))
  | [] => some []
  | param :: rest => do
    if nVotes ≤ vals.length then none
    else
      let val ← torParseLong (integerStr param) int32Min int32Max
      let vals := vals ++ [val]
      match rest with
      | [] => some (paramOutput total curParamLen param vals)
      | nextParam :: _ =>
        if nextParam.take curParamLen ≠ param.take curParamLen then do
          let output ← paramsLoop nVotes total ((keyword nextParam).length + 1) [] rest
          some (paramOutput total curParamLen param vals ++ output)
        else paramsLoop nVotes total curParamLen vals rest

def dirvoteComputeParams (votes : List (List Bytes)) (total : ℕ) : Option (List (Bytes × ℤ)) :=
  match votes.flatten.mergeSort fun a b => decide (a ≤ b) with
  | [] => some []
  | param :: rest =>
    if 61 ∈ param then
      paramsLoop votes.length total ((keyword param).length + 1) [] (param :: rest)
    else none

theorem mem_of_paramOk {param : Bytes} (h : paramOk param = true) : 61 ∈ param := by
  rw [paramOk, Bool.and_eq_true, decide_eq_true_iff] at h
  exact h.1

theorem isSome_of_paramOk {param : Bytes} (h : paramOk param = true) :
    (torParseLong (integerStr param) int32Min int32Max).isSome = true := by
  rw [paramOk, Bool.and_eq_true] at h
  exact h.2

/-! ### No keyword is there twice -/

theorem prefix_of_between {p a b c : Bytes} (ha : p <+: a) (hc : p <+: c) (hab : a < b) (hbc : b < c) :
    p <+: b := by
  induction p generalizing a b c with
  | nil => exact List.nil_prefix
  | cons x p ih =>
    obtain ⟨a', rfl⟩ := ha
    obtain ⟨c', rfl⟩ := hc
    cases b with
    | nil => cases hab
    | cons y b =>
      rw [List.cons_append, List.cons_lt_cons_iff] at hab hbc
      have hxy : x = y := by
        obtain hlt | ⟨heq, -⟩ := hab
        · obtain hlt' | ⟨heq', -⟩ := hbc
          · exact absurd (UInt8.lt_trans hlt hlt') (UInt8.lt_irrefl x)
          · exact heq'.symm
        · exact heq
      subst hxy
      have hab' := hab.resolve_left (UInt8.lt_irrefl x)
      have hbc' := hbc.resolve_left (UInt8.lt_irrefl x)
      exact List.cons_prefix_cons.mpr
        ⟨rfl, ih (List.prefix_append p a') (List.prefix_append p c') hab'.2 hbc'.2⟩

theorem keyword_append {k t : Bytes} (hk : 61 ∉ k) : keyword (k ++ 61 :: t) = k := by
  have hpos : ∀ c ∈ k, decide (c ≠ 61) = true := fun c hc => by
    simpa using fun heq : c = 61 => hk (heq ▸ hc)
  rw [keyword, List.takeWhile_append_of_pos hpos, List.takeWhile_cons_of_neg (by decide),
    List.append_nil]

theorem notMem_keyword (param : Bytes) : 61 ∉ keyword param := fun h => by
  simpa using List.mem_takeWhile_imp h

theorem keyword_begins {param : Bytes} (h : 61 ∈ param) : keyword param ++ [61] <+: param := by
  induction param with
  | nil => cases h
  | cons x param ih =>
    by_cases hx : x = 61
    · subst hx
      exact ⟨param, by simp [keyword]⟩
    · have hmem : 61 ∈ param := (List.mem_cons.mp h).resolve_left (Ne.symm hx)
      have hcons : keyword (x :: param) = x :: keyword param := by simp [keyword, hx]
      rw [hcons, List.cons_append]
      exact List.cons_prefix_cons.mpr ⟨rfl, ih hmem⟩

theorem keyword_of_begins {k param : Bytes} (hk : 61 ∉ k) (h : k ++ [61] <+: param) :
    keyword param = k := by
  obtain ⟨t, rfl⟩ := h
  rw [List.append_assoc, List.singleton_append, keyword_append hk]

theorem pairwise_of_inOrder {l : List Bytes} (h : inOrder l = true) : l.Pairwise (· < ·) := by
  induction l with
  | nil => exact List.Pairwise.nil
  | cons a l ih =>
    cases l with
    | nil => exact List.pairwise_singleton _ a
    | cons b l =>
      rw [inOrder, Bool.and_eq_true, decide_eq_true_iff] at h
      have hl := ih h.2
      refine List.pairwise_cons.mpr ⟨fun y hy => ?_, hl⟩
      obtain rfl | hy := List.mem_cons.mp hy
      · exact h.1
      · exact List.lt_trans h.1 ((List.pairwise_cons.mp hl).1 y hy)

theorem paramsAccepted_nodup {l : List Bytes} (h : paramsAccepted l = true) :
    (l.map keyword).Nodup := by
  rw [paramsAccepted, Bool.and_eq_true, Bool.and_eq_true] at h
  have hok := h.1.1
  have horder := h.1.2
  have hdups := h.2
  clear h
  induction l with
  | nil => exact List.nodup_nil
  | cons a l ih =>
    have hsorted := pairwise_of_inOrder horder
    cases l with
    | nil => exact List.nodup_singleton _
    | cons b l =>
      rw [inOrder, Bool.and_eq_true, decide_eq_true_iff] at horder
      rw [noDups, Bool.and_eq_true, decide_eq_true_iff] at hdups
      rw [List.all_cons, Bool.and_eq_true] at hok
      refine List.nodup_cons.mpr ⟨fun hmem => ?_, ih hok.2 horder.2 hdups.2⟩
      obtain ⟨y, hy, hkey⟩ := List.mem_map.mp hmem
      obtain rfl | hyl := List.mem_cons.mp hy
      · exact hdups.1 hkey.symm
      · have hby : b < y := (List.pairwise_cons.mp (List.pairwise_cons.mp hsorted).2).1 y hyl
        have ha := keyword_begins (mem_of_paramOk hok.1)
        have hprefix := keyword_begins (mem_of_paramOk (List.all_eq_true.mp hok.2 y hy))
        rw [hkey] at hprefix
        have hb := prefix_of_between ha hprefix horder.1 hby
        exact hdups.1 (keyword_of_begins (notMem_keyword a) hb).symm

theorem paramOk_of_accepted {l : List Bytes} (h : paramsAccepted l = true) {param : Bytes}
    (hmem : param ∈ l) : paramOk param = true := by
  rw [paramsAccepted, Bool.and_eq_true, Bool.and_eq_true] at h
  exact List.all_eq_true.mp h.1.1 param hmem

theorem countP_keyword_le {votes : List (List Bytes)}
    (h : ∀ l ∈ votes, paramsAccepted l = true) (k : Bytes) :
    (votes.flatten.countP fun p => decide (keyword p = k)) ≤ votes.length := by
  induction votes with
  | nil => exact Nat.le_refl 0
  | cons l votes ih =>
    have hl : (l.countP fun p => decide (keyword p = k)) ≤ 1 := by
      have hnodup := paramsAccepted_nodup (h l List.mem_cons_self)
      have hcount := List.nodup_iff_count_le_one.mp hnodup k
      rw [List.count, List.countP_map] at hcount
      refine le_of_eq_of_le (List.countP_congr fun p _ => ?_) hcount
      simp
    have hrest := ih fun l' hl' => h l' (List.mem_cons_of_mem l hl')
    rw [List.flatten_cons, List.countP_append, List.length_cons]
    omega

theorem le_of_torParseLong {s : Bytes} {min max val : ℤ} (h : torParseLong s min max = some val) :
    val ≤ max := by
  unfold torParseLong at h
  simp only at h
  split_ifs at h <;> simp only [Option.some.injEq] at h <;> omega

theorem paramOutput_le {total curParamLen : ℕ} {param : Bytes} {vals : List ℤ} {max : ℤ}
    (hne : vals ≠ []) (h : ∀ val ∈ vals, val ≤ max) :
    ∀ p ∈ paramOutput total curParamLen param vals, p.2 ≤ max := by
  intro p hp
  unfold paramOutput at hp
  split at hp
  · obtain rfl := List.mem_singleton.mp hp
    exact h _ (median_mem hne)
  · cases hp

theorem keyword_eq_of_take {param nextParam : Bytes} (h : 61 ∈ param)
    (htake : nextParam.take ((keyword param).length + 1) = param.take ((keyword param).length + 1)) :
    keyword nextParam = keyword param := by
  have hlen : (keyword param ++ [61]).length = (keyword param).length + 1 := by simp
  have hparam := List.prefix_iff_eq_take.mp (keyword_begins h)
  rw [hlen, ← htake] at hparam
  exact keyword_of_begins (notMem_keyword param) (hparam ▸ List.take_prefix _ _)

theorem paramsLoop_isSome {nVotes total : ℕ} {rest : List Bytes} {param : Bytes} {vals : List ℤ}
    (hok : ∀ p ∈ param :: rest, paramOk p = true) (hvals : ∀ val ∈ vals, val ≤ int32Max)
    (hall : ∀ k, ((param :: rest).countP fun p => decide (keyword p = k)) ≤ nVotes)
    (hcur : vals.length + ((param :: rest).countP fun p => decide (keyword p = keyword param))
      ≤ nVotes) :
    ∃ output, paramsLoop nVotes total ((keyword param).length + 1) vals (param :: rest) =
      some output ∧ ∀ p ∈ output, p.2 ≤ int32Max := by
  induction rest generalizing param vals with
  | nil =>
    rw [List.countP_cons_of_pos (by simp)] at hcur
    obtain ⟨val, hval⟩ := Option.isSome_iff_exists.mp (isSome_of_paramOk (hok param (by simp)))
    have hvals' : ∀ v ∈ vals ++ [val], v ≤ int32Max := by
      intro v hv
      obtain hv | hv := List.mem_append.mp hv
      · exact hvals v hv
      · exact List.mem_singleton.mp hv ▸ le_of_torParseLong hval
    refine ⟨paramOutput total ((keyword param).length + 1) param (vals ++ [val]), ?_,
      paramOutput_le (by simp) hvals'⟩
    rw [paramsLoop, if_neg (by omega), hval]
    rfl
  | cons nextParam rest ih =>
    have hcount := hcur
    rw [List.countP_cons_of_pos (by simp)] at hcount
    have hparam := hok param List.mem_cons_self
    have hok' : ∀ p ∈ nextParam :: rest, paramOk p = true :=
      fun p hp => hok p (List.mem_cons_of_mem param hp)
    have hall' : ∀ k, ((nextParam :: rest).countP fun p => decide (keyword p = k)) ≤ nVotes :=
      fun k => (List.sublist_cons_self param _).countP_le.trans (hall k)
    obtain ⟨val, hval⟩ := Option.isSome_iff_exists.mp (isSome_of_paramOk hparam)
    have hvals' : ∀ v ∈ vals ++ [val], v ≤ int32Max := by
      intro v hv
      obtain hv | hv := List.mem_append.mp hv
      · exact hvals v hv
      · exact List.mem_singleton.mp hv ▸ le_of_torParseLong hval
    rw [paramsLoop, if_neg (by omega), hval]
    simp only [Option.bind_eq_bind, Option.bind_some]
    split
    · -- a new series begins
      have hnone : ∀ v ∈ ([] : List ℤ), v ≤ int32Max := fun v hv => by cases hv
      have hcur' : ([] : List ℤ).length +
          ((nextParam :: rest).countP fun p => decide (keyword p = keyword nextParam)) ≤ nVotes := by
        rw [List.length_nil, Nat.zero_add]
        exact hall' _
      obtain ⟨output, hloop, hout⟩ := ih hok' hnone hall' hcur'
      refine ⟨_, by rw [hloop]; rfl, fun p hp => ?_⟩
      obtain hp | hp := List.mem_append.mp hp
      · exact paramOutput_le (by simp) hvals' p hp
      · exact hout p hp
    · rename_i htake
      have hkey := keyword_eq_of_take (mem_of_paramOk hparam) (not_not.mp htake)
      have hcur' : (vals ++ [val]).length +
          ((nextParam :: rest).countP fun p => decide (keyword p = keyword nextParam)) ≤ nVotes := by
        rw [List.length_append, List.length_singleton, hkey]
        omega
      obtain ⟨output, hloop, hout⟩ := ih hok' hvals' hall' hcur'
      exact ⟨output, hkey ▸ hloop, hout⟩

theorem dirvoteComputeParams_isSome {votes : List (List Bytes)} (total : ℕ)
    (h : ∀ l ∈ votes, paramsAccepted l = true) :
    ∃ output, dirvoteComputeParams votes total = some output ∧ ∀ p ∈ output, p.2 ≤ int32Max := by
  have hperm := List.mergeSort_perm votes.flatten fun a b => decide (a ≤ b)
  have hok : ∀ p ∈ votes.flatten.mergeSort fun a b => decide (a ≤ b), paramOk p = true := by
    intro p hp
    obtain ⟨l, hl, hpl⟩ := List.mem_flatten.mp (hperm.mem_iff.mp hp)
    exact paramOk_of_accepted (h l hl) hpl
  have hall := fun k => (hperm.countP_eq fun p => decide (keyword p = k)).trans_le
    (countP_keyword_le h k)
  unfold dirvoteComputeParams
  cases hsort : votes.flatten.mergeSort fun a b => decide (a ≤ b) with
  | nil => exact ⟨[], rfl, by simp⟩
  | cons param rest =>
    rw [hsort] at hok hall
    simp only
    rw [if_pos (mem_of_paramOk (hok param List.mem_cons_self))]
    exact paramsLoop_isSome hok (by simp) hall (by simpa using hall (keyword param))

end Dirvote
