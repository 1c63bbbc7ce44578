/-
Searching a sorted list (`smartlist_bsearch_idx` of `lib/container/smartlist.c`).

The comparison of the key with a member is positive where the key is greater.  In a list that is in
order, the search ends, meets all of its assertions and gives the first member that is not below
the key, or the length of the list (`smartlistBsearchIdx_eq`).
-/
import Mathlib.Algebra.Order.Ring.Int
import Mathlib.Data.List.TakeWhile
import Mathlib.Tactic.Common

namespace SmartlistBsearch

variable {α : Type*}

/-- The assertions behind the loop: the key is below the member at `lo`, or above the last. -/
def notFound (compare : α → ℤ) (sl : List α) (lo hi : ℕ) : Option (ℕ × Bool) :=
  if lo = hi + 1 ∧ lo ≤ sl.length ∧ hi ≤ sl.length then
    match sl[lo]? with
    | some member => if compare member < 0 then some (lo, false) else none
    | none =>
      match sl[sl.length - 1]? with
      | some member => if compare member > 0 then some (lo, false) else none
      | none => none
  else none

def bsearchLoop (compare : α → ℤ) (sl : List α) (lo hi : ℕ) : Option (ℕ × Bool) :=
  if lo ≤ hi then
    let mid := lo + (hi - lo) / 2
    match sl[mid]? with
    | none => none
    | some member =>
      let cmp := compare member
      if cmp = 0 then some (mid, true)
      else if cmp > 0 then bsearchLoop compare sl (mid + 1) hi
      else if mid > 0 then bsearchLoop compare sl lo (mid - 1)
      else some (0, false)
  else notFound compare sl lo hi
termination_by hi + 1 - lo

/-- The index and whether the key was found there; none where an assertion fails. -/
def smartlistBsearchIdx (compare : α → ℤ) (sl : List α) : Option (ℕ × Bool) :=
  if sl.length = 0 then some (0, false)
  else bsearchLoop compare sl 0 (sl.length - 1)

/-- The members are in strict order, as far as the key tells: none that is not below the key is
before one that is not above it. -/
def Ordered (compare : α → ℤ) (sl : List α) : Prop :=
  sl.Pairwise fun a b => 0 ≤ compare b → 0 < compare a

variable {compare : α → ℤ} {sl : List α}

structure Between (compare : α → ℤ) (sl : List α) (lo hi : ℕ) : Prop where
  below : ∀ i member, i < lo → sl[i]? = some member → 0 < compare member
  above : ∀ i member, hi < i → sl[i]? = some member → compare member < 0
  le : lo ≤ hi + 1
  lt : hi < sl.length

/-- Members before `i` are below the key, and the others are not. -/
structure Splits (compare : α → ℤ) (sl : List α) (i : ℕ) : Prop where
  le : i ≤ sl.length
  below : ∀ j member, j < i → sl[j]? = some member → 0 < compare member
  notBelow : ∀ j member, i ≤ j → sl[j]? = some member → compare member ≤ 0

theorem Ordered.getElem? (h : Ordered compare sl) {i j : ℕ} {a b : α} (hij : i < j)
    (ha : sl[i]? = some a) (hb : sl[j]? = some b) : 0 ≤ compare b → 0 < compare a := by
  obtain ⟨hi, rfl⟩ := List.getElem?_eq_some_iff.mp ha
  obtain ⟨hj, rfl⟩ := List.getElem?_eq_some_iff.mp hb
  exact List.pairwise_iff_getElem.mp h i j hi hj hij

theorem Ordered.behind (h : Ordered compare sl) {i j : ℕ} {a b : α} (hij : i ≤ j)
    (ha : sl[i]? = some a) (hb : sl[j]? = some b) (hle : compare a ≤ 0) :
    b = a ∨ compare b < 0 := by
  rcases Nat.eq_or_lt_of_le hij with rfl | hij
  · exact Or.inl (Option.some.inj (hb.symm.trans ha))
  · right
    by_contra hnot
    have hpos := h.getElem? hij ha hb (not_lt.mp hnot)
    omega

theorem notFound_eq {lo hi : ℕ} (h : Between compare sl lo hi) (hdone : ¬ lo ≤ hi) :
    notFound compare sl lo hi = some (lo, false) ∧ Splits compare sl lo := by
  obtain ⟨hbelow, habove, hle, hlt⟩ := h
  have hlo : lo = hi + 1 := by omega
  refine ⟨?_, by omega, hbelow, fun j member hj hmember => (habove j member (by omega) hmember).le⟩
  rw [notFound, if_pos ⟨hlo, by omega, by omega⟩]
  cases hmember : sl[lo]? with
  | some member => exact if_pos (habove lo member (by omega) hmember)
  | none =>
    -- `hi` is the last index
    have hlen : sl.length ≤ lo := List.getElem?_eq_none_iff.mp hmember
    have hlast : sl[sl.length - 1]? = some sl[hi] := by
      rw [show sl.length - 1 = hi by omega]
      exact List.getElem?_eq_getElem hlt
    simp only [hlast]
    exact if_pos (hbelow hi _ (by omega) (List.getElem?_eq_getElem hlt))

theorem bsearchLoop_eq (hord : Ordered compare sl) {lo hi : ℕ} (h : Between compare sl lo hi) :
    ∃ i found, bsearchLoop compare sl lo hi = some (i, found) ∧ Splits compare sl i := by
  induction hmeasure : hi + 1 - lo using Nat.strong_induction_on generalizing lo hi with
  | h n ih =>
    rw [bsearchLoop]
    by_cases hgo : lo ≤ hi
    · rw [if_pos hgo]
      obtain ⟨hbelow, habove, hle, hlt⟩ := h
      have hmid : lo + (hi - lo) / 2 < sl.length := by omega
      obtain ⟨member, hmember⟩ : ∃ member, sl[lo + (hi - lo) / 2]? = some member :=
        ⟨_, List.getElem?_eq_getElem hmid⟩
      simp only [hmember]
      rcases lt_trichotomy (compare member) 0 with hneg | hzero | hpos
      · -- the key is below this member, and below all behind it
        rw [if_neg hneg.ne, if_neg (by omega)]
        have habove' : ∀ i m, lo + (hi - lo) / 2 ≤ i → sl[i]? = some m → compare m < 0 := by
          intro i m hi hm
          rcases hord.behind hi hmember hm hneg.le with rfl | hbehind
          · exact hneg
          · exact hbehind
        by_cases hpos : lo + (hi - lo) / 2 > 0
        · rw [if_pos hpos]
          refine ih _ ?_ ⟨hbelow, fun i m hi hm => habove' i m (by omega) hm, ?_, ?_⟩ rfl
          all_goals omega
        · rw [if_neg hpos]
          refine ⟨0, false, rfl, Nat.zero_le _, fun j m hj => absurd hj (Nat.not_lt_zero j), ?_⟩
          intro j m _ hm
          exact (habove' j m (by omega) hm).le
      · -- what is found is the first that is not below the key
        rw [if_pos hzero]
        refine ⟨_, true, rfl, hmid.le, ?_, ?_⟩
        · intro j m hj hm
          exact hord.getElem? hj hm hmember hzero.ge
        · intro j m hj hm
          rcases hord.behind hj hmember hm hzero.le with rfl | hbehind
          · exact hzero.le
          · exact hbehind.le
      · rw [if_neg hpos.ne', if_pos hpos]
        refine ih _ ?_ ⟨?_, habove, ?_, hlt⟩ rfl
        · omega
        · -- and all before this member are below the key
          intro i m hi hm
          rcases Nat.eq_or_lt_of_le (Nat.lt_succ_iff.mp hi) with rfl | hi
          · rw [hmember] at hm
            exact Option.some.inj hm ▸ hpos
          · exact hord.getElem? hi hm hmember hpos.le
        · omega
    · rw [if_neg hgo]
      obtain ⟨heq, hsplits⟩ := notFound_eq h hgo
      exact ⟨lo, false, heq, hsplits⟩

theorem Splits.eq_length_takeWhile {i : ℕ} (h : Splits compare sl i) :
    i = (sl.takeWhile fun member => decide (0 < compare member)).length := by
  obtain ⟨hle, hbelow, hnot⟩ := h
  have htake : (sl.take i).takeWhile (fun member => decide (0 < compare member)) = sl.take i := by
    rw [List.takeWhile_eq_self_iff]
    intro member hmem
    obtain ⟨j, hj, rfl⟩ := List.mem_take_iff_getElem.mp hmem
    exact decide_eq_true (hbelow j _ (by omega) (List.getElem?_eq_getElem (by omega)))
  have hdrop : (sl.drop i).takeWhile (fun member => decide (0 < compare member)) = [] := by
    cases hrest : sl.drop i with
    | nil => rfl
    | cons member rest =>
      have hmember : sl[i]? = some member := by
        rw [← List.head?_drop, hrest]
        rfl
      have hneg := hnot i member le_rfl hmember
      exact List.takeWhile_cons_of_neg (by simpa using hneg)
  have hwhole : sl.takeWhile (fun member => decide (0 < compare member)) = sl.take i := by
    calc sl.takeWhile (fun member => decide (0 < compare member))
        = (sl.take i ++ sl.drop i).takeWhile (fun member => decide (0 < compare member)) := by
          rw [List.take_append_drop]
      _ = sl.take i := by
          rw [List.takeWhile_append, htake, if_pos rfl, hdrop, List.append_nil]
  rw [hwhole, List.length_take]
  omega

theorem smartlistBsearchIdx_eq (hord : Ordered compare sl) :
    ∃ found, smartlistBsearchIdx compare sl =
      some ((sl.takeWhile fun member => decide (0 < compare member)).length, found) := by
  rw [smartlistBsearchIdx]
  by_cases hlen : sl.length = 0
  · rw [if_pos hlen, List.length_eq_zero_iff.mp hlen]
    exact ⟨false, rfl⟩
  · rw [if_neg hlen]
    have hstart : Between compare sl 0 (sl.length - 1) := by
      refine ⟨fun i m hi => absurd hi (Nat.not_lt_zero i), fun i m hi hm => ?_, by omega, by omega⟩
      obtain ⟨hlt, -⟩ := List.getElem?_eq_some_iff.mp hm
      omega
    obtain ⟨i, found, heq, hsplits⟩ := bsearchLoop_eq hord hstart
    exact ⟨found, hsplits.eq_length_takeWhile ▸ heq⟩

theorem bsearchLoop_found {lo hi i : ℕ} {found : Bool}
    (h : bsearchLoop compare sl lo hi = some (i, found)) :
    (found = true → ∃ member, sl[i]? = some member ∧ compare member = 0) ∧
      (found = false → ∀ member, sl[i]? = some member → compare member ≠ 0) := by
  fun_induction bsearchLoop compare sl lo hi with
  | case1 lo hi hle mid hnone => exact absurd h (by simp)
  | case2 lo hi hle mid member hmember cmp hzero =>
    obtain ⟨rfl, rfl⟩ := Prod.mk.inj (Option.some.inj h)
    exact ⟨fun _ => ⟨member, hmember, hzero⟩, fun hfalse => absurd hfalse (by simp)⟩
  | case3 lo hi hle mid member hmember cmp hzero hpos ih => exact ih h
  | case4 lo hi hle mid member hmember cmp hzero hpos hmid ih => exact ih h
  | case5 lo hi hle mid member hmember cmp hzero hpos hmid =>
    obtain ⟨rfl, rfl⟩ := Prod.mk.inj (Option.some.inj h)
    have hfirst : mid = 0 := Nat.eq_zero_of_not_pos hmid
    refine ⟨fun htrue => absurd htrue (by simp), fun _ other hother => ?_⟩
    rw [hfirst, hother] at hmember
    exact Option.some.inj hmember ▸ hzero
  | case6 lo hi hle =>
    rw [notFound] at h
    split_ifs at h
    split at h
    · rename_i member hmember
      split_ifs at h with hneg
      obtain ⟨rfl, rfl⟩ := Prod.mk.inj (Option.some.inj h)
      refine ⟨fun htrue => absurd htrue (by simp), fun _ other hother => ?_⟩
      exact Option.some.inj (hmember.symm.trans hother) ▸ hneg.ne
    · rename_i hnone
      split at h
      · split_ifs at h
        obtain ⟨rfl, rfl⟩ := Prod.mk.inj (Option.some.inj h)
        exact ⟨fun htrue => absurd htrue (by simp), fun _ other hother =>
          absurd (hnone.symm.trans hother) (by simp)⟩
      · exact absurd h (by simp)

theorem smartlistBsearchIdx_found {i : ℕ} {found : Bool}
    (h : smartlistBsearchIdx compare sl = some (i, found)) :
    (found = true → ∃ member, sl[i]? = some member ∧ compare member = 0) ∧
      (found = false → ∀ member, sl[i]? = some member → compare member ≠ 0) := by
  rw [smartlistBsearchIdx] at h
  split_ifs at h with hlen
  · obtain ⟨rfl, rfl⟩ := Prod.mk.inj (Option.some.inj h)
    obtain rfl := List.length_eq_zero_iff.mp hlen
    exact ⟨fun htrue => absurd htrue (by simp), fun _ member hmember => absurd hmember (by simp)⟩
  · exact bsearchLoop_found h

end SmartlistBsearch
