/-
Lengths of longest common subsequences.

`LongestCommon a b n` says that two lists have a common sublist of length `n`, and none that is
longer.  There is one such length (`LongestCommon.unique`), and it follows the lists from either end:
an element both end with counts for one (`cons`, `concat`), and of two that differ one can be left out
(`concat_ne`).  Where one list is cut in two, it is the best sum over the cuts of the other
(`LongestCommon.append`).
-/
import Mathlib.Data.List.Basic
import Mathlib.Order.Lattice
import Mathlib.Order.Nat
import Mathlib.Tactic.Common

namespace CommonSubsequence

variable {α : Type*} {a a' b : List α} {x y : α} {m n : ℕ}

/-- `n` is the length of a longest common sublist. -/
structure LongestCommon (a b : List α) (n : ℕ) : Prop where
  common : ∃ c : List α, c.Sublist a ∧ c.Sublist b ∧ c.length = n
  longest : ∀ c : List α, c.Sublist a → c.Sublist b → c.length ≤ n

theorem LongestCommon.unique (h : LongestCommon a b m) (h' : LongestCommon a b n) : m = n := by
  obtain ⟨c, hca, hcb, rfl⟩ := h.common
  obtain ⟨c', hca', hcb', rfl⟩ := h'.common
  exact le_antisymm (h'.longest c hca hcb) (h.longest c' hca' hcb')

theorem LongestCommon.symm (h : LongestCommon a b n) : LongestCommon b a n where
  common := by
    obtain ⟨c, hca, hcb, hlen⟩ := h.common
    exact ⟨c, hcb, hca, hlen⟩
  longest c hcb hca := h.longest c hca hcb

theorem LongestCommon.reverse (h : LongestCommon a b n) : LongestCommon a.reverse b.reverse n where
  common := by
    obtain ⟨c, hca, hcb, hlen⟩ := h.common
    exact ⟨c.reverse, hca.reverse, hcb.reverse, by rw [List.length_reverse, hlen]⟩
  longest c hca hcb := by
    rw [← List.length_reverse]
    exact h.longest c.reverse (List.sublist_reverse_iff.mp hca) (List.sublist_reverse_iff.mp hcb)

theorem LongestCommon.nil_left (b : List α) : LongestCommon [] b 0 where
  common := ⟨[], .refl _, List.nil_sublist b, rfl⟩
  longest c hca _ := by rw [List.sublist_nil.mp hca, List.length_nil]

theorem LongestCommon.nil_right (a : List α) : LongestCommon a [] 0 := (nil_left a).symm

theorem LongestCommon.cons (h : LongestCommon a b n) (x : α) :
    LongestCommon (x :: a) (x :: b) (n + 1) where
  common := by
    obtain ⟨c, hca, hcb, hlen⟩ := h.common
    exact ⟨x :: c, hca.cons_cons x, hcb.cons_cons x, by rw [List.length_cons, hlen]⟩
  longest c hca hcb := by
    -- without its first element `c` is common to the rests
    cases c with
    | nil => exact Nat.zero_le _
    | cons y c =>
      rw [List.length_cons]
      exact Nat.succ_le_succ (h.longest c hca.tail hcb.tail)

theorem LongestCommon.cons_ne (hne : x ≠ y) (hb : LongestCommon (x :: a) b m)
    (ha : LongestCommon a (y :: b) n) : LongestCommon (x :: a) (y :: b) (max m n) where
  common := by
    rcases le_total m n with hle | hle
    · obtain ⟨c, hca, hcb, hlen⟩ := ha.common
      exact ⟨c, hca.cons x, hcb, by rw [hlen, max_eq_right hle]⟩
    · obtain ⟨c, hca, hcb, hlen⟩ := hb.common
      exact ⟨c, hca, hcb.cons y, by rw [hlen, max_eq_left hle]⟩
  longest c hca hcb := by
    rcases List.sublist_cons_iff.mp hca with hskip | ⟨c', rfl, -⟩
    · exact (ha.longest c hskip hcb).trans (le_max_right m n)
    · rcases List.sublist_cons_iff.mp hcb with hskip | ⟨c'', heq, -⟩
      · exact (hb.longest _ hca hskip).trans (le_max_left m n)
      · exact absurd (List.cons.inj heq).1 hne

theorem LongestCommon.concat (h : LongestCommon a b n) (x : α) :
    LongestCommon (a ++ [x]) (b ++ [x]) (n + 1) := by
  have hrev := (h.reverse.cons x).reverse
  simpa only [List.reverse_cons, List.reverse_reverse] using hrev

theorem LongestCommon.concat_ne (hne : x ≠ y) (hb : LongestCommon (a ++ [x]) b m)
    (ha : LongestCommon a (b ++ [y]) n) : LongestCommon (a ++ [x]) (b ++ [y]) (max m n) := by
  have hb' : LongestCommon (x :: a.reverse) b.reverse m := by simpa using hb.reverse
  have ha' : LongestCommon a.reverse (y :: b.reverse) n := by simpa using ha.reverse
  simpa using (LongestCommon.cons_ne hne hb' ha').reverse

theorem LongestCommon.singleton [DecidableEq α] (x : α) (b : List α) :
    LongestCommon [x] b (if x ∈ b then 1 else 0) := by
  split_ifs with hx
  · exact ⟨⟨[x], .refl _, List.singleton_sublist.mpr hx, rfl⟩, fun c hca _ => hca.length_le⟩
  · refine ⟨⟨[], List.nil_sublist _, List.nil_sublist _, rfl⟩, fun c hca hcb => ?_⟩
    rcases List.sublist_cons_iff.mp hca with hnil | ⟨c', rfl, -⟩
    · rw [List.sublist_nil.mp hnil, List.length_nil]
    · exact absurd (hcb.subset List.mem_cons_self) hx

theorem LongestCommon.append {f g : ℕ → ℕ} {k : ℕ}
    (hf : ∀ i ≤ b.length, LongestCommon a (b.take i) (f i))
    (hg : ∀ i ≤ b.length, LongestCommon a' (b.drop i) (g i))
    (hk : k ≤ b.length) (hmax : ∀ i ≤ b.length, f i + g i ≤ f k + g k) :
    LongestCommon (a ++ a') b (f k + g k) where
  common := by
    obtain ⟨c, hca, hcb, hlen⟩ := (hf k hk).common
    obtain ⟨c', hca', hcb', hlen'⟩ := (hg k hk).common
    refine ⟨c ++ c', hca.append hca', ?_, by rw [List.length_append, hlen, hlen']⟩
    have happ := hcb.append hcb'
    rwa [List.take_append_drop] at happ
  longest c hca hcb := by
    obtain ⟨c₁, c₂, rfl, hc₁, hc₂⟩ := List.sublist_append_iff.mp hca
    -- the second list is cut where the first part of `c` ends
    obtain ⟨b₁, b₂, rfl, hb₁, hb₂⟩ := List.append_sublist_iff.mp hcb
    have hle : b₁.length ≤ (b₁ ++ b₂).length := by simp
    have hfirst := (hf b₁.length hle).longest c₁ hc₁ (by simpa using hb₁)
    have hsecond := (hg b₁.length hle).longest c₂ hc₂ (by simpa using hb₂)
    calc (c₁ ++ c₂).length = c₁.length + c₂.length := List.length_append
      _ ≤ f b₁.length + g b₁.length := Nat.add_le_add hfirst hsecond
      _ ≤ f k + g k := hmax _ hle

end CommonSubsequence
