/-
A map as the list of its entries, each of which knows its key.
-/
import Mathlib

namespace KeyedList

variable {α κ : Type*} [DecidableEq κ] (key : α → κ)

def get (k : κ) (l : List α) : Option α := l.find? fun e => key e = k

def remove (k : κ) (l : List α) : List α := l.filter fun e => key e ≠ k

def set (e : α) (l : List α) : List α := remove key (key e) l ++ [e]

def Keyed (l : List α) : Prop := (l.map key).Nodup

variable {key} {l : List α} {e e' : α} {k : κ}

omit [DecidableEq κ] in
theorem Keyed.eq (h : Keyed key l) (he : e ∈ l) (he' : e' ∈ l) (hkey : key e = key e') : e = e' :=
  List.inj_on_of_nodup_map h he he' hkey

theorem mem_of_get (h : get key k l = some e) : e ∈ l ∧ key e = k := by
  refine ⟨List.mem_of_find?_eq_some h, ?_⟩
  simpa using List.find?_some h

theorem key_ne_of_get_none (h : get key k l = none) (he : e ∈ l) : key e ≠ k := by
  simpa using List.find?_eq_none.mp h e he

theorem exists_get (h : ∃ e ∈ l, key e = k) : ∃ e ∈ l, get key k l = some e ∧ key e = k := by
  obtain ⟨e, he, rfl⟩ := h
  cases hget : get key (key e) l with
  | none => exact absurd rfl (key_ne_of_get_none hget he)
  | some e' =>
    obtain ⟨hmem, hkey⟩ := mem_of_get hget
    exact ⟨e', hmem, rfl, hkey⟩

theorem mem_remove : e ∈ remove key k l ↔ e ∈ l ∧ key e ≠ k := by
  simp [remove]

theorem mem_set : e' ∈ set key e l ↔ (e' ∈ l ∧ key e' ≠ key e) ∨ e' = e := by
  simp [set, mem_remove]

theorem exists_mem_set (h : ∃ e ∈ l, key e = k) (e' : α) : ∃ e ∈ set key e' l, key e = k := by
  obtain ⟨e, he, rfl⟩ := h
  by_cases hkey : key e = key e'
  · exact ⟨e', mem_set.mpr (.inr rfl), hkey.symm⟩
  · exact ⟨e, mem_set.mpr (.inl ⟨he, hkey⟩), rfl⟩

theorem Keyed.remove (h : Keyed key l) (k : κ) : Keyed key (remove key k l) :=
  (List.filter_sublist.map key).nodup h

theorem Keyed.set (h : Keyed key l) (e : α) : Keyed key (set key e l) := by
  unfold KeyedList.set Keyed
  rw [List.map_append, List.nodup_append]
  refine ⟨h.remove _, List.nodup_singleton _, ?_⟩
  intro k hk k' hk' heq
  obtain ⟨e', he', rfl⟩ := List.mem_map.mp hk
  rw [List.map_singleton, List.mem_singleton] at hk'
  exact (mem_remove.mp he').2 (heq.trans hk')

theorem get_set (e : α) (l : List α) (k : κ) :
    get key k (set key e l) = if k = key e then some e else get key k l := by
  unfold get set remove
  rw [List.find?_append, List.find?_filter]
  split_ifs with hk
  · subst hk
    rw [List.find?_eq_none.mpr fun e' _ => by simp, Option.none_or, List.find?_singleton]
    simp
  · have hsame : (fun e' => decide (decide (key e' ≠ key e) = true ∧ decide (key e' = k) = true)) =
        fun e' => decide (key e' = k) := by
      funext e'
      by_cases he' : key e' = k
      · simp [he', hk]
      · simp [he']
    rw [List.find?_singleton, hsame, if_neg (by simpa using Ne.symm hk), Option.or_none]

theorem remove_eq_self (h : get key k l = none) : KeyedList.remove key k l = l :=
  List.filter_eq_self.mpr fun e he => by simpa using key_ne_of_get_none h he

theorem sum_remove (f : α → ℕ) (h : Keyed key l) (he : e ∈ l) :
    ((KeyedList.remove key (key e) l).map f).sum + f e = (l.map f).sum := by
  induction l with
  | nil => cases he
  | cons x l ih =>
    have hx : key x ∉ l.map key := (List.nodup_cons.mp h).1
    have hl : Keyed key l := (List.nodup_cons.mp h).2
    obtain rfl | he := List.mem_cons.mp he
    · have hrest : KeyedList.remove key (key e) l = l := List.filter_eq_self.mpr fun y hy => by
        simpa using fun heq : key y = key e => hx (heq ▸ List.mem_map_of_mem hy)
      have hcons : KeyedList.remove key (key e) (e :: l) = KeyedList.remove key (key e) l := by
        simp [KeyedList.remove]
      rw [hcons, hrest, List.map_cons, List.sum_cons, Nat.add_comm]
    · have hne : key x ≠ key e := fun heq => hx (heq ▸ List.mem_map_of_mem he)
      have hcons : KeyedList.remove key (key e) (x :: l) = x :: KeyedList.remove key (key e) l := by
        simp [KeyedList.remove, hne]
      rw [hcons, List.map_cons, List.sum_cons, List.map_cons, List.sum_cons, Nat.add_assoc, ih hl he]

theorem sum_set (f : α → ℕ) (h : get key (key e) l = none) :
    ((KeyedList.set key e l).map f).sum = (l.map f).sum + f e := by
  rw [KeyedList.set, remove_eq_self h]
  simp

end KeyedList
