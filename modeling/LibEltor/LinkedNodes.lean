/-
Singly linked lists in a memory of nodes, built at their end.

A node is named by its place in the memory, and new nodes are put at the end of it.  A list under
construction is kept with the place where the pointer to what comes next is to be stored: the
variable that holds the list, or the `next` of its last node.
-/
import Mathlib.Data.List.Basic
import Mathlib.Tactic

namespace LinkedNodes

variable {α : Type*}

structure Node (α : Type*) where
  val : α
  next : Option ℕ

/-- Where a pointer is stored. -/
inductive Slot
  | head
  | next (p : ℕ)

structure Builder where
  head : Option ℕ
  slot : Slot

def newBuilder : Builder := ⟨none, .head⟩

/-- `*next = p` -/
def store (nodes : List (Node α)) (b : Builder) (p : Option ℕ) : List (Node α) × Builder :=
  match b.slot with
  | .head => (nodes, ⟨p, .head⟩)
  | .next last => (nodes.modify last fun n => ⟨n.val, p⟩, b)

/-- The values of the nodes from `p` on, along the pointers. -/
def IsList (nodes : List (Node α)) : Option ℕ → List α → Prop
  | p, [] => p = none
  | p, x :: l => ∃ i next, p = some i ∧ nodes[i]? = some ⟨x, next⟩ ∧ IsList nodes next l

/-! ### Nodes in a row -/

/-- The nodes of a list from place `base` on, of which the last points to `p`. -/
def segment (base : ℕ) (p : Option ℕ) : List α → List (Node α)
  | [] => []
  | x :: l => ⟨x, if l.isEmpty then p else some (base + 1)⟩ :: segment (base + 1) p l

def headPtr (base : ℕ) (l : List α) : Option ℕ := if l.isEmpty then none else some base

def lastPtr (base : ℕ) (l : List α) : Option ℕ :=
  if l.isEmpty then none else some (base + (l.length - 1))

def slotOf (base : ℕ) (l : List α) : Slot :=
  if l.isEmpty then .head else .next (base + (l.length - 1))

def builderOf (base : ℕ) (l : List α) : Builder := ⟨headPtr base l, slotOf base l⟩

@[simp] theorem length_segment (base : ℕ) (p : Option ℕ) (l : List α) :
    (segment base p l).length = l.length := by
  induction l generalizing base with
  | nil => rfl
  | cons x l ih => rw [segment, List.length_cons, ih, List.length_cons]

theorem segment_append (base : ℕ) (p : Option ℕ) (a c : List α) :
    segment base p (a ++ c) =
      segment base (if c.isEmpty then p else some (base + a.length)) a ++
        segment (base + a.length) p c := by
  induction a generalizing base with
  | nil => rfl
  | cons x a ih =>
    have hbase : base + 1 + a.length = base + (x :: a).length := by
      rw [List.length_cons]
      omega
    rw [List.cons_append, segment, ih, segment, List.cons_append, hbase]
    cases a with
    | nil => cases c <;> rfl
    | cons y a => rfl

theorem modify_segment (base : ℕ) (p q : Option ℕ) {l : List α} (hl : l ≠ []) :
    (segment base p l).modify (l.length - 1) (fun n => ⟨n.val, q⟩) = segment base q l := by
  induction l generalizing base with
  | nil => exact absurd rfl hl
  | cons x l ih =>
    cases l with
    | nil => rfl
    | cons y l =>
      have h := ih (base + 1) (List.cons_ne_nil y l)
      show _ :: (segment (base + 1) p (y :: l)).modify _ _ = _ :: segment (base + 1) q (y :: l)
      rw [← h]
      rfl

theorem modify_middle (f : Node α → Node α) (a b c : List (Node α)) {i : ℕ} (hi : i < b.length) :
    (a ++ b ++ c).modify (a.length + i) f = a ++ b.modify i f ++ c := by
  have hfront : (b ++ c).modify i f = b.modify i f ++ c := by
    induction b generalizing i with
    | nil => exact absurd hi (Nat.not_lt_zero i)
    | cons x b ih =>
      cases i with
      | zero => rfl
      | succ i =>
        rw [List.cons_append, List.modify_succ_cons, ih (Nat.lt_of_succ_lt_succ hi)]
        rfl
  rw [List.append_assoc, List.append_assoc, ← hfront]
  exact List.modifyTailIdx_add _ i a (b ++ c)

/-- **Joining**: the list from behind is stored where the one in front ends. -/
theorem store_headPtr (old : List (Node α)) (a c : List α) :
    store (old ++ segment old.length none a ++ segment (old.length + a.length) none c)
        (builderOf old.length a) (headPtr (old.length + a.length) c) =
      (old ++ segment old.length none (a ++ c),
        ⟨headPtr old.length (a ++ c), slotOf old.length a⟩) := by
  cases a with
  | nil =>
    show (old ++ [] ++ segment (old.length + 0) none c, Builder.mk (headPtr (old.length + 0) c) _) = _
    rw [List.append_nil, Nat.add_zero]
    rfl
  | cons x a =>
    have hne : x :: a ≠ [] := List.cons_ne_nil x a
    have hptr : headPtr (old.length + (x :: a).length) c =
        if c.isEmpty then none else some (old.length + (x :: a).length) := rfl
    have hsegment := modify_segment old.length none (headPtr (old.length + (x :: a).length) c) hne
    show ((old ++ segment old.length none (x :: a) ++ _).modify
      (old.length + ((x :: a).length - 1)) _, _) = _
    rw [modify_middle _ _ _ _ (by simp), hsegment, segment_append, hptr, List.append_assoc]
    rfl

theorem lastIndex_append (base : ℕ) (a : List α) (y : α) (c : List α) :
    base + ((a ++ y :: c).length - 1) = base + a.length + ((y :: c).length - 1) := by
  rw [List.length_append, List.length_cons]
  omega

theorem slotOf_append (base : ℕ) (a c : List α) :
    slotOf base (a ++ c) =
      if c.isEmpty then slotOf base a else .next (base + a.length + (c.length - 1)) := by
  cases c with
  | nil => rw [List.append_nil]; rfl
  | cons y c =>
    have hempty : (a ++ y :: c).isEmpty = false := by simp
    rw [slotOf, hempty, lastIndex_append]
    rfl

theorem lastPtr_append (base : ℕ) (a c : List α) :
    lastPtr base (a ++ c) = if c.isEmpty then lastPtr base a else lastPtr (base + a.length) c := by
  cases c with
  | nil => rw [List.append_nil]; rfl
  | cons y c =>
    have hempty : (a ++ y :: c).isEmpty = false := by simp
    rw [lastPtr, hempty, lastIndex_append]
    rfl

theorem isList_segment {nodes : List (Node α)} {base : ℕ} {l : List α}
    (h : ∀ i < l.length, nodes[base + i]? = (segment base none l)[i]?) :
    IsList nodes (headPtr base l) l := by
  induction l generalizing base with
  | nil => rfl
  | cons x l ih =>
    refine ⟨base, if l.isEmpty then none else some (base + 1), rfl, ?_, ?_⟩
    · exact h 0 (Nat.zero_lt_succ _)
    · refine ih fun i hi => ?_
      have hnode := h (i + 1) (Nat.succ_lt_succ hi)
      rw [segment, List.getElem?_cons_succ] at hnode
      rw [← hnode]
      congr 1
      omega

theorem isList_append_segment (old : List (Node α)) (l : List α) :
    IsList (old ++ segment old.length none l) (headPtr old.length l) l := by
  refine isList_segment fun i _ => ?_
  rw [List.getElem?_append_right (Nat.le_add_right _ _), Nat.add_sub_cancel_left]

end LinkedNodes
