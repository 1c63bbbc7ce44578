/-
Encoders that write into memory.

Memory is a function from addresses to bytes.  An encoder is told where it writes and how many bytes
it has there; it returns how many it has used, or nothing where they are too few, and what it wrote
before stays.  One judgement says all that is needed of one:

* `Encodes e w` — where there is room `e` writes `w`, where there is none it fails, and in either
  case it touches nothing but the room it has.

It is closed under sequencing (`Encodes.andThen`, `Encodes.all`).
-/
import LibEltor.Bytes
import Mathlib.Data.List.GetD

open Bytes

abbrev Memory := ℕ → UInt8

namespace Memory

/-- `memcpy(mem + off, data, data.length)` -/
def write (mem : Memory) (off : ℕ) (data : Bytes) : Memory := fun i =>
  if off ≤ i ∧ i < off + data.length then data.getD (i - off) 0 else mem i

/-- `memset(mem + off, 0, n)` -/
def clear (mem : Memory) (off n : ℕ) : Memory := fun i =>
  if off ≤ i ∧ i < off + n then 0 else mem i

/-- The `n` bytes from `off` on. -/
def read (mem : Memory) (off n : ℕ) : Bytes := (List.range n).map fun i => mem (off + i)

@[simp] theorem length_read (mem : Memory) (off n : ℕ) : (mem.read off n).length = n := by
  simp [read]

def ChangesIn (off n : ℕ) (mem mem' : Memory) : Prop := ∀ i, i < off ∨ off + n ≤ i → mem' i = mem i

variable {mem mem' mem'' : Memory} {off n : ℕ}

theorem ChangesIn.refl (off n : ℕ) (mem : Memory) : ChangesIn off n mem mem := fun _ _ => rfl

theorem ChangesIn.trans (h : ChangesIn off n mem mem') (h' : ChangesIn off n mem' mem'') :
    ChangesIn off n mem mem'' := fun i hi => (h' i hi).trans (h i hi)

theorem ChangesIn.mono {off' n' : ℕ} (h : ChangesIn off' n' mem mem') (hlow : off ≤ off')
    (hhigh : off' + n' ≤ off + n) : ChangesIn off n mem mem' := by
  intro i hi
  apply h
  omega

theorem changesIn_write {off' : ℕ} {data : Bytes} (hlow : off ≤ off')
    (hhigh : off' + data.length ≤ off + n) (mem : Memory) :
    ChangesIn off n mem (mem.write off' data) := by
  intro i hi
  rw [write, if_neg]
  omega

theorem changesIn_clear (off n : ℕ) (mem : Memory) : ChangesIn off n mem (mem.clear off n) := by
  intro i hi
  rw [clear, if_neg]
  omega

theorem clear_apply {i : ℕ} (hlow : off ≤ i) (hhigh : i < off + n) (mem : Memory) :
    mem.clear off n i = 0 := if_pos ⟨hlow, hhigh⟩

@[simp] theorem write_nil (mem : Memory) (off : ℕ) : mem.write off [] = mem := by
  funext i
  rw [write, if_neg]
  simp

theorem write_append (mem : Memory) (off : ℕ) (a b : Bytes) :
    (mem.write off a).write (off + a.length) b = mem.write off (a ++ b) := by
  funext i
  simp only [write, List.length_append]
  by_cases ha : off ≤ i ∧ i < off + a.length
  · rw [if_neg (by omega), if_pos ha, if_pos (by omega),
      List.getD_append _ _ _ _ (by omega)]
  by_cases hb : off + a.length ≤ i ∧ i < off + a.length + b.length
  · rw [if_pos hb, if_pos (by omega), List.getD_append_right _ _ _ _ (by omega)]
    congr 1
    omega
  · rw [if_neg hb, if_neg ha, if_neg (by omega)]

theorem write_eq_self {data : Bytes} (h : ∀ i (hi : i < data.length), mem (off + i) = data[i]) :
    mem.write off data = mem := by
  funext i
  rw [write]
  split_ifs with hi
  · rw [List.getD_eq_getElem _ _ (by omega), ← h]
    congr 1
    omega
  · rfl

theorem read_write (mem : Memory) (off : ℕ) (data : Bytes) :
    (mem.write off data).read off data.length = data := by
  refine List.ext_getElem (by simp) fun i h _ => ?_
  rw [length_read] at h
  simp [read, write, h]

end Memory

/-- How many bytes are used, of the `avail` at `ptr`. -/
abbrev Encoder := (ptr avail : ℕ) → Memory → Option ℕ × Memory

namespace Encoder

open Memory

/-- Write `data`, if there is room. -/
def put (data : Bytes) : Encoder := fun ptr avail mem =>
  if avail < data.length then (none, mem) else (some data.length, mem.write ptr data)

def andThen (e f : Encoder) : Encoder := fun ptr avail mem =>
  match e ptr avail mem with
  | (none, mem) => (none, mem)
  | (some written, mem) =>
    let r := f (ptr + written) (avail - written) mem
    (r.1.map (written + ·), r.2)

def all : List Encoder → Encoder
  | [] => put []
  | e :: es => e.andThen (all es)

/-- `e` writes `w`, and touches nothing but the room it has. -/
structure Encodes (e : Encoder) (w : Bytes) : Prop where
  fits : ∀ ptr avail mem, w.length ≤ avail → e ptr avail mem = (some w.length, mem.write ptr w)
  truncated : ∀ ptr avail mem, avail < w.length → (e ptr avail mem).1 = none
  inside : ∀ ptr avail mem, ChangesIn ptr avail mem (e ptr avail mem).2

variable {e f : Encoder} {w w' : Bytes}

theorem encodes_put (data : Bytes) : Encodes (put data) data where
  fits ptr avail mem h := by rw [put, if_neg (by omega)]
  truncated ptr avail mem h := by rw [put, if_pos h]
  inside ptr avail mem := by
    rw [put]
    split_ifs with h
    · exact ChangesIn.refl ptr avail mem
    · exact changesIn_write le_rfl (by omega) mem

theorem andThen_of_none {ptr avail : ℕ} {mem : Memory} (h : (e ptr avail mem).1 = none) :
    e.andThen f ptr avail mem = e ptr avail mem := by
  rw [andThen]
  split
  · rename_i heq
    exact heq.symm
  · rename_i heq
    rw [heq] at h
    exact absurd h (by simp)

theorem Encodes.andThen_eq (he : Encodes e w) {ptr avail : ℕ} {mem : Memory}
    (hle : w.length ≤ avail) : e.andThen f ptr avail mem =
      ((f (ptr + w.length) (avail - w.length) (mem.write ptr w)).1.map (w.length + ·),
        (f (ptr + w.length) (avail - w.length) (mem.write ptr w)).2) := by
  rw [Encoder.andThen, he.fits _ _ _ hle]

theorem Encodes.andThen (he : Encodes e w) (hf : Encodes f w') :
    Encodes (e.andThen f) (w ++ w') where
  fits ptr avail mem h := by
    rw [List.length_append] at h
    rw [he.andThen_eq (by omega), hf.fits _ _ _ (by omega), write_append, List.length_append]
    rfl
  truncated ptr avail mem h := by
    rw [List.length_append] at h
    by_cases hw : w.length ≤ avail
    · rw [he.andThen_eq hw, hf.truncated _ _ _ (by omega)]
      rfl
    · have hnone := he.truncated ptr avail mem (by omega)
      rw [andThen_of_none hnone, hnone]
  inside ptr avail mem := by
    by_cases hw : w.length ≤ avail
    · have hwrite : ChangesIn ptr avail mem (mem.write ptr w) :=
        changesIn_write le_rfl (by omega) mem
      rw [he.andThen_eq hw]
      exact hwrite.trans ((hf.inside _ _ _).mono (by omega) (by omega))
    · rw [andThen_of_none (he.truncated ptr avail mem (by omega))]
      exact he.inside ptr avail mem

theorem Encodes.all {α : Type*} {enc : α → Encoder} {out : α → Bytes} {l : List α}
    (h : ∀ a ∈ l, Encodes (enc a) (out a)) : Encodes (Encoder.all (l.map enc)) (l.flatMap out) := by
  induction l with
  | nil => exact encodes_put []
  | cons a l ih =>
    rw [List.map_cons, List.flatMap_cons]
    exact (h a List.mem_cons_self).andThen (ih fun b hb => h b (List.mem_cons_of_mem _ hb))

end Encoder
