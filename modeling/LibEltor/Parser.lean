/-
Parsers that read a value off the front of a byte string.

A parser returns a value and what it left.  Two judgements say all that is ever
needed of one:

* `Reads p w a` — in front of anything, `p` reads `w` as `a` and stops behind it;
* `Framed p` — whatever `p` accepts, it accepts by reading some `w` off the
  front, so what follows `w` has no influence.

Both are closed under sequencing (`Reads.bind`, `Framed.bind`) and counted
repetition (`Reads.repeatN`, `Framed.repeatN`).
-/
import LibEltor.Bytes
import Mathlib.Control.Monad.Basic

open Bytes

/-- A parser of values of type `α` over byte strings. -/
abbrev Parser (α : Type) := StateT Bytes Option α

namespace Parser

variable {α β : Type}

/-- In front of anything, `p` reads `w` as `a`. -/
def Reads (p : Parser α) (w : Bytes) (a : α) : Prop :=
  ∀ t, p (w ++ t) = some (a, t)

/-- What `p` accepts, it reads off the front. -/
def Framed (p : Parser α) : Prop :=
  ∀ ⦃s a r⦄, p s = some (a, r) → ∃ w, s = w ++ r ∧ p.Reads w a

/-! ### Reading bytes -/

def fail : Parser α := fun _ => none

/-- The next `n` bytes. -/
def takeN (n : ℕ) : Parser Bytes := fun s =>
  if n ≤ s.length then some (s.take n, s.drop n) else none

/-- The next `n` bytes, as an array. -/
def block (n : ℕ) : Parser (Block n) := fun s =>
  if h : n ≤ s.length then some (⟨s.take n, List.length_take_of_le h⟩, s.drop n) else none

def u8 : Parser UInt8 := fun s =>
  match s with
  | [] => none
  | b :: t => some (b, t)

def u16 : Parser UInt16 := do return getBe16 (← takeN 2)

def u32 : Parser UInt32 := do return getBe32 (← takeN 4)

/-- `n` values one after the other. -/
def repeatN (p : Parser α) : ℕ → Parser (List α)
  | 0 => pure []
  | n + 1 => do
    let a ← p
    let as ← repeatN p n
    return a :: as

theorem bind_eq_some {p : Parser α} {f : α → Parser β} {s r : Bytes} {b : β} :
    (p >>= f) s = some (b, r) ↔ ∃ a t, p s = some (a, t) ∧ f a t = some (b, r) := by
  show (p s).bind (fun x => f x.1 x.2) = some (b, r) ↔ _
  rw [Option.bind_eq_some_iff]
  constructor
  · rintro ⟨⟨a, t⟩, h1, h2⟩
    exact ⟨a, t, h1, h2⟩
  · rintro ⟨a, t, h1, h2⟩
    exact ⟨(a, t), h1, h2⟩

/-! ### Reading what was written -/

theorem Reads.pure (a : α) : Reads (Pure.pure a) [] a := fun _ => rfl

theorem Reads.bind {p : Parser α} {f : α → Parser β} {w v : Bytes} {a : α} {b : β}
    (hp : p.Reads w a) (hf : (f a).Reads v b) : (p >>= f).Reads (w ++ v) b := by
  intro t
  rw [List.append_assoc, bind_eq_some]
  exact ⟨a, v ++ t, hp (v ++ t), hf t⟩

theorem Reads.map {p : Parser α} {w : Bytes} {a : α} (hp : p.Reads w a) (f : α → β) :
    (p >>= fun a => Pure.pure (f a)).Reads w (f a) := by
  have h : (p >>= fun a => Pure.pure (f a)).Reads (w ++ []) (f a) := hp.bind (Reads.pure (f a))
  rwa [List.append_nil] at h

theorem reads_takeN {w : Bytes} {n : ℕ} (h : w.length = n) : (takeN n).Reads w w := by
  intro t
  subst h
  rw [takeN, if_pos (by simp), List.take_left, List.drop_left]

theorem reads_block {n : ℕ} (b : Block n) : (block n).Reads b.toList b := by
  intro t
  obtain ⟨l, rfl⟩ := b
  show block l.length (l ++ t) = some (⟨l, rfl⟩, t)
  rw [block, dif_pos (by simp)]
  simp only [List.take_left, List.drop_left]

theorem reads_u8 (b : UInt8) : u8.Reads [b] b := fun _ => rfl

theorem reads_u16 (n : UInt16) : u16.Reads (be16 n) n := by
  have h := (reads_takeN (length_be16 n)).map getBe16
  rwa [getBe16_be16_self] at h

theorem reads_u32 (n : UInt32) : u32.Reads (be32 n) n := by
  have h := (reads_takeN (length_be32 n)).map getBe32
  rwa [getBe32_be32_self] at h

theorem Reads.repeatN {p : Parser α} {enc : α → Bytes} :
    ∀ {as : List α}, (∀ a ∈ as, p.Reads (enc a) a) →
      (repeatN p as.length).Reads (as.flatMap enc) as := by
  intro as
  induction as with
  | nil => exact fun _ => Reads.pure []
  | cons a as ih =>
    intro h
    have ha : p.Reads (enc a) a := h a List.mem_cons_self
    have has := ih fun b hb => h b (List.mem_cons_of_mem a hb)
    rw [List.flatMap_cons]
    exact ha.bind (has.map (a :: ·))

/-! ### Input that was accepted -/

theorem Framed.pure (a : α) : Framed (Pure.pure a : Parser α) := by
  intro s b r h
  have hsome : some (a, s) = some (b, r) := h
  obtain ⟨rfl, rfl⟩ := Prod.mk.injEq .. ▸ Option.some_inj.mp hsome
  exact ⟨[], rfl, Reads.pure a⟩

theorem Framed.fail : Framed (fail : Parser α) := by
  intro s a r h
  exact absurd h (by simp [Parser.fail])

theorem Framed.bind {p : Parser α} {f : α → Parser β} (hp : p.Framed)
    (hf : ∀ a, (f a).Framed) : (p >>= f).Framed := by
  intro s b r h
  obtain ⟨a, t, h1, h2⟩ := bind_eq_some.mp h
  obtain ⟨w, rfl, hw⟩ := hp h1
  obtain ⟨v, rfl, hv⟩ := hf a h2
  exact ⟨w ++ v, (List.append_assoc w v r).symm, hw.bind hv⟩

theorem Framed.ite {p q : Parser α} {c : Prop} [Decidable c] (hp : p.Framed) (hq : q.Framed) :
    (if c then p else q).Framed := by
  split_ifs
  · exact hp
  · exact hq

theorem framed_takeN (n : ℕ) : (takeN n).Framed := by
  intro s w r h
  unfold takeN at h
  split_ifs at h with hn
  obtain ⟨rfl, rfl⟩ : s.take n = w ∧ s.drop n = r := by simpa using h
  exact ⟨s.take n, (List.take_append_drop n s).symm, reads_takeN (List.length_take_of_le hn)⟩

theorem framed_block (n : ℕ) : (block n).Framed := by
  intro s b r h
  unfold block at h
  split_ifs at h with hn
  obtain ⟨rfl, rfl⟩ := Prod.mk.injEq .. ▸ Option.some_inj.mp h
  exact ⟨s.take n, (List.take_append_drop n s).symm, reads_block ⟨s.take n, _⟩⟩

theorem framed_u8 : u8.Framed := by
  intro s b r h
  cases s with
  | nil => exact absurd h (by simp [u8])
  | cons c t =>
    obtain ⟨rfl, rfl⟩ : c = b ∧ t = r := by simpa [u8] using h
    exact ⟨[c], rfl, reads_u8 c⟩

theorem framed_u16 : u16.Framed := (framed_takeN 2).bind fun _ => Framed.pure _

theorem framed_u32 : u32.Framed := (framed_takeN 4).bind fun _ => Framed.pure _

theorem Framed.repeatN {p : Parser α} (hp : p.Framed) : ∀ n, (repeatN p n).Framed := by
  intro n
  induction n with
  | zero => exact Framed.pure []
  | succ n ih => exact hp.bind fun a => ih.bind fun as => Framed.pure (a :: as)

theorem Framed.append {p : Parser α} (hp : p.Framed) {s r : Bytes} {a : α}
    (h : p s = some (a, r)) (t : Bytes) : p (s ++ t) = some (a, r ++ t) := by
  obtain ⟨w, rfl, hw⟩ := hp h
  rw [List.append_assoc]
  exact hw (r ++ t)

theorem Framed.isSuffix {p : Parser α} (hp : p.Framed) {s r : Bytes} {a : α}
    (h : p s = some (a, r)) : r <:+ s := by
  obtain ⟨w, rfl, -⟩ := hp h
  exact List.suffix_append w r

end Parser
