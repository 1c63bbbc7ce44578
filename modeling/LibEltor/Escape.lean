/-
Quoted strings: how a string is escaped for the log and the control port, and read back.

`escForLog` writes a string between double quotes, with an escape for what is not plain.
`unescapeString` accepts more than that: octal escapes of one to three digits and escapes in
hexadecimal.  It goes over its input twice, first to check it and then to decode it.
-/
import Mathlib.Data.List.Basic
import Mathlib.Tactic
import LibEltor.Versions

open Versions

namespace Escape

def torIsprint (c : UInt8) : Bool := decide (32 ≤ c ∧ c ≤ 126)

def torIsodigit (c : UInt8) : Bool := decide (48 ≤ c ∧ c ≤ 55)

def torIsxdigit (c : UInt8) : Bool :=
  decide ((48 ≤ c ∧ c ≤ 57) ∨ (65 ≤ c ∧ c ≤ 70) ∨ (97 ≤ c ∧ c ≤ 102))

/-- A byte in the format `\%03o`. -/
def octal (c : UInt8) : Bytes := [92, 48 + c / 64, 48 + c / 8 % 8, 48 + c % 8]

def escChar (c : UInt8) : Bytes :=
  if c = 92 ∨ c = 34 ∨ c = 39 then [92, c]
  else if c = 10 then [92, 110]
  else if c = 9 then [92, 116]
  else if c = 13 then [92, 114]
  else if torIsprint c ∧ c < 127 then [c]
  else octal c

def escForLog (s : Bytes) : Bytes := 34 :: (s.flatMap escChar ++ [34])

/-! ### Reading -/

def skipOdigit (cp : Bytes) : Bytes := if torIsodigit (cp.headD 0) then cp.tail else cp

/-- One step of the first pass, at a byte that is no quote.  The end of the input counts as the
NUL that terminates it. -/
def skipChar : Bytes → Option Bytes
  | [] => none
  | c :: cp =>
    if c = 0 ∨ c = 10 then none
    else if c = 92 then
      if cp.headD 0 = 120 ∨ cp.headD 0 = 88 then
        if torIsxdigit (cp.getD 1 0) ∧ torIsxdigit (cp.getD 2 0) then some (cp.drop 3) else none
      else if torIsodigit (cp.headD 0) then some (skipOdigit (skipOdigit cp.tail))
      else if cp.headD 0 ∈ ([110, 114, 116, 34, 92, 39] : Bytes) then some cp.tail
      else none
    else some cp

/-- The first pass: is there a closing quote behind well-formed bytes? -/
def scanLoop : ℕ → Bytes → Bool
  | 0, _ => false
  | fuel + 1, cp =>
    if cp.headD 0 = 34 then true
    else
      match skipChar cp with
      | none => false
      | some cp => scanLoop fuel cp

def addOdigit (p : ℕ × Bytes) : ℕ × Bytes :=
  if torIsodigit (p.2.headD 0) then (p.1 * 8 + ((p.2.headD 0).toNat - 48), p.2.tail) else p

/-- What an escape stands for; `cp` is behind the backslash. -/
def takeEscape : Bytes → Option (UInt8 × Bytes)
  | [] => none
  | d :: cp =>
    if d = 110 then some (10, cp)
    else if d = 114 then some (13, cp)
    else if d = 116 then some (9, cp)
    else if d = 120 ∨ d = 88 then do
      let x1 ← hexDecodeDigit (cp.headD 0)
      let x2 ← hexDecodeDigit (cp.getD 1 0)
      some (UInt8.ofNat (x1 * 16 + x2), cp.drop 2)
    else if torIsodigit d then
      let p := addOdigit (addOdigit (d.toNat - 48, cp))
      if p.1 > 255 then none else some (UInt8.ofNat p.1, p.2)
    else if d ∈ ([39, 34, 92, 63] : Bytes) then some (d, cp)
    else none

def takeChar : Bytes → Option (UInt8 × Bytes)
  | [] => none
  | c :: cp => if c = 0 then none else if c = 92 then takeEscape cp else some (c, cp)

/-- The second pass: the decoded bytes, and what is behind the closing quote. -/
def decodeLoop : ℕ → Bytes → Option (Bytes × Bytes)
  | 0, _ => none
  | fuel + 1, cp =>
    if cp.headD 0 = 34 then some ([], cp.tail)
    else do
      let (c, cp) ← takeChar cp
      let (out, cp) ← decodeLoop fuel cp
      some (c :: out, cp)

def unescapeString (s : Bytes) : Option (Bytes × Bytes) :=
  if s.headD 0 ≠ 34 then none
  else if scanLoop s.length s.tail then decodeLoop s.length s.tail
  else none

/-! ### What is written is read -/

theorem octal_digits (c : UInt8) :
    torIsodigit (48 + c / 64) ∧ torIsodigit (48 + c / 8 % 8) ∧ torIsodigit (48 + c % 8) ∧
      (((48 + c / 64).toNat - 48) * 8 + ((48 + c / 8 % 8).toNat - 48)) * 8 +
        ((48 + c % 8).toNat - 48) = c.toNat := by
  have hc : c.toNat < 256 := c.toNat_lt
  have hhigh : (48 + c / 64).toNat = 48 + c.toNat / 64 := by
    rw [UInt8.toNat_add, UInt8.toNat_div]
    show (48 + c.toNat / 64) % 256 = _
    omega
  have hmid : (48 + c / 8 % 8).toNat = 48 + c.toNat / 8 % 8 := by
    rw [UInt8.toNat_add, UInt8.toNat_mod, UInt8.toNat_div]
    show (48 + c.toNat / 8 % 8) % 256 = _
    omega
  have hlow : (48 + c % 8).toNat = 48 + c.toNat % 8 := by
    rw [UInt8.toNat_add, UInt8.toNat_mod]
    show (48 + c.toNat % 8) % 256 = _
    omega
  simp only [torIsodigit, decide_eq_true_eq, UInt8.le_iff_toNat_le, hhigh, hmid, hlow]
  refine ⟨⟨?_, ?_⟩, ⟨?_, ?_⟩, ⟨?_, ?_⟩, by omega⟩
  all_goals
    simp only [UInt8.reduceToNat]
    omega

theorem escChar_cases (c : UInt8) :
    (escChar c = [92, c] ∧ (c = 92 ∨ c = 34 ∨ c = 39)) ∨ (escChar c = [92, 110] ∧ c = 10) ∨
      (escChar c = [92, 116] ∧ c = 9) ∨ (escChar c = [92, 114] ∧ c = 13) ∨
      (escChar c = [c] ∧ 32 ≤ c ∧ c ≠ 92 ∧ c ≠ 34) ∨ escChar c = octal c := by
  unfold escChar
  split_ifs with hquote hn ht hr hplain
  · exact Or.inl ⟨rfl, hquote⟩
  · exact Or.inr (Or.inl ⟨rfl, hn⟩)
  · exact Or.inr (Or.inr (Or.inl ⟨rfl, ht⟩))
  · exact Or.inr (Or.inr (Or.inr (Or.inl ⟨rfl, hr⟩)))
  · have hprint := of_decide_eq_true hplain.1
    refine Or.inr (Or.inr (Or.inr (Or.inr (Or.inl ⟨rfl, hprint.1, ?_, ?_⟩))))
    · exact fun h => hquote (Or.inl h)
    · exact fun h => hquote (Or.inr (Or.inl h))
  · exact Or.inr (Or.inr (Or.inr (Or.inr (Or.inr rfl))))

theorem headD_escChar (c : UInt8) (t : Bytes) : (escChar c ++ t).headD 0 ≠ 34 := by
  rcases escChar_cases c with ⟨h, -⟩ | ⟨h, -⟩ | ⟨h, -⟩ | ⟨h, -⟩ | ⟨h, -, -, hc⟩ | h
  case inr.inr.inr.inr.inl => simpa [h] using hc
  all_goals simp [h, octal]

theorem skipOdigit_cons {c : UInt8} (h : torIsodigit c) (t : Bytes) : skipOdigit (c :: t) = t :=
  if_pos h

theorem addOdigit_cons {c : UInt8} (h : torIsodigit c) (n : ℕ) (t : Bytes) :
    addOdigit (n, c :: t) = (n * 8 + (c.toNat - 48), t) :=
  if_pos h

theorem ne_of_torIsodigit {c d : UInt8} (h : torIsodigit c) (hd : 56 ≤ d) : c ≠ d := by
  rintro rfl
  have hle : c ≤ 55 := (of_decide_eq_true h).2
  exact absurd (UInt8.le_trans hd hle) (by decide)

theorem skipChar_escChar (c : UInt8) (t : Bytes) : skipChar (escChar c ++ t) = some t := by
  rcases escChar_cases c with ⟨h, hc⟩ | ⟨h, -⟩ | ⟨h, -⟩ | ⟨h, -⟩ | ⟨h, hle, hslash, -⟩ | h
  · rcases hc with rfl | rfl | rfl <;> rw [h] <;> rfl
  · rw [h]
    rfl
  · rw [h]
    rfl
  · rw [h]
    rfl
  · rw [h]
    have hctl : ¬(c = 0 ∨ c = 10) := by
      rintro (rfl | rfl) <;> exact absurd hle (by decide)
    simp [skipChar, hctl, hslash]
  · obtain ⟨hhigh, hmid, hlow, -⟩ := octal_digits c
    rw [h]
    show (if (48 + c / 64 = 120 ∨ 48 + c / 64 = 88) then _ else _) = some t
    rw [if_neg (not_or.mpr ⟨ne_of_torIsodigit hhigh (by decide),
      ne_of_torIsodigit hhigh (by decide)⟩)]
    show (if torIsodigit (48 + c / 64) then some (skipOdigit (skipOdigit (_ :: _ :: t))) else _) = _
    rw [if_pos hhigh, skipOdigit_cons hmid, skipOdigit_cons hlow]

theorem takeChar_escChar (c : UInt8) (t : Bytes) : takeChar (escChar c ++ t) = some (c, t) := by
  rcases escChar_cases c with ⟨h, hc⟩ | ⟨h, rfl⟩ | ⟨h, rfl⟩ | ⟨h, rfl⟩ | ⟨h, hle, hslash, -⟩ | h
  · rcases hc with rfl | rfl | rfl <;> rw [h] <;> rfl
  · rw [h]
    rfl
  · rw [h]
    rfl
  · rw [h]
    rfl
  · rw [h]
    have hzero : c ≠ 0 := by
      rintro rfl
      exact absurd hle (by decide)
    simp [takeChar, hzero, hslash]
  · obtain ⟨hhigh, hmid, hlow, hvalue⟩ := octal_digits c
    rw [h]
    show takeEscape ((48 + c / 64) :: (48 + c / 8 % 8) :: (48 + c % 8) :: t) = some (c, t)
    have hn : ∀ d : UInt8, 56 ≤ d → 48 + c / 64 ≠ d := fun d => ne_of_torIsodigit hhigh
    simp only [takeEscape, hn 110 (by decide), hn 114 (by decide), hn 116 (by decide),
      hn 120 (by decide), hn 88 (by decide), hhigh, or_self, if_true, if_false,
      addOdigit_cons hmid, addOdigit_cons hlow, hvalue]
    rw [if_neg (by have := c.toNat_lt; omega), UInt8.ofNat_toNat]

theorem scanLoop_flatMap (s t : Bytes) {fuel : ℕ} (hfuel : s.length < fuel) :
    scanLoop fuel (s.flatMap escChar ++ 34 :: t) = true := by
  induction s generalizing fuel with
  | nil =>
    obtain ⟨fuel, rfl⟩ := Nat.exists_eq_succ_of_ne_zero (by omega : fuel ≠ 0)
    rfl
  | cons c s ih =>
    obtain ⟨fuel, rfl⟩ := Nat.exists_eq_succ_of_ne_zero (by omega : fuel ≠ 0)
    rw [List.flatMap_cons, List.append_assoc, scanLoop, if_neg (headD_escChar c _),
      skipChar_escChar]
    exact ih (Nat.lt_of_succ_lt_succ hfuel)

theorem decodeLoop_flatMap (s t : Bytes) {fuel : ℕ} (hfuel : s.length < fuel) :
    decodeLoop fuel (s.flatMap escChar ++ 34 :: t) = some (s, t) := by
  induction s generalizing fuel with
  | nil =>
    obtain ⟨fuel, rfl⟩ := Nat.exists_eq_succ_of_ne_zero (by omega : fuel ≠ 0)
    rfl
  | cons c s ih =>
    obtain ⟨fuel, rfl⟩ := Nat.exists_eq_succ_of_ne_zero (by omega : fuel ≠ 0)
    rw [List.flatMap_cons, List.append_assoc, decodeLoop, if_neg (headD_escChar c _),
      takeChar_escChar]
    show ((decodeLoop fuel _).bind fun p => some (c :: p.1, p.2)) = _
    rw [ih (Nat.lt_of_succ_lt_succ hfuel)]
    rfl

theorem length_le_flatMap_escChar (s : Bytes) : s.length ≤ (s.flatMap escChar).length := by
  induction s with
  | nil => exact Nat.le_refl 0
  | cons c s ih =>
    have hpos : 0 < (escChar c).length := by
      rcases escChar_cases c with ⟨h, -⟩ | ⟨h, -⟩ | ⟨h, -⟩ | ⟨h, -⟩ | ⟨h, -⟩ | h
      all_goals simp [h, octal]
    rw [List.flatMap_cons, List.length_append, List.length_cons]
    omega

/-- **Reading undoes writing**, for every string and whatever follows. -/
theorem unescapeString_escForLog (s t : Bytes) :
    unescapeString (escForLog s ++ t) = some (s, t) := by
  have hshape : escForLog s ++ t = 34 :: (s.flatMap escChar ++ 34 :: t) := by
    simp [escForLog]
  have hfuel : s.length < (34 :: (s.flatMap escChar ++ 34 :: t)).length := by
    have hle := length_le_flatMap_escChar s
    rw [List.length_cons, List.length_append, List.length_cons]
    omega
  rw [hshape, unescapeString, if_neg (by simp), List.tail_cons, if_pos (scanLoop_flatMap s t hfuel),
    decodeLoop_flatMap s t hfuel]

theorem addOdigit_suffix (p : ℕ × Bytes) : (addOdigit p).2 <:+ p.2 := by
  unfold addOdigit
  split_ifs
  · exact List.tail_suffix _
  · exact List.suffix_refl _

theorem takeEscape_suffix {cp rest : Bytes} {c : UInt8} (h : takeEscape cp = some (c, rest)) :
    rest <:+ cp := by
  cases cp with
  | nil => cases h
  | cons d cp =>
    refine List.IsSuffix.trans ?_ (List.suffix_cons d cp)
    rw [takeEscape] at h
    split_ifs at h with hn hr ht hx hdigit
    · cases h
      exact List.suffix_refl _
    · cases h
      exact List.suffix_refl _
    · cases h
      exact List.suffix_refl _
    · simp only [Option.bind_eq_bind, Option.bind_eq_some_iff] at h
      obtain ⟨x1, -, x2, -, h⟩ := h
      cases h
      exact List.drop_suffix 2 cp
    · dsimp only at h
      split_ifs at h
      cases h
      exact (addOdigit_suffix _).trans (addOdigit_suffix _)
    · cases h
      exact List.suffix_refl _

theorem takeChar_suffix {cp rest : Bytes} {c : UInt8} (h : takeChar cp = some (c, rest)) :
    rest <:+ cp := by
  cases cp with
  | nil => cases h
  | cons d cp =>
    refine List.IsSuffix.trans ?_ (List.suffix_cons d cp)
    rw [takeChar] at h
    split_ifs at h
    · exact takeEscape_suffix h
    · cases h
      exact List.suffix_refl _

theorem decodeLoop_suffix {fuel : ℕ} {cp out rest : Bytes}
    (h : decodeLoop fuel cp = some (out, rest)) : rest <:+ cp := by
  induction fuel generalizing cp out with
  | zero => cases h
  | succ fuel ih =>
    rw [decodeLoop] at h
    split_ifs at h
    · cases h
      exact List.tail_suffix cp
    · simp only [Option.bind_eq_bind, Option.bind_eq_some_iff] at h
      obtain ⟨⟨c, cp'⟩, hchar, ⟨out', rest'⟩, hloop, h⟩ := h
      cases h
      exact (ih hloop).trans (takeChar_suffix hchar)

theorem unescapeString_suffix {s out rest : Bytes} (h : unescapeString s = some (out, rest)) :
    rest <:+ s.tail := by
  rw [unescapeString] at h
  split_ifs at h
  exact decodeLoop_suffix h

end Escape
