/-
Splitting a string into words (`lib/smartlist_core/smartlist_split.c`).

`splitString sep str` is `smartlist_split_string` with the flags the controller
uses, `SPLIT_SKIP_SPACE | SPLIT_IGNORE_BLANK`, and no limit on the pieces.
-/
import LibEltor.Bytes
import Mathlib.Data.List.DropRight

open Bytes

namespace Smartlist

def torIsspace (b : UInt8) : Bool := (9 ≤ b && b ≤ 13) || b = 32

/-- The bytes from `cp` to `end`, when both have been moved over white space. -/
def firstPiece (sep : UInt8) (str : Bytes) : Bytes :=
  ((str.dropWhile torIsspace).takeWhile (· ≠ sep)).rdropWhile torIsspace

def fromSep (sep : UInt8) (str : Bytes) : Bytes :=
  (str.dropWhile torIsspace).dropWhile (· ≠ sep)

theorem length_fromSep_le (sep : UInt8) (str : Bytes) : (fromSep sep str).length ≤ str.length :=
  (List.dropWhile_suffix _).length_le.trans (List.dropWhile_suffix _).length_le

def splitString (sep : UInt8) (str : Bytes) : List Bytes :=
  let piece := firstPiece sep str
  let rest :=
    match _h : fromSep sep str with
    | [] => []
    | _ :: next => splitString sep next
  if piece ≠ [] then piece :: rest else rest
termination_by str.length
decreasing_by
  have hle := length_fromSep_le sep str
  rw [_h, List.length_cons] at hle
  exact hle

theorem splitString_eq (sep : UInt8) (str : Bytes) :
    splitString sep str =
      (if firstPiece sep str ≠ [] then [firstPiece sep str] else []) ++
        match fromSep sep str with
        | [] => []
        | _ :: next => splitString sep next := by
  have hrest : (match _h : fromSep sep str with
      | [] => []
      | _ :: next => splitString sep next) =
      match fromSep sep str with
      | [] => []
      | _ :: next => splitString sep next := by
    cases fromSep sep str <;> rfl
  rw [splitString, hrest]
  split_ifs <;> rfl

/-! ### What a piece looks like -/

/-- `w` does not begin with white space. -/
def Begins (w : Bytes) : Prop := ∀ b ∈ w.head?, torIsspace b = false

theorem begins_dropWhile (str : Bytes) : Begins (str.dropWhile torIsspace) := by
  intro b hb
  have hhead := List.head?_dropWhile_not torIsspace str
  rw [Option.mem_def.mp hb] at hhead
  exact hhead

theorem Begins.dropWhile_eq {w : Bytes} (h : Begins w) : w.dropWhile torIsspace = w := by
  cases w with
  | nil => rfl
  | cons b w => rw [List.dropWhile_cons_of_neg (by simp [h b rfl])]

theorem Begins.of_isPrefix {v w : Bytes} (h : Begins w) (hv : v <+: w) : Begins v := by
  obtain ⟨t, rfl⟩ := hv
  cases v with
  | nil => exact fun b hb => absurd hb (by simp)
  | cons b v => exact h

theorem firstPiece_isPrefix (sep : UInt8) (str : Bytes) :
    firstPiece sep str <+: str.dropWhile torIsspace :=
  List.IsPrefix.trans (List.rdropWhile_prefix _ _) (List.takeWhile_prefix _)

theorem begins_firstPiece (sep : UInt8) (str : Bytes) : Begins (firstPiece sep str) :=
  (begins_dropWhile str).of_isPrefix (firstPiece_isPrefix sep str)

theorem sep_notMem_firstPiece (sep : UInt8) (str : Bytes) : sep ∉ firstPiece sep str := by
  intro hmem
  have htake := (List.rdropWhile_prefix _ _).subset hmem
  simpa using List.mem_takeWhile_imp htake

theorem length_firstPiece_le (sep : UInt8) (str : Bytes) :
    (firstPiece sep str).length ≤ str.length :=
  (firstPiece_isPrefix sep str).length_le.trans (List.dropWhile_suffix _).length_le

theorem mem_splitString {sep : UInt8} {str piece : Bytes} (h : piece ∈ splitString sep str) :
    piece ≠ [] ∧ Begins piece ∧ sep ∉ piece ∧ piece.length ≤ str.length := by
  induction hn : str.length using Nat.strong_induction_on generalizing str with
  | _ n ih =>
    rw [splitString_eq, List.mem_append] at h
    rcases h with h | h
    · split_ifs at h with hne
      · obtain rfl := List.mem_singleton.mp h
        exact ⟨hne, begins_firstPiece sep str, sep_notMem_firstPiece sep str,
          hn ▸ length_firstPiece_le sep str⟩
      · exact absurd h (by simp)
    · split at h
      · exact absurd h (by simp)
      · rename_i b next hnext
        have hle := length_fromSep_le sep str
        rw [hnext, List.length_cons] at hle
        obtain ⟨h1, h2, h3, h4⟩ := ih next.length (by omega) h rfl
        exact ⟨h1, h2, h3, by omega⟩

structure Trimmed (w : Bytes) : Prop where
  ne_nil : w ≠ []
  begins : Begins w
  ends : w.rdropWhile torIsspace = w

theorem splitString_cons {sep : UInt8} {w t : Bytes} (hw : Begins w) (hne : w ≠ [])
    (hsep : sep ∉ w) :
    splitString sep (w ++ sep :: t) =
      if w.rdropWhile torIsspace ≠ [] then w.rdropWhile torIsspace :: splitString sep t
      else splitString sep t := by
  have hword : ∀ b ∈ w, decide (b ≠ sep) = true := by
    intro b hb
    exact decide_eq_true fun h => hsep (h ▸ hb)
  have hbegins : (w ++ sep :: t).dropWhile torIsspace = w ++ sep :: t := by
    apply Begins.dropWhile_eq
    cases w with
    | nil => exact absurd rfl hne
    | cons b w => exact hw
  have hpiece : firstPiece sep (w ++ sep :: t) = w.rdropWhile torIsspace := by
    rw [firstPiece, hbegins, List.takeWhile_append_of_pos hword]
    simp
  have hfrom : fromSep sep (w ++ sep :: t) = sep :: t := by
    rw [fromSep, hbegins, List.dropWhile_append_of_pos hword]
    simp
  rw [splitString_eq, hpiece, hfrom]
  split_ifs <;> rfl

theorem splitString_append {sep : UInt8} {w t : Bytes} (hw : Trimmed w) (hsep : sep ∉ w) :
    splitString sep (w ++ sep :: t) = w :: splitString sep t := by
  rw [splitString_cons hw.begins hw.ne_nil hsep, hw.ends, if_pos hw.ne_nil]

theorem splitString_self {sep : UInt8} {w : Bytes} (hw : Trimmed w) (hsep : sep ∉ w) :
    splitString sep w = [w] := by
  have hword : ∀ b ∈ w, decide (b ≠ sep) = true := by
    intro b hb
    exact decide_eq_true fun h => hsep (h ▸ hb)
  have hpiece : firstPiece sep w = w := by
    rw [firstPiece, hw.begins.dropWhile_eq, List.takeWhile_eq_self_iff.mpr hword, hw.ends]
  have hfrom : fromSep sep w = [] := by
    rw [fromSep, hw.begins.dropWhile_eq, List.dropWhile_eq_nil_iff.mpr hword]
  rw [splitString_eq, hpiece, hfrom, if_pos hw.ne_nil, List.append_nil]

theorem trimmed_of_forall {w : Bytes} (hne : w ≠ []) (h : ∀ b ∈ w, torIsspace b = false) :
    Trimmed w where
  ne_nil := hne
  begins := fun b hb => h b (List.mem_of_head? hb)
  ends := by
    rw [List.rdropWhile_eq_self_iff]
    intro hl
    simp [h _ (List.getLast_mem hl)]

end Smartlist
