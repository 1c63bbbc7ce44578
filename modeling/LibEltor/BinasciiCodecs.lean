/-
The codecs of `lib/encoding/binascii.c` together: base 16, base 32 and base 64 on one line, on
lines of 64 characters and without padding.
-/
import Mathlib
import LibEltor.Base32
import LibEltor.Versions

open Bytes Versions

namespace Binascii

/-! ### Base 16 into a buffer -/

/-- `base16_encode`; `none` is a failed assertion. -/
def base16EncodeTo (destlen : ℕ) (src : Bytes) : Option Bytes :=
  if ¬src.length < sizeTCeiling / 2 - 1 then none
  else if ¬destlen ≥ src.length * 2 + 1 then none
  else if ¬destlen < sizeTCeiling then none
  else some (base16Encode src ++ [0])

def base16DecodeLoop : Bytes → Bytes → Result
  | c1 :: c2 :: src, dest =>
    match hexDecodeDigit c1, hexDecodeDigit c2 with
    | some v1, some v2 => base16DecodeLoop src (dest ++ [UInt8.ofNat (v1 * 16 + v2)])
    | _, _ => failed dest
  | _, dest => done dest

def base16DecodeTo (destlen : ℕ) (src : Bytes) : Result :=
  if src.length % 2 ≠ 0 then failed []
  else if destlen < src.length / 2 ∨ destlen > intMax then failed []
  else base16DecodeLoop src []

theorem base16DecodeLoop_bounds (src dest : Bytes) :
    (base16DecodeLoop src dest).InBounds (dest.length + src.length / 2) := by
  induction src, dest using base16DecodeLoop.induct with
  | case1 c1 c2 src dest v1 v2 h1 h2 ih =>
    rw [base16DecodeLoop, h1, h2]
    simp only [List.length_append, List.length_singleton] at ih
    simp only [List.length_cons]
    have hlen : dest.length + 1 + src.length / 2 = dest.length + (src.length + 1 + 1) / 2 := by omega
    rwa [← hlen]
  | case2 c1 c2 src dest hbad =>
    rw [base16DecodeLoop]
    split
    · exact absurd ‹_› (hbad _ _ ‹_›)
    · exact inBounds_failed (Nat.le_add_right _ _)
  | case3 src dest hshort =>
    rw [base16DecodeLoop]
    · exact inBounds_done (Nat.le_add_right _ _)
    · exact hshort

theorem base16DecodeTo_bounds (destlen : ℕ) (src : Bytes) :
    (base16DecodeTo destlen src).InBounds destlen := by
  rw [base16DecodeTo]
  split_ifs with hodd hroom
  · exact inBounds_failed (Nat.zero_le destlen)
  · exact inBounds_failed (Nat.zero_le destlen)
  · obtain ⟨hle, hret⟩ := base16DecodeLoop_bounds src []
    refine ⟨hle.trans ?_, hret⟩
    rw [List.length_nil]
    omega

theorem hexDecodeDigit_hexDigit {n : ℕ} (hn : n < 16) : hexDecodeDigit (hexDigit n) = some n := by
  have h : ∀ n : Fin 16, hexDecodeDigit (hexDigit n) = some n.1 := by decide
  exact h ⟨n, hn⟩

theorem base16DecodeLoop_encode (src dest : Bytes) :
    base16DecodeLoop (base16Encode src) dest = done (dest ++ src) := by
  induction src generalizing dest with
  | nil => exact congrArg done (List.append_nil dest).symm
  | cons b src ih =>
    have hb : b.toNat < 256 := b.toNat_lt
    show base16DecodeLoop (hexDigit (b.toNat / 16) :: hexDigit (b.toNat % 16) :: base16Encode src)
      dest = _
    rw [base16DecodeLoop, hexDecodeDigit_hexDigit (by omega), hexDecodeDigit_hexDigit (by omega)]
    show base16DecodeLoop (base16Encode src) (dest ++ [UInt8.ofNat (b.toNat / 16 * 16 + b.toNat % 16)])
      = _
    rw [ofNat_eq (a := b) (by omega), ih, List.append_assoc]
    rfl

theorem base16DecodeTo_encode {destlen : ℕ} {src : Bytes} (hroom : src.length ≤ destlen)
    (hmax : destlen ≤ intMax) : base16DecodeTo destlen (base16Encode src) = done src := by
  have hlen := length_base16Encode src
  rw [base16DecodeTo, if_neg (by omega), if_neg (by omega), base16DecodeLoop_encode]
  rfl

/-! ### All codecs -/

inductive Codec
  | base16
  | base32
  | base64 (multiline : Bool)
  | base64Nopad
  deriving DecidableEq

/-- The size of a text with its NUL: `BASE16_BUFSIZE`, `base32_encoded_size`, `base64_encode_size`
and `BASE64_NOPAD_BUFSIZE`. -/
def Codec.bufsize : Codec → ℕ → Option ℕ
  | base16, srclen => some (srclen * 2 + 1)
  | base32, srclen => base32EncodedSize srclen
  | base64 multiline, srclen => (base64EncodeSize srclen multiline).map (· + 1)
  | base64Nopad, srclen => some (ceilDiv (srclen * 4) 3 + 1)

/-- The room that the encoder asks for; the padding is written before it is taken out. -/
def Codec.room : Codec → ℕ → Option ℕ
  | base64Nopad, srclen => (base64EncodeSize srclen false).map (· + 1)
  | codec, srclen => codec.bufsize srclen

/-- What an encoder stores; `none` is a failed assertion. -/
def Codec.encode : Codec → ℕ → Bytes → Option Bytes
  | base16, destlen, src => base16EncodeTo destlen src
  | base32, destlen, src => base32EncodeTo destlen src
  | base64 multiline, destlen, src => (base64EncodeTo destlen src multiline).map Result.stored
  | base64Nopad, destlen, src => (base64EncodeNopadTo destlen src).map Result.stored

def Codec.decode : Codec → ℕ → Bytes → Option Result
  | base16, destlen, src => some (base16DecodeTo destlen src)
  | base32, destlen, src => base32DecodeTo destlen src
  | base64 _, destlen, src => some (base64DecodeTo destlen src)
  | base64Nopad, destlen, src => some (base64DecodeTo destlen src)

/-- What a decoder requires of its caller: only base 32 requires anything. -/
def Codec.Decodable (codec : Codec) (destlen : ℕ) (src : Bytes) : Prop :=
  codec = .base32 → src.length < sizeTCeiling / 5 ∧ src.length * 5 / 8 ≤ destlen ∧
    destlen < sizeTCeiling ∧ src.length * 5 / 8 ≤ intMax

theorem zero_notMem_base16Encode (src : Bytes) : 0 ∉ base16Encode src := by
  have hdigit : ∀ n : Fin 16, hexDigit n ≠ 0 := by decide
  intro h
  obtain ⟨b, -, hb⟩ := List.mem_flatMap.mp h
  have hlt : b.toNat < 256 := b.toNat_lt
  simp only [List.mem_cons, List.not_mem_nil, or_false] at hb
  rcases hb with hb | hb
  · exact hdigit ⟨b.toNat / 16, by omega⟩ hb.symm
  · exact hdigit ⟨b.toNat % 16, by omega⟩ hb.symm

theorem zero_notMem_base32EncodeLoop (src : Bytes) : 0 ∉ base32EncodeLoop src := by
  intro h
  obtain ⟨i, -, hi⟩ := List.mem_map.mp h
  have hchar := base32DecodeChar_char (code_lt src (5 * i))
  rw [hi] at hchar
  exact absurd hchar (by simp [base32DecodeChar])

theorem zero_notMem_base64EncodeNopad (src : Bytes) : 0 ∉ base64EncodeNopad src := fun h =>
  notMem_base64Encode (Or.inl rfl) src (List.mem_of_mem_filter h)

theorem base64EncodeTo_cases {destlen : ℕ} {src : Bytes} {multiline : Bool} {r : Result}
    (h : base64EncodeTo destlen src multiline = some r) :
    r = failed [] ∨ ∃ size, base64EncodeSize src.length multiline = some size ∧
      size + 1 ≤ destlen ∧ destlen ≤ sizeTCeiling ∧
      r = ⟨base64EncodeLoop multiline src ++ [0], size⟩ ∧
      (base64EncodeLoop multiline src).length = size := by
  obtain ⟨size, hsize, h⟩ := Option.bind_eq_some_iff.mp h
  dsimp only at h
  split_ifs at h with hroom hmax hint hlen
  · exact Or.inl (Option.some.inj h).symm
  · exact Or.inl (Option.some.inj h).symm
  · exact Or.inl (Option.some.inj h).symm
  · exact Or.inr ⟨size, hsize, by omega, by omega, (Option.some.inj h).symm, hlen⟩

theorem length_encode_le {codec : Codec} {destlen : ℕ} {src stored : Bytes}
    (h : codec.encode destlen src = some stored) : stored.length ≤ destlen := by
  cases codec with
  | base16 =>
    rw [Codec.encode, base16EncodeTo] at h
    split_ifs at h with hlen hroom hmax
    obtain rfl := Option.some.inj h
    rw [List.length_append, length_base16Encode, List.length_singleton]
    omega
  | base32 =>
    obtain ⟨size, hsize, h⟩ := Option.bind_eq_some_iff.mp h
    split_ifs at h with hroom hmax
    have hlen := (base32EncodeTo_eq hsize hroom hmax).2
    obtain rfl := Option.some.inj h
    omega
  | base64 multiline =>
    obtain ⟨r, hr, rfl⟩ := Option.map_eq_some_iff.mp h
    rcases base64EncodeTo_cases hr with rfl | ⟨size, -, hroom, -, rfl, hlen⟩
    · exact Nat.zero_le destlen
    · rw [List.length_append, hlen]
      exact hroom
  | base64Nopad =>
    obtain ⟨r, hr, rfl⟩ := Option.map_eq_some_iff.mp h
    obtain ⟨r', hr', h⟩ := Option.bind_eq_some_iff.mp hr
    rcases base64EncodeTo_cases hr' with rfl | ⟨size, hsize, hroom, hmax, -, -⟩
    · obtain rfl := Option.some.inj h
      exact Nat.zero_le destlen
    · obtain ⟨t, ht, hlen⟩ := base64EncodeNopadTo_eq hsize hroom hmax
      obtain rfl := Option.some.inj (hr.symm.trans ht)
      exact hlen.le.trans hroom

theorem decode_encode {codec : Codec} {destlen size room : ℕ} {src : Bytes}
    (hroom : codec.room src.length = some room) (hsize : codec.bufsize src.length = some size)
    (hlen : src.length ≤ intMax) (hle : room ≤ destlen) (hmax : destlen < sizeTCeiling) :
    ∃ stored, codec.encode destlen src = some stored ∧ (cstr stored).length + 1 = size ∧
      (codec ≠ .base64Nopad → stored.length = size) ∧
      codec.decode src.length (cstr stored) = some (done src) := by
  cases codec with
  | base16 =>
    obtain rfl := Option.some.inj hroom
    obtain rfl := Option.some.inj hsize
    have hcstr : cstr (base16Encode src ++ [0]) = base16Encode src :=
      cstr_append_zero (zero_notMem_base16Encode src) []
    have htext := length_base16Encode src
    refine ⟨base16Encode src ++ [0], ?_, ?_, fun _ => ?_, ?_⟩
    · have hshort : src.length < sizeTCeiling / 2 - 1 := by
        unfold intMax at hlen
        unfold sizeTCeiling
        omega
      rw [Codec.encode, base16EncodeTo, if_neg (not_not.mpr hshort), if_neg (not_not.mpr hle),
        if_neg (not_not.mpr hmax)]
    · rw [hcstr]
      omega
    · rw [List.length_append, List.length_singleton]
      omega
    · rw [hcstr, Codec.decode, base16DecodeTo_encode (Nat.le_refl _) hlen]
  | base32 =>
    have hsize' : base32EncodedSize src.length = some size := hsize
    have hceiling := (base32EncodedSize_eq_some hsize').1
    obtain rfl := Option.some.inj (hroom.symm.trans hsize)
    obtain ⟨hencode, hstored⟩ := base32EncodeTo_eq hsize' hle hmax
    have hcstr : cstr (base32EncodeLoop src ++ [0]) = base32EncodeLoop src :=
      cstr_append_zero (zero_notMem_base32EncodeLoop src) []
    refine ⟨_, hencode, ?_, fun _ => hstored, ?_⟩
    · rw [hcstr, ← hstored, List.length_append, List.length_singleton]
    · rw [hcstr]
      exact base32DecodeTo_chars hsize' (Nat.le_refl _) (by omega)
  | base64 multiline =>
    obtain rfl := Option.some.inj (hroom.symm.trans hsize)
    obtain ⟨enclen, henclen, rfl⟩ := Option.map_eq_some_iff.mp hsize
    obtain ⟨hencode, htext⟩ := base64EncodeTo_eq henclen hle hmax.le
    have hcstr := cstr_encodeLoop multiline src []
    refine ⟨base64EncodeLoop multiline src ++ [0], ?_, ?_, fun _ => ?_, ?_⟩
    · rw [Codec.encode, hencode]
      rfl
    · rw [hcstr, htext]
    · rw [List.length_append, htext]
      rfl
    · rw [hcstr, Codec.decode, base64DecodeTo_encodeLoop (Nat.le_refl _) hlen]
  | base64Nopad =>
    obtain rfl := Option.some.inj hsize
    obtain ⟨enclen, henclen, rfl⟩ := Option.map_eq_some_iff.mp hroom
    obtain ⟨t, hencode, -⟩ := base64EncodeNopadTo_eq henclen hle hmax.le
    have hcstr := cstr_append_zero (zero_notMem_base64EncodeNopad src) t
    refine ⟨base64EncodeNopad src ++ 0 :: t, ?_, ?_, fun h => absurd rfl h, ?_⟩
    · rw [Codec.encode, hencode]
      rfl
    · rw [hcstr, length_base64EncodeNopad]
      rfl
    · rw [hcstr, Codec.decode, base64DecodeTo_encodeNopad (Nat.le_refl _) hlen]

theorem decode_bounds {codec : Codec} {destlen : ℕ} {src : Bytes}
    (h : codec.Decodable destlen src) :
    ∃ r, codec.decode destlen src = some r ∧ r.InBounds destlen := by
  cases codec with
  | base16 => exact ⟨_, rfl, base16DecodeTo_bounds destlen src⟩
  | base32 =>
    obtain ⟨hlen, hroom, hmax, -⟩ := h rfl
    cases hdecode : base32DecodeTo destlen src with
    | none =>
      have hbad := base32DecodeTo_eq_none_iff.mp hdecode
      omega
    | some r => exact ⟨r, hdecode, base32DecodeTo_bounds hdecode⟩
  | base64 multiline => exact ⟨_, rfl, base64DecodeTo_bounds destlen src⟩
  | base64Nopad => exact ⟨_, rfl, base64DecodeTo_bounds destlen src⟩

/-- **The codecs**: no encoder writes past its destination; with the room it asks for it writes a
text of the size its size function says, which is decoded into a buffer of the original length; and
no decoder stores more than fits. -/
theorem codec_spec (codec : Codec) :
    (∀ destlen src stored, codec.encode destlen src = some stored → stored.length ≤ destlen) ∧
      (∀ destlen src size room, codec.room src.length = some room →
        codec.bufsize src.length = some size → src.length ≤ intMax → room ≤ destlen →
        destlen < sizeTCeiling →
        ∃ stored, codec.encode destlen src = some stored ∧ (cstr stored).length + 1 = size ∧
          (codec ≠ .base64Nopad → stored.length = size) ∧
          codec.decode src.length (cstr stored) = some (done src)) ∧
      ∀ destlen src, codec.Decodable destlen src →
        ∃ r, codec.decode destlen src = some r ∧ r.InBounds destlen := by
  refine ⟨fun destlen src stored h => length_encode_le h, ?_, fun destlen src h => decode_bounds h⟩
  intro destlen src size room hroom hsize hlen hle hmax
  exact decode_encode hroom hsize hlen hle hmax

/-- Two bytes on lines: a line of four characters, a line break and the NUL. -/
theorem codec_spec_line :
    (∃ stored, Codec.encode (.base64 true) 6 [1, 2] = some stored ∧
        (cstr stored).length + 1 = 6 ∧ (Codec.base64 true ≠ .base64Nopad → stored.length = 6) ∧
        Codec.decode (.base64 true) 2 (cstr stored) = some (done [1, 2])) ∧
      ∃ r, Codec.decode .base32 2 [97, 97, 97, 97] = some r ∧ r.InBounds 2 := by
  constructor
  · exact (codec_spec (.base64 true)).2.1 6 [1, 2] 6 6 (by decide) (by decide) (by decide)
      (by decide) (by decide)
  · exact (codec_spec .base32).2.2 2 [97, 97, 97, 97] fun _ => by decide

theorem base16DecodeTo_long {src : Bytes} (h : intMax < src.length) :
    base16DecodeTo src.length (base16Encode src) = failed [] := by
  have hlen := length_base16Encode src
  rw [base16DecodeTo, if_neg (by omega), if_pos (Or.inr h)]

/-- Base 32 decoding stops at an assertion for a buffer that is too short, and base 16 refuses
buffers of more than `INT_MAX` bytes. -/
theorem decode_short_and_long :
    Codec.decode .base32 0 [97, 97] = none ∧
      ∃ stored, Codec.encode .base16 (2 ^ 32 + 1) (List.replicate (2 ^ 31) 0) = some stored ∧
        Codec.decode .base16 (2 ^ 31) (cstr stored) = some (failed []) := by
  refine ⟨by decide, base16Encode (List.replicate (2 ^ 31) 0) ++ [0], ?_, ?_⟩
  · have hlen : (List.replicate (2 ^ 31) (0 : UInt8)).length = 2 ^ 31 := List.length_replicate
    rw [Codec.encode, base16EncodeTo, hlen, if_neg (by decide), if_neg (by decide),
      if_neg (by decide)]
  · have hlen : (List.replicate (2 ^ 31) (0 : UInt8)).length = 2 ^ 31 := List.length_replicate
    rw [cstr_append_zero (zero_notMem_base16Encode _), Codec.decode]
    have hlt : intMax < (List.replicate (2 ^ 31) (0 : UInt8)).length := by
      rw [hlen]
      decide
    have hlong := base16DecodeTo_long hlt
    rw [hlen] at hlong
    exact congrArg some hlong

end Binascii
