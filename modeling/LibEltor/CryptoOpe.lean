/-
Order-preserving encryption (`lib/crypt_ops/crypto_ope.c`).

A number is encrypted as the sum of that many values from the stream of AES-CTR, each plus one.  The
sums at multiples of `SAMPLE_INTERVAL` are computed once for a key; an encryption starts from the last
of them and from the block of the stream that follows it.
-/
import Mathlib
import LibEltor.Bytes
import LibEltor.Word

open Bytes Word

namespace CryptoOpe

def opeInputMax : ℕ := 2 ^ 18

def sampleInterval : ℕ := 1024

def nSamples : ℕ := opeInputMax / sampleInterval

def bufsz : ℕ := 256

def cryptoOpeError : ℕ := 2 ^ 64 - 1

abbrev Keystream := ℕ → Block 16

def Keystream.byte (key : Keystream) (p : ℕ) : UInt8 :=
  (key (p / 16)).get ⟨p % 16, Nat.mod_lt p (by decide)⟩

/-- A cipher in counter mode, with the position in the stream that it has come to. -/
structure Cipher where
  key : Keystream
  pos : ℕ

def counterOf (iv : Bytes) : ℕ := iv.foldl (fun n b => 256 * n + b.toNat) 0

def cipherNewWithIv (key : Keystream) (iv : Bytes) : Cipher := ⟨key, 16 * counterOf iv⟩

def cipherCryptInplace (c : Cipher) (buf : Bytes) : Bytes × Cipher :=
  (buf.mapIdx fun i b => b ^^^ c.key.byte (c.pos + i), { c with pos := c.pos + buf.length })

/-! ### The encryption -/

structure Ope where
  key : Keystream
  samples : List ℕ

/-- None where the assertion fails that a block begins at the index. -/
def opeGetCipher (key : Keystream) (initialIdx : UInt32) : Option Cipher :=
  if initialIdx.toNat % 16 = 0 then
    some (cipherNewWithIv key (List.replicate 12 (0 : UInt8) ++ be32 (initialIdx >>> 4)))
  else none

def opeVal (buf : Bytes) (i : ℕ) : ℕ :=
  (buf[2 * i]?.getD 0).toNat + 256 * (buf[2 * i + 1]?.getD 0).toNat

def addValues (buf : Bytes) (n total : ℕ) : ℕ :=
  (List.range n).foldl (fun total i => u64 (u64 (total + opeVal buf i : ℕ) + 1 : ℕ)) total

def sumLoop (c : Cipher) (n total : ℕ) : ℕ × Cipher :=
  if bufsz ≤ n then
    let (buf, c) := cipherCryptInplace c (List.replicate (bufsz * 2) 0)
    sumLoop c (n - bufsz) (addValues buf bufsz total)
  else
    let (buf, c) := cipherCryptInplace c (List.replicate (n * 2) 0)
    (addValues buf n total, c)
termination_by n
decreasing_by
  have hpos : 0 < bufsz := by decide
  omega

def sumValuesFromCipher (c : Cipher) (n : ℕ) : ℕ × Cipher := sumLoop c n 0

/-- The samples that are still to be computed, from a cipher and the sum that it stands behind. -/
def makeSamples : ℕ → Cipher → ℕ → List ℕ
  | 0, _, _ => []
  | k + 1, c, v =>
    let (sum, c) := sumValuesFromCipher c sampleInterval
    let v := u64 (v + sum : ℕ)
    v :: makeSamples k c v

def cryptoOpeNew (key : Keystream) : Option Ope := do
  let cipher ← opeGetCipher key 0
  some ⟨key, makeSamples nSamples cipher 0⟩

/-- None where an assertion fails or an index is out of range. -/
def cryptoOpeEncrypt (ope : Ope) (plaintext : ℤ) : Option ℕ :=
  if plaintext ≤ 0 ∨ plaintext > opeInputMax then some cryptoOpeError
  else do
    let sampleIdx := plaintext.toNat / sampleInterval
    let startingIv := sampleIdx * sampleInterval
    let remainingValues := plaintext.toNat - startingIv
    let v ← if sampleIdx = 0 then some 0 else ope.samples[sampleIdx - 1]?
    let cipher ← opeGetCipher ope.key (UInt32.ofNat (startingIv * 2))
    some (u64 (v + (sumValuesFromCipher cipher remainingValues).1 : ℕ))

/-! ### The sum over the stream -/

def value (key : Keystream) (i : ℕ) : ℕ :=
  (key.byte (2 * i)).toNat + 256 * (key.byte (2 * i + 1)).toNat + 1

def prefixSum (key : Keystream) (n : ℕ) : ℕ := ∑ i ∈ Finset.range n, value key i

variable {key : Keystream}

theorem one_le_value (key : Keystream) (i : ℕ) : 1 ≤ value key i := Nat.le_add_left 1 _

theorem value_le (key : Keystream) (i : ℕ) : value key i ≤ 2 ^ 16 := by
  have hlow : (key.byte (2 * i)).toNat < 256 := (key.byte (2 * i)).toNat_lt
  have hhigh : (key.byte (2 * i + 1)).toNat < 256 := (key.byte (2 * i + 1)).toNat_lt
  rw [value]
  omega

theorem prefixSum_succ (key : Keystream) (n : ℕ) :
    prefixSum key (n + 1) = prefixSum key n + value key n :=
  Finset.sum_range_succ _ n

theorem prefixSum_add (key : Keystream) (n k : ℕ) :
    prefixSum key (n + k) = prefixSum key n + ∑ i ∈ Finset.range k, value key (n + i) :=
  Finset.sum_range_add _ n k

theorem prefixSum_le (key : Keystream) (n : ℕ) : prefixSum key n ≤ n * 2 ^ 16 := by
  have h := Finset.sum_le_card_nsmul (Finset.range n) (value key) (2 ^ 16) fun i _ => value_le key i
  rwa [Finset.card_range, smul_eq_mul] at h

theorem prefixSum_strictMono (key : Keystream) : StrictMono (prefixSum key) := by
  refine strictMono_nat_of_lt_succ fun n => ?_
  rw [prefixSum_succ]
  exact Nat.lt_add_of_pos_right (one_le_value key n)

theorem prefixSum_lt {n : ℕ} (h : n ≤ opeInputMax) : prefixSum key n < 2 ^ 64 := by
  have hle := (prefixSum_le key n).trans (Nat.mul_le_mul_right _ h)
  unfold opeInputMax at hle
  omega

/-! ### The cipher yields the stream -/

def sumFrom (key : Keystream) (start n : ℕ) : ℕ := ∑ i ∈ Finset.range n, value key (start + i)

theorem sumFrom_succ (key : Keystream) (start n : ℕ) :
    sumFrom key start (n + 1) = sumFrom key start n + value key (start + n) :=
  Finset.sum_range_succ _ n

theorem sumFrom_add (key : Keystream) (start n k : ℕ) :
    sumFrom key start (n + k) = sumFrom key start n + sumFrom key (start + n) k := by
  rw [sumFrom, Finset.sum_range_add]
  simp only [sumFrom, add_assoc]

theorem counterOf_be32 (n : UInt32) :
    counterOf (List.replicate 12 (0 : UInt8) ++ be32 n) = n.toNat := by
  have hn : n.toNat < 2 ^ 32 := n.toNat_lt
  simp [counterOf, be32, List.replicate]
  omega

theorem opeGetCipher_eq {n : ℕ} (h : 16 ∣ n) (hn : n < 2 ^ 32) :
    opeGetCipher key (UInt32.ofNat n) = some ⟨key, n⟩ := by
  have hstored : (UInt32.ofNat n).toNat = n := UInt32.toNat_ofNat_of_lt' hn
  have hshift : ((UInt32.ofNat n) >>> 4).toNat = n / 16 := by
    rw [UInt32.toNat_shiftRight, hstored, Nat.shiftRight_eq_div_pow]
    rfl
  rw [opeGetCipher, hstored, if_pos (Nat.mod_eq_zero_of_dvd h), cipherNewWithIv, counterOf_be32,
    hshift, Nat.mul_div_cancel' h]

theorem getElem?_crypt {c : Cipher} {len j : ℕ} (h : j < len) :
    (cipherCryptInplace c (List.replicate len 0)).1[j]? = some (c.key.byte (c.pos + j)) := by
  simp [cipherCryptInplace, h]

theorem opeVal_crypt {start len i : ℕ} (h : i < len) :
    opeVal (cipherCryptInplace ⟨key, 2 * start⟩ (List.replicate (len * 2) 0)).1 i + 1 =
      value key (start + i) := by
  rw [opeVal, getElem?_crypt (by omega), getElem?_crypt (by omega), value, mul_add, add_assoc]
  rfl

theorem addValues_eq {buf : Bytes} {start n total : ℕ}
    (hvals : ∀ i < n, opeVal buf i + 1 = value key (start + i))
    (hfits : total + sumFrom key start n < 2 ^ 64) :
    addValues buf n total = total + sumFrom key start n := by
  induction n with
  | zero => rfl
  | succ n ih =>
    rw [sumFrom_succ] at hfits ⊢
    have hlast := hvals n (Nat.lt_succ_self n)
    have hbefore := ih (fun i hi => hvals i (Nat.lt_succ_of_lt hi)) (by omega)
    rw [addValues, List.range_succ, List.foldl_append]
    show u64 (u64 (addValues buf n total + opeVal buf n : ℕ) + 1 : ℕ) = _
    have hsum : total + sumFrom key start n + opeVal buf n + 1 =
        total + (sumFrom key start n + value key (start + n)) := by
      rw [← hlast]
      omega
    have hinner : u64 ((total + sumFrom key start n + opeVal buf n : ℕ) : ℤ) =
        total + sumFrom key start n + opeVal buf n := wrap_natCast (by omega)
    rw [hbefore, hinner, hsum, u64, wrap_natCast hfits]

theorem sumLoop_eq (n : ℕ) {start total : ℕ} (hfits : total + sumFrom key start n < 2 ^ 64) :
    sumLoop ⟨key, 2 * start⟩ n total =
      (total + sumFrom key start n, ⟨key, 2 * (start + n)⟩) := by
  induction n using Nat.strong_induction_on generalizing start total with
  | _ n ih =>
    have hbufsz : bufsz = 256 := rfl
    rw [sumLoop]
    split_ifs with hfull
    · -- a whole buffer, and what is left after it
      obtain ⟨k, rfl⟩ := Nat.exists_eq_add_of_le hfull
      rw [sumFrom_add] at hfits ⊢
      have hbuf := addValues_eq (fun i hi => @opeVal_crypt key start _ i hi)
        (by omega : total + sumFrom key start bufsz < _)
      have hpos : (cipherCryptInplace ⟨key, 2 * start⟩ (List.replicate (bufsz * 2) 0)).2 =
          ⟨key, 2 * (start + bufsz)⟩ := by
        simp [cipherCryptInplace]
        omega
      simp only [hbuf, hpos, Nat.add_sub_cancel_left]
      rw [ih k (by omega) (by omega)]
      simp only [add_assoc]
    · have hbuf := addValues_eq (fun i hi => opeVal_crypt hi) hfits
      have hpos : (cipherCryptInplace ⟨key, 2 * start⟩ (List.replicate (n * 2) 0)).2 =
          ⟨key, 2 * (start + n)⟩ := by
        simp [cipherCryptInplace]
        omega
      show (addValues (cipherCryptInplace ⟨key, 2 * start⟩ (List.replicate (n * 2) 0)).1 n total,
        (cipherCryptInplace ⟨key, 2 * start⟩ (List.replicate (n * 2) 0)).2) = _
      rw [hbuf, hpos]

theorem sumValuesFromCipher_eq {start n : ℕ} (hfits : sumFrom key start n < 2 ^ 64) :
    sumValuesFromCipher ⟨key, 2 * start⟩ n = (sumFrom key start n, ⟨key, 2 * (start + n)⟩) := by
  rw [sumValuesFromCipher, sumLoop_eq n (by omega), Nat.zero_add]

theorem getElem?_makeSamples {k start i : ℕ} (hi : i < k)
    (hmax : start + k * sampleInterval ≤ opeInputMax) :
    (makeSamples k ⟨key, 2 * start⟩ (prefixSum key start))[i]? =
      some (prefixSum key (start + (i + 1) * sampleInterval)) := by
  induction k generalizing start i with
  | zero => exact absurd hi (Nat.not_lt_zero i)
  | succ k ih =>
    have hnext : prefixSum key start + sumFrom key start sampleInterval =
        prefixSum key (start + sampleInterval) := (prefixSum_add key start sampleInterval).symm
    have hlt : prefixSum key (start + sampleInterval) < 2 ^ 64 := prefixSum_lt (by
      rw [Nat.succ_mul] at hmax
      omega)
    rw [makeSamples, sumValuesFromCipher_eq (by omega)]
    simp only [hnext, u64, wrap_natCast hlt]
    cases i with
    | zero => simp
    | succ i =>
      have hmax' : start + sampleInterval + k * sampleInterval ≤ opeInputMax := by
        rw [Nat.succ_mul] at hmax
        omega
      have hstep : start + sampleInterval + (i + 1) * sampleInterval =
          start + (i + 1 + 1) * sampleInterval := by ring
      rw [List.getElem?_cons_succ, ih (Nat.lt_of_succ_lt_succ hi) hmax', hstep]

theorem cryptoOpeNew_eq (key : Keystream) :
    cryptoOpeNew key = some ⟨key, makeSamples nSamples ⟨key, 0⟩ 0⟩ := by
  have hcipher : opeGetCipher key 0 = some ⟨key, 0⟩ := opeGetCipher_eq (n := 0) (by decide) (by decide)
  simp only [cryptoOpeNew, hcipher, Option.bind_eq_bind, Option.bind_some]

theorem cryptoOpeEncrypt_eq (key : Keystream) {n : ℕ} (hpos : 1 ≤ n) (hmax : n ≤ opeInputMax) :
    (cryptoOpeNew key).bind (fun ope => cryptoOpeEncrypt ope n) = some (prefixSum key n) := by
  rw [cryptoOpeNew_eq, Option.bind_some, cryptoOpeEncrypt, if_neg (by omega), Int.toNat_natCast]
  have hle : n / sampleInterval * sampleInterval ≤ n := Nat.div_mul_le_self n sampleInterval
  generalize hidx : n / sampleInterval = idx at hle ⊢
  have hsample : idx ≠ 0 → (makeSamples nSamples ⟨key, 0⟩ 0)[idx - 1]? =
      some (prefixSum key (idx * sampleInterval)) := by
    intro hzero
    have hin : idx ≤ nSamples := by
      rw [← hidx]
      exact Nat.div_le_div_right hmax
    have h := @getElem?_makeSamples key nSamples 0 (idx - 1) (by omega) (by decide)
    rwa [Nat.zero_add, Nat.sub_add_cancel (Nat.one_le_iff_ne_zero.mpr hzero)] at h
  have hcipher : opeGetCipher key (UInt32.ofNat (idx * sampleInterval * 2)) =
      some ⟨key, 2 * (idx * sampleInterval)⟩ := by
    unfold sampleInterval at hle ⊢
    unfold opeInputMax at hmax
    rw [mul_comm 2, opeGetCipher_eq (by omega) (by omega)]
  have hrest : prefixSum key (idx * sampleInterval) +
      sumFrom key (idx * sampleInterval) (n - idx * sampleInterval) = prefixSum key n := by
    have h := prefixSum_add key (idx * sampleInterval) (n - idx * sampleInterval)
    rw [Nat.add_sub_cancel' hle] at h
    exact h.symm
  have hlt : prefixSum key n < 2 ^ 64 := prefixSum_lt hmax
  simp only [hcipher, Option.bind_eq_bind, Option.bind_some]
  rw [sumValuesFromCipher_eq (by omega)]
  split_ifs with hzero
  · rw [hzero, Nat.zero_mul] at hrest
    rw [hzero, Nat.zero_mul]
    show some (u64 (prefixSum key 0 + sumFrom key 0 (n - 0) : ℕ)) = _
    rw [hrest, u64, wrap_natCast hlt]
  · rw [hsample hzero, Option.bind_some, hrest, u64, wrap_natCast hlt]

/-- An encryption is the sum over the stream, and encryptions are in order. -/
theorem cryptoOpeEncrypt_spec (key : Keystream) {n : ℕ} (hpos : 1 ≤ n) (hmax : n ≤ opeInputMax) :
    (cryptoOpeNew key).bind (fun ope => cryptoOpeEncrypt ope n) =
        some (∑ i ∈ Finset.range n, value key i) ∧
      ∀ m : ℕ, 1 ≤ m → m < n → ∃ cm cn,
        (cryptoOpeNew key).bind (fun ope => cryptoOpeEncrypt ope m) = some cm ∧
        (cryptoOpeNew key).bind (fun ope => cryptoOpeEncrypt ope n) = some cn ∧ cm < cn := by
  refine ⟨cryptoOpeEncrypt_eq key hpos hmax, fun m hm hlt => ?_⟩
  exact ⟨_, _, cryptoOpeEncrypt_eq key hm (hlt.le.trans hmax), cryptoOpeEncrypt_eq key hpos hmax,
    prefixSum_strictMono key hlt⟩

def zeroStream : Keystream := fun _ => ⟨List.replicate 16 0, rfl⟩

/-- At a multiple of the interval, where nothing is left to add. -/
theorem cryptoOpeEncrypt_atSample :
    (cryptoOpeNew zeroStream).bind (fun ope => cryptoOpeEncrypt ope (2048 : ℕ)) =
        some (∑ i ∈ Finset.range 2048, value zeroStream i) ∧
      ∀ m : ℕ, 1 ≤ m → m < 2048 → ∃ cm cn,
        (cryptoOpeNew zeroStream).bind (fun ope => cryptoOpeEncrypt ope m) = some cm ∧
        (cryptoOpeNew zeroStream).bind (fun ope => cryptoOpeEncrypt ope (2048 : ℕ)) = some cn ∧
        cm < cn :=
  cryptoOpeEncrypt_spec zeroStream (by decide) (by decide)

end CryptoOpe
