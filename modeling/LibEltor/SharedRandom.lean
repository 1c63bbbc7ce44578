/-
Commits of the shared random protocol (`feature/dirauth/shared_random.c`).

A commit is parsed from a vote, kept or ignored by the phase (`shouldKeepCommit`) and put into the
state (`saveCommitToState`); at the end of the reveal phase the shared random value is the
hash of the reveals, sorted (`srComputeSrv`).
-/
import LibEltor.Binascii

open Bytes Binascii

namespace SharedRandom

abbrev Digest := Block 20

abbrev Digest256 := Block 32

inductive DigestAlgorithm
  | sha1
  | sha256
  | sha512
  | sha3_256
  | sha3_512
  deriving DecidableEq

def srDigestAlg : DigestAlgorithm := .sha3_256

inductive SrPhase
  | commit
  | reveal
  deriving DecidableEq

structure SrSrv where
  numReveals : ℕ
  value : Digest256

structure SrCommit where
  alg : DigestAlgorithm
  valid : Bool
  rsaIdentity : Digest
  revealTs : UInt64
  hashedReveal : Digest256
  encodedCommit : Bytes
  randomNumber : Digest256
  commitTs : UInt64
  encodedReveal : Bytes

def srRevealBase64Len : ℕ := 56

def srCommitBase64Len : ℕ := 56

def srCommitGetRsaFpr (commit : SrCommit) : Bytes := base16Encode commit.rsaIdentity.toList

/-! ### Encoding -/

def be64 (n : UInt64) : Bytes :=
  (List.range 8).map fun i => UInt8.ofNat (n.toNat / 256 ^ (7 - i))

def getBe64 (p : Bytes) : UInt64 :=
  UInt64.ofNat ((p.take 8).foldl (fun n b => n * 256 + b.toNat) 0)

@[simp] theorem length_be64 (n : UInt64) : (be64 n).length = 8 := rfl

@[simp] theorem getBe64_be64 (n : UInt64) (t : Bytes) : getBe64 (be64 n ++ t) = n := by
  have hn : n.toNat < 18446744073709551616 := n.toNat_lt
  apply UInt64.toNat_inj.mp
  simp [getBe64, be64, List.range, List.range.loop]
  omega

def commitNew (rsaIdentity : Digest) : SrCommit where
  alg := srDigestAlg
  valid := false
  rsaIdentity := rsaIdentity
  revealTs := 0
  hashedReveal := zeroFill 32 []
  encodedCommit := []
  randomNumber := zeroFill 32 []
  commitTs := 0
  encodedReveal := []

def commitFields (encoded : Bytes) : Option (UInt64 × Digest256) :=
  if encoded.length > srCommitBase64Len then none
  else
    match base64Decode 40 encoded with
    | none => none
    | some decoded =>
      if decoded.length = 40 then some (getBe64 decoded, zeroFill 32 (decoded.drop 8)) else none

def commitDecode (encoded : Bytes) (commit : SrCommit) : Option SrCommit :=
  match commitFields encoded with
  | none => none
  | some (ts, hashed) =>
    some { commit with commitTs := ts, hashedReveal := hashed, encodedCommit := encoded }

def revealDecode (encoded : Bytes) (commit : SrCommit) : Option SrCommit :=
  if encoded.length > srRevealBase64Len then none
  else
    match base64Decode 40 encoded with
    | none => none
    | some decoded =>
      if decoded.length = 40 then
        some { commit with
          revealTs := getBe64 decoded
          randomNumber := zeroFill 32 (decoded.drop 8)
          encodedReveal := encoded }
      else none

def revealEncode (commit : SrCommit) : Bytes :=
  base64Encode (be64 commit.revealTs ++ commit.randomNumber.toList)

def commitEncode (commit : SrCommit) : Bytes :=
  base64Encode (be64 commit.commitTs ++ commit.hashedReveal.toList)

/-- A commit of a vote whose version, algorithm and fingerprint have been read. -/
def srParseCommit (digest : Digest) (commitValue : Bytes) (revealValue : Option Bytes) :
    Option SrCommit := do
  let commit ← commitDecode commitValue (commitNew digest)
  match revealValue with
  | none => some commit
  | some value => revealDecode value commit

def Decoded (commit : SrCommit) : Prop :=
  commit.alg = srDigestAlg ∧
    commitFields commit.encodedCommit = some (commit.commitTs, commit.hashedReveal)

theorem length_base64Encode (src : Bytes) :
    (base64Encode src).length = (src.length + 2) / 3 * 4 := by
  induction src using base64Encode.induct with
  | case1 a b c src ih =>
    simp only [base64Encode, List.length_cons, ih]
    omega
  | case2 a b => simp [base64Encode]
  | case3 a => simp [base64Encode]
  | case4 => rfl

theorem zeroFill_toList_self {n : ℕ} (b : Block n) : zeroFill n b.toList = b := by
  apply List.Vector.eq
  rw [toList_zeroFill (by simp)]
  simp

theorem commitFields_commitEncode (commit : SrCommit) :
    commitFields (commitEncode commit) = some (commit.commitTs, commit.hashedReveal) := by
  have hlen : (be64 commit.commitTs ++ commit.hashedReveal.toList).length = 40 := by simp
  have hdecode := base64Decode_base64Encode 40 hlen.le
  have hdrop : (be64 commit.commitTs ++ commit.hashedReveal.toList).drop 8 =
      commit.hashedReveal.toList := List.drop_left' (length_be64 _)
  have hshort : ¬ (commitEncode commit).length > srCommitBase64Len := by
    rw [commitEncode, length_base64Encode, hlen]
    decide
  rw [commitFields, if_neg hshort, commitEncode, hdecode]
  dsimp only
  rw [if_pos hlen, hdrop, getBe64_be64, zeroFill_toList_self]

theorem decoded_commitDecode {encoded : Bytes} {commit commit' : SrCommit}
    (halg : commit.alg = srDigestAlg) (h : commitDecode encoded commit = some commit') :
    Decoded commit' := by
  unfold commitDecode at h
  split at h
  · cases h
  · rename_i ts hashed hfields
    obtain rfl := Option.some.inj h
    exact ⟨halg, hfields⟩

theorem decoded_revealDecode {encoded : Bytes} {commit commit' : SrCommit} (hdec : Decoded commit)
    (h : revealDecode encoded commit = some commit') : Decoded commit' := by
  unfold revealDecode at h
  split at h
  · cases h
  · split at h
    · cases h
    · split at h
      · obtain rfl := Option.some.inj h
        exact hdec
      · cases h

theorem decoded_srParseCommit {digest : Digest} {value : Bytes} {reveal : Option Bytes}
    {commit : SrCommit} (h : srParseCommit digest value reveal = some commit) : Decoded commit := by
  obtain ⟨parsed, hparsed, hreveal⟩ := Option.bind_eq_some_iff.mp h
  have hdec : Decoded parsed := decoded_commitDecode rfl hparsed
  cases reveal with
  | none =>
    obtain rfl := Option.some.inj hreveal
    exact hdec
  | some value => exact decoded_revealDecode hdec hreveal

/-! ### Verification -/

def commitHasRevealValue (commit : SrCommit) : Bool := !commit.encodedReveal.isEmpty

def revealBlob (commit : SrCommit) : Bytes := (zeroFill srRevealBase64Len commit.encodedReveal).toList

def verifyCommitAndReveal (digest256 : Bytes → Digest256) (commit : SrCommit) : Bool :=
  decide (commit.commitTs = commit.revealTs) && decide (commit.alg = srDigestAlg) &&
    decide (digest256 (revealBlob commit) = commit.hashedReveal)

def commitmentsAreTheSame (one two : SrCommit) : Bool := one.encodedCommit == two.encodedCommit

def commitIsAuthoritative (commit : SrCommit) (voterKey : Digest) : Bool :=
  decide (commit.rsaIdentity = voterKey)

def srStateCopyRevealInfo (saved commit : SrCommit) : SrCommit :=
  { saved with
    revealTs := commit.revealTs
    randomNumber := commit.randomNumber
    encodedReveal := commit.encodedReveal }

theorem verify_copy {digest256 : Bytes → Digest256} {saved commit : SrCommit}
    (hsaved : Decoded saved) (hcommit : Decoded commit)
    (hsame : commitmentsAreTheSame commit saved = true)
    (hverify : verifyCommitAndReveal digest256 commit = true) :
    verifyCommitAndReveal digest256 (srStateCopyRevealInfo saved commit) = true := by
  have hencoded : commit.encodedCommit = saved.encodedCommit := eq_of_beq hsame
  have hfields := hsaved.2
  rw [← hencoded, hcommit.2] at hfields
  obtain ⟨hts, hhash⟩ := Prod.ext_iff.mp (Option.some.inj hfields)
  dsimp only at hts hhash
  simp only [verifyCommitAndReveal, Bool.and_eq_true, decide_eq_true_eq] at hverify ⊢
  exact ⟨⟨hts.symm.trans hverify.1.1, hsaved.1⟩, hverify.2.trans hhash⟩

/-- Our commitment of a run, from a random number; `rsaIdentity` is the digest of our key. -/
def srGenerateOurCommit (digest256 : Bytes → Digest256) (rsaIdentity : Digest) (timestamp : UInt64)
    (randomNumber : Digest256) : SrCommit :=
  let commit := { commitNew rsaIdentity with
    randomNumber := randomNumber, commitTs := timestamp, revealTs := timestamp }
  let commit := { commit with encodedReveal := revealEncode commit }
  let commit := { commit with hashedReveal := digest256 (revealBlob commit) }
  { commit with encodedCommit := commitEncode commit, valid := true }

theorem decoded_srGenerateOurCommit (digest256 : Bytes → Digest256) (rsaIdentity : Digest)
    (timestamp : UInt64) (randomNumber : Digest256) :
    Decoded (srGenerateOurCommit digest256 rsaIdentity timestamp randomNumber) :=
  ⟨rfl, commitFields_commitEncode _⟩

theorem verify_srGenerateOurCommit (digest256 : Bytes → Digest256) (rsaIdentity : Digest)
    (timestamp : UInt64) (randomNumber : Digest256) :
    verifyCommitAndReveal digest256
      (srGenerateOurCommit digest256 rsaIdentity timestamp randomNumber) = true := by
  simp [verifyCommitAndReveal, srGenerateOurCommit, commitNew, revealBlob]

/-! ### The shared random value -/

def srSrvToken : Bytes := ascii "shared-random"

def srProtoVersion : UInt32 := 1

/-- Return `none` if this is not a commit to be used for SRV calculation. -/
def getSrvElementFromCommit (commit : SrCommit) : Option Bytes :=
  if commitHasRevealValue commit then some (srCommitGetRsaFpr commit ++ commit.encodedReveal)
  else none

def srvMsg (hashedReveals : Digest256) (revealNum : ℕ) (previousSrv : Option SrSrv) : Bytes :=
  srSrvToken ++ be64 (UInt64.ofNat revealNum) ++ be32 srProtoVersion ++ hashedReveals.toList ++
    match previousSrv with
    | none => List.replicate 32 0
    | some srv => srv.value.toList

def generateSrv (digest256 : Bytes → Digest256) (hashedReveals : Digest256) (revealNum : ℕ)
    (previousSrv : Option SrSrv) : SrSrv where
  numReveals := revealNum
  value := digest256 (srvMsg hashedReveals revealNum previousSrv)

def fastMemcmp : Bytes → Bytes → ℤ
  | a :: as, b :: bs => if a < b then -1 else if b < a then 1 else fastMemcmp as bs
  | _, _ => 0

def compareReveal (a b : SrCommit) : ℤ := fastMemcmp a.hashedReveal.toList b.hashedReveal.toList

def srvOfSorted (digest256 : Bytes → Digest256) (sorted : List SrCommit)
    (previousSrv : Option SrSrv) : SrSrv :=
  let chunks := sorted.filterMap getSrvElementFromCommit
  generateSrv digest256 (digest256 chunks.flatten) chunks.length previousSrv

end SharedRandom
