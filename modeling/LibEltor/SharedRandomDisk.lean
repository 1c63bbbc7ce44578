/-
The disk state of the shared random protocol (`feature/dirauth/shared_random_state.c`).

The state is written to disk as a version, two times, a line for each shared random value and a line
for each commit, and is read back when an authority starts.
-/
import LibEltor.Protover
import LibEltor.SharedRandomState
import LibEltor.Versions

open Bytes Binascii Consdiff Smartlist

namespace SharedRandom

/-! ### The state that is saved -/

structure SavedState where
  state : SrState
  version : ℕ
  validUntil : ℤ

structure ConfigLine where
  key : Bytes
  value : Option Bytes

structure SrDiskState where
  version : ℕ
  validAfter : ℕ
  validUntil : ℤ
  commit : List ConfigLine
  sharedRandValues : List ConfigLine

def dstateCommitKey : Bytes := ascii "Commit"

def dstatePrevSrvKey : Bytes := ascii "SharedRandPreviousValue"

def dstateCurSrvKey : Bytes := ascii "SharedRandCurrentValue"

def torTolower (c : UInt8) : UInt8 := if 65 ≤ c ∧ c ≤ 90 then c + 32 else c

/-- That `strcasecmp` returns 0. -/
def sameKey (a b : Bytes) : Bool := a.map torTolower == b.map torTolower

def cryptoDigestAlgorithmGetName : DigestAlgorithm → Bytes
  | .sha1 => ascii "sha1"
  | .sha256 => ascii "sha256"
  | .sha512 => ascii "sha512"
  | .sha3_256 => ascii "sha3-256"
  | .sha3_512 => ascii "sha3-512"

def cryptoDigestAlgorithmParseName (name : Bytes) : Option DigestAlgorithm :=
  if name = ascii "sha1" then some .sha1
  else if name = ascii "sha256" then some .sha256
  else if name = ascii "sha512" then some .sha512
  else if name = ascii "sha3-256" then some .sha3_256
  else if name = ascii "sha3-512" then some .sha3_512
  else none

/-- `"%u %s %s %s%s"` -/
def diskStatePutCommitLine (commit : SrCommit) : ConfigLine where
  key := dstateCommitKey
  value := some (decimal srProtoVersion.toNat ++
    32 :: (cryptoDigestAlgorithmGetName commit.alg ++
      32 :: (srCommitGetRsaFpr commit ++
        32 :: (commit.encodedCommit ++
          if commitHasRevealValue commit then 32 :: commit.encodedReveal else []))))

def srSrvEncode (srv : SrSrv) : Bytes := base64Encode srv.value.toList

/-- `"%" PRIu64 " %s"` -/
def diskStatePutSrvLine (key : Bytes) (srv : SrSrv) : ConfigLine where
  key := key
  value := some (decimal srv.numReveals ++ 32 :: srSrvEncode srv)

def diskStateUpdate (N : SavedState) : SrDiskState where
  version := N.version
  validAfter := N.state.validAfter
  validUntil := N.validUntil
  sharedRandValues :=
    (N.state.previousSrv.map (diskStatePutSrvLine dstatePrevSrvKey)).toList ++
      (N.state.currentSrv.map (diskStatePutSrvLine dstateCurSrvKey)).toList
  commit := N.state.commits.map diskStatePutCommitLine

/-! ### Reading -/

def diskStateValidate (now : ℤ) (state : SrDiskState) : Bool :=
  if state.version = 0 ∨ state.version > srProtoVersion.toNat then false
  else if state.validUntil < now then false
  else if (state.validAfter : ℤ) ≥ state.validUntil then false
  else true

def uint32Max : ℕ := 2 ^ 32 - 1

def uint64Max : ℕ := 2 ^ 64 - 1

def parseWord (word : Bytes) (min max : ℕ) : Option ℕ :=
  match Protover.torParseUlong word min max with
  | some (value, []) => some value
  | _ => none

/-- `base16_decode` of the first 40 bytes, where there are as many. -/
def parseFpr (rsaIdentityFpr : Bytes) : Option Digest :=
  if rsaIdentityFpr.length < 40 then none
  else (Versions.base16Decode (rsaIdentityFpr.take 40)).map (zeroFill 20)

/-- `sr_parse_commit`; a version that is no number is taken as 0. -/
def parseCommitArgs : List Bytes → Option SrCommit
  | version :: algName :: rsaIdentityFpr :: value :: rest =>
    if (parseWord version 1 uint32Max).getD 0 > srProtoVersion.toNat then none
    else if cryptoDigestAlgorithmParseName algName ≠ some srDigestAlg then none
    else
      match parseFpr rsaIdentityFpr with
      | none => none
      | some digest => srParseCommit digest value rest.head?
  | _ => none

/-- None where the whole state is refused. -/
def diskStateParseCommit (s : SrState) (line : ConfigLine) : Option SrState :=
  match line.value with
  | none => some s
  | some value =>
    if sameKey line.key dstateCommitKey then
      let args := splitString 32 value
      if args.length < 3 then none
      else
        match parseCommitArgs args with
        | none => some s
        | some commit => some (commitAddToState { commit with valid := true } s)
    else some s

def srSrvValueBase64Len : ℕ := 44

def parseSrvArgs : List Bytes → Option SrSrv
  | numReveals :: value :: _ =>
    match parseWord numReveals 0 uint64Max with
    | none => none
    | some numReveals =>
      if value.length ≠ srSrvValueBase64Len then none
      else
        -- the padding at the end is left out
        match base64Decode 32 (value.take (srSrvValueBase64Len - 1)) with
        | none => none
        | some decoded =>
          if decoded.length = 32 then some ⟨numReveals, zeroFill 32 decoded⟩ else none
  | _ => none

structure SeenSrvs where
  previous : Option SrSrv
  current : Option SrSrv

def diskStateParseSrvLine (seen : SeenSrvs) (line : ConfigLine) : Option SeenSrvs :=
  match line.value with
  | none => some seen
  | some value =>
    match parseSrvArgs (splitString 32 value) with
    | none => none
    | some srv =>
      if sameKey line.key dstatePrevSrvKey then
        if seen.previous.isSome then none else some { seen with previous := some srv }
      else if sameKey line.key dstateCurSrvKey then
        if seen.current.isSome then none else some { seen with current := some srv }
      else some seen

def diskStateParse (env : SrEnv) (now : ℕ) (disk : SrDiskState) : Option SavedState := do
  let srvs ← disk.sharedRandValues.foldlM diskStateParseSrvLine ⟨none, none⟩
  let state := { stateNew env now with
    validAfter := disk.validAfter
    phase := getSrProtocolPhase env disk.validAfter
    previousSrv := srvs.previous
    currentSrv := srvs.current }
  let state ← disk.commit.foldlM diskStateParseCommit state
  some ⟨state, disk.version, disk.validUntil⟩

/-! ### Words -/

structure IsWord (w : Bytes) : Prop where
  trimmed : Trimmed w
  space : (32 : UInt8) ∉ w

theorem isWord_of_forall {w : Bytes} (hne : w ≠ []) (h : ∀ c ∈ w, torIsspace c = false) :
    IsWord w where
  trimmed := trimmed_of_forall hne h
  space hmem := absurd (h 32 hmem) (by decide)

theorem isWord_decimal (n : ℕ) : IsWord (decimal n) where
  trimmed := Protover.trimmed_decimal n
  space := Protover.space_notMem_decimal n

theorem torIsspace_of_bits {c : UInt8} {v : ℕ} (h : base64DecodeTable c = .bits v) :
    torIsspace c = false := by
  have hge : 43 ≤ c.toNat := by
    unfold base64DecodeTable at h
    simp only [UInt8.le_iff_toNat_le, ← UInt8.toNat_inj, UInt8.reduceToNat] at h
    split_ifs at h <;> omega
  have h13 : ¬ c ≤ 13 := by
    simp only [UInt8.le_iff_toNat_le, UInt8.reduceToNat]
    omega
  have h32 : c ≠ 32 := by
    rintro rfl
    exact absurd hge (by decide)
  simp [torIsspace, h13, h32]

theorem isWord_base64Encode {src : Bytes} (hne : src ≠ []) : IsWord (base64Encode src) := by
  refine isWord_of_forall ?_ fun c hc => ?_
  · intro hnil
    have hlen := length_base64Encode src
    rw [hnil, List.length_nil] at hlen
    have := List.length_pos_iff.mpr hne
    omega
  · by_cases hpad : c = encodePad
    · subst hpad
      rfl
    · obtain ⟨v, hv⟩ := mem_base64EncodeNopad
        (List.mem_filter.mpr ⟨hc, decide_eq_true hpad⟩ : c ∈ base64EncodeNopad src)
      exact torIsspace_of_bits hv

theorem hexDigit_not_space (n : ℕ) (hn : n < 16) : torIsspace (hexDigit n) = false := by
  have h : ∀ n : Fin 16, torIsspace (hexDigit n) = false := by decide
  exact h ⟨n, hn⟩

theorem isWord_base16Encode {src : Bytes} (hne : src ≠ []) : IsWord (base16Encode src) := by
  refine isWord_of_forall ?_ fun c hc => ?_
  · intro hnil
    have hlen := length_base16Encode src
    rw [hnil, List.length_nil] at hlen
    have := List.length_pos_iff.mpr hne
    omega
  · obtain ⟨b, -, hb⟩ := List.mem_flatMap.mp hc
    have hlt : b.toNat < 256 := b.toNat_lt
    simp only [List.mem_cons, List.not_mem_nil, or_false] at hb
    rcases hb with rfl | rfl
    · exact hexDigit_not_space _ (by omega)
    · exact hexDigit_not_space _ (by omega)

theorem IsWord.split {w t : Bytes} (h : IsWord w) :
    splitString 32 (w ++ 32 :: t) = w :: splitString 32 t := splitString_append h.trimmed h.space

theorem IsWord.split_self {w : Bytes} (h : IsWord w) : splitString 32 w = [w] :=
  splitString_self h.trimmed h.space

theorem parseWord_decimal {n min max : ℕ} (hmin : min ≤ n) (hn : n ≤ max)
    (hmax : max ≤ Protover.ulongMax) : parseWord (decimal n) min max = some n := by
  have h := Protover.torParseUlong_decimal hmin hn hmax (e := []) rfl
  rw [List.append_nil] at h
  rw [parseWord, h]

/-! ### Lines that were written -/

theorem base16Decode_base16Encode (src : Bytes) :
    Versions.base16Decode (base16Encode src) = some src := by
  have hdigit : ∀ n : ℕ, n < 16 → Versions.hexDecodeDigit (hexDigit n) = some n := by
    have h : ∀ n : Fin 16, Versions.hexDecodeDigit (hexDigit n) = some n.val := by decide
    exact fun n hn => h ⟨n, hn⟩
  induction src with
  | nil => rfl
  | cons b src ih =>
    have hb : b.toNat < 256 := b.toNat_lt
    have hcons : base16Encode (b :: src) =
        hexDigit (b.toNat / 16) :: hexDigit (b.toNat % 16) :: base16Encode src := rfl
    have hbyte : UInt8.ofNat (16 * (b.toNat / 16) + b.toNat % 16) = b := by
      rw [Nat.div_add_mod, UInt8.ofNat_toNat]
    rw [hcons, Versions.base16Decode, hdigit _ (by omega), hdigit _ (by omega), ih]
    simp only [Option.bind_eq_bind, Option.bind_some, hbyte]

theorem parseFpr_srCommitGetRsaFpr (commit : SrCommit) :
    parseFpr (srCommitGetRsaFpr commit) = some commit.rsaIdentity := by
  have hlen : (srCommitGetRsaFpr commit).length = 40 := by
    rw [srCommitGetRsaFpr, length_base16Encode, length_toList_block]
  rw [parseFpr, if_neg (by omega), List.take_of_length_le hlen.le, srCommitGetRsaFpr,
    base16Decode_base16Encode, Option.map_some, zeroFill_toList_self]

structure Restorable (commit : SrCommit) : Prop where
  decoded : Decoded commit
  valid : commit.valid = true
  commitWord : IsWord commit.encodedCommit
  reveal : (commit.encodedReveal = [] ∧ commit.revealTs = 0 ∧
      commit.randomNumber = zeroFill 32 []) ∨
    (IsWord commit.encodedReveal ∧ ∀ other, revealDecode commit.encodedReveal other =
      some { other with
        revealTs := commit.revealTs
        randomNumber := commit.randomNumber
        encodedReveal := commit.encodedReveal })

def revealValue (commit : SrCommit) : Option Bytes :=
  if commitHasRevealValue commit then some commit.encodedReveal else none

theorem srParseCommit_restorable {commit : SrCommit} (h : Restorable commit) :
    srParseCommit commit.rsaIdentity commit.encodedCommit (revealValue commit) =
      some { commit with valid := false } := by
  obtain ⟨halg, hfields⟩ := h.decoded
  rw [srParseCommit, commitDecode, hfields]
  simp only [Option.bind_eq_bind, Option.bind_some, revealValue, commitHasRevealValue]
  rcases h.reveal with ⟨hnone, hts, hrandom⟩ | ⟨hword, hread⟩
  · simp only [hnone, List.isEmpty_nil, Bool.not_true, Bool.false_eq_true, if_false]
    cases commit
    simp_all [commitNew]
  · have hne : commit.encodedReveal.isEmpty = false := by
      rw [List.isEmpty_eq_false_iff]
      exact hword.trimmed.ne_nil
    simp only [hne, Bool.not_false, if_true, hread]
    cases commit
    simp_all [commitNew]

theorem splitString_commitLine {commit : SrCommit} (h : Restorable commit) :
    splitString 32 (decimal srProtoVersion.toNat ++
      32 :: (cryptoDigestAlgorithmGetName commit.alg ++
        32 :: (srCommitGetRsaFpr commit ++
          32 :: (commit.encodedCommit ++
            if commitHasRevealValue commit then 32 :: commit.encodedReveal else [])))) =
      decimal srProtoVersion.toNat :: cryptoDigestAlgorithmGetName commit.alg ::
        srCommitGetRsaFpr commit :: commit.encodedCommit :: (revealValue commit).toList := by
  have hname : IsWord (cryptoDigestAlgorithmGetName commit.alg) := by
    have hsha : cryptoDigestAlgorithmGetName srDigestAlg =
        [115, 104, 97, 51, 45, 50, 53, 54] := by decide
    rw [h.decoded.1, hsha]
    refine isWord_of_forall (List.cons_ne_nil _ _) fun c hc => ?_
    simp only [List.mem_cons, List.not_mem_nil, or_false] at hc
    rcases hc with rfl | rfl | rfl | rfl | rfl | rfl | rfl | rfl <;> rfl
  have hfpr : IsWord (srCommitGetRsaFpr commit) := isWord_base16Encode fun hnil => by
    have hlen := length_toList_block commit.rsaIdentity
    rw [hnil] at hlen
    cases hlen
  rw [(isWord_decimal _).split, hname.split, hfpr.split, revealValue]
  rcases h.reveal with ⟨hnone, -⟩ | ⟨hword, -⟩
  · have hno : commitHasRevealValue commit = false := by rw [commitHasRevealValue, hnone]; rfl
    rw [hno, if_neg (by decide), if_neg (by decide), List.append_nil, h.commitWord.split_self]
    rfl
  · have hyes : commitHasRevealValue commit = true := by
      rw [commitHasRevealValue, List.isEmpty_eq_false_iff.mpr hword.trimmed.ne_nil]
      rfl
    rw [hyes, if_pos rfl, if_pos rfl, h.commitWord.split, hword.split_self]
    rfl

theorem diskStateParseCommit_line {commit : SrCommit} (h : Restorable commit) (s : SrState) :
    diskStateParseCommit s (diskStatePutCommitLine commit) = some (commitAddToState commit s) := by
  have hkey : sameKey dstateCommitKey dstateCommitKey = true := beq_self_eq_true _
  have hversion : parseWord (decimal srProtoVersion.toNat) 1 uint32Max =
      some srProtoVersion.toNat := parseWord_decimal (by decide) (by decide) (by decide)
  have halg : cryptoDigestAlgorithmParseName (cryptoDigestAlgorithmGetName commit.alg) =
      some srDigestAlg := by
    rw [h.decoded.1]
    decide
  have hhead : (revealValue commit).toList.head? = revealValue commit := by
    cases revealValue commit <;> rfl
  have hvalid : { { commit with valid := false } with valid := true } = commit := by
    have hv := h.valid
    cases commit
    simp_all
  simp only [diskStateParseCommit, diskStatePutCommitLine, hkey, if_true,
    splitString_commitLine h]
  rw [if_neg (by simp), parseCommitArgs, hversion, Option.getD_some, if_neg (lt_irrefl _), halg,
    if_neg (not_not.mpr rfl), parseFpr_srCommitGetRsaFpr]
  simp only
  rw [hhead, srParseCommit_restorable h]
  simp only [hvalid]

theorem base64Encode_eq_append (src : Bytes) :
    ∃ n, base64Encode src = base64EncodeNopad src ++ List.replicate n encodePad := by
  induction src using base64Encode.induct with
  | case1 a b c src ih =>
    obtain ⟨n, hn⟩ := ih
    refine ⟨n, ?_⟩
    rw [base64EncodeNopad_group, base64Encode, hn]
    rfl
  | case2 a b => exact ⟨1, by rw [base64EncodeNopad_two]; rfl⟩
  | case3 a => exact ⟨2, by rw [base64EncodeNopad_one]; rfl⟩
  | case4 => exact ⟨0, rfl⟩

theorem parseSrvArgs_encoded {srv : SrSrv} (h : srv.numReveals ≤ uint64Max) :
    parseSrvArgs [decimal srv.numReveals, srSrvEncode srv] = some srv := by
  have hlen : srv.value.toList.length = 32 := length_toList_block _
  have htake : (srSrvEncode srv).take (srSrvValueBase64Len - 1) =
      base64EncodeNopad srv.value.toList := by
    obtain ⟨n, hn⟩ := base64Encode_eq_append srv.value.toList
    have hnopad : (base64EncodeNopad srv.value.toList).length = 43 := by
      rw [length_base64EncodeNopad, hlen]
    rw [srSrvEncode, hn]
    exact List.take_left' hnopad
  have h44 : ¬ (srSrvEncode srv).length ≠ srSrvValueBase64Len := by
    rw [srSrvEncode, length_base64Encode, hlen]
    decide
  rw [parseSrvArgs, parseWord_decimal (Nat.zero_le _) h (by decide)]
  simp only
  rw [if_neg h44, htake, base64Decode_base64EncodeNopad 32 hlen.le]
  simp only [hlen, if_true, zeroFill_toList_self]

theorem splitString_srvLine (srv : SrSrv) :
    splitString 32 (decimal srv.numReveals ++ 32 :: srSrvEncode srv) =
      [decimal srv.numReveals, srSrvEncode srv] := by
  have hvalue : IsWord (srSrvEncode srv) := isWord_base64Encode fun hnil => by
    have hlen := length_toList_block srv.value
    rw [hnil] at hlen
    cases hlen
  rw [(isWord_decimal _).split, hvalue.split_self]

def SrvFits (srv : SrSrv) : Prop := srv.numReveals ≤ uint64Max

theorem diskStateParseSrv_previous {srv : SrSrv} (h : SrvFits srv) :
    diskStateParseSrvLine ⟨none, none⟩ (diskStatePutSrvLine dstatePrevSrvKey srv) =
      some ⟨some srv, none⟩ := by
  have hkey : sameKey dstatePrevSrvKey dstatePrevSrvKey = true := beq_self_eq_true _
  simp only [diskStateParseSrvLine, diskStatePutSrvLine, splitString_srvLine,
    parseSrvArgs_encoded h, hkey, if_true]
  rfl

theorem diskStateParseSrv_current {srv : SrSrv} (h : SrvFits srv) (previous : Option SrSrv) :
    diskStateParseSrvLine ⟨previous, none⟩ (diskStatePutSrvLine dstateCurSrvKey srv) =
      some ⟨previous, some srv⟩ := by
  have hkey : sameKey dstateCurSrvKey dstateCurSrvKey = true := beq_self_eq_true _
  have hother : sameKey dstateCurSrvKey dstatePrevSrvKey = false := by rfl
  simp only [diskStateParseSrvLine, diskStatePutSrvLine, splitString_srvLine,
    parseSrvArgs_encoded h, hkey, hother, if_true]
  rfl

theorem foldlM_parseSrvLine {previous current : Option SrSrv}
    (hprevious : ∀ srv, previous = some srv → SrvFits srv)
    (hcurrent : ∀ srv, current = some srv → SrvFits srv) :
    ((previous.map (diskStatePutSrvLine dstatePrevSrvKey)).toList ++
        (current.map (diskStatePutSrvLine dstateCurSrvKey)).toList).foldlM
      diskStateParseSrvLine ⟨none, none⟩ = some ⟨previous, current⟩ := by
  have hlast : ∀ previous, (current.map (diskStatePutSrvLine dstateCurSrvKey)).toList.foldlM
      diskStateParseSrvLine ⟨previous, none⟩ = some ⟨previous, current⟩ := by
    intro previous
    cases current with
    | none => rfl
    | some srv =>
      rw [Option.map_some, Option.toList_some, List.foldlM_cons,
        diskStateParseSrv_current (hcurrent srv rfl)]
      rfl
  cases previous with
  | none => exact hlast none
  | some srv =>
    rw [Option.map_some, Option.toList_some, List.singleton_append, List.foldlM_cons,
      diskStateParseSrv_previous (hprevious srv rfl)]
    exact hlast (some srv)

theorem foldlM_parseCommit (commits : List SrCommit) (s : SrState)
    (hrestore : ∀ c ∈ commits, Restorable c)
    (hnodup : ((s.commits ++ commits).map (·.rsaIdentity)).Nodup) :
    (commits.map diskStatePutCommitLine).foldlM diskStateParseCommit s =
      some { s with commits := s.commits ++ commits } := by
  induction commits generalizing s with
  | nil => simp
  | cons commit commits ih =>
    have hfilter : (s.commits.filter fun c => c.rsaIdentity ≠ commit.rsaIdentity) = s.commits := by
      rw [List.filter_eq_self]
      intro c hc
      rw [List.map_append, List.map_cons, List.nodup_append] at hnodup
      exact decide_eq_true (hnodup.2.2 _ (List.mem_map_of_mem hc) _ List.mem_cons_self)
    have hadd : commitAddToState commit s = { s with commits := s.commits ++ [commit] } := by
      rw [commitAddToState, hfilter]
    rw [List.map_cons, List.foldlM_cons,
      diskStateParseCommit_line (hrestore commit List.mem_cons_self) s, hadd]
    simp only [Option.bind_eq_bind, Option.bind_some]
    rw [ih]
    · simp only [List.append_assoc, List.singleton_append]
    · exact fun c hc => hrestore c (List.mem_cons_of_mem commit hc)
    · simpa only [List.append_assoc, List.singleton_append] using hnodup

theorem diskStateParse_update (env : SrEnv) (now : ℕ) (N : SavedState)
    (hprevious : ∀ srv, N.state.previousSrv = some srv → SrvFits srv)
    (hcurrent : ∀ srv, N.state.currentSrv = some srv → SrvFits srv)
    (hrestore : ∀ c ∈ N.state.commits, Restorable c)
    (hnodup : (N.state.commits.map (·.rsaIdentity)).Nodup) :
    diskStateParse env now (diskStateUpdate N) = some
      { state := { stateNew env now with
          validAfter := N.state.validAfter
          phase := getSrProtocolPhase env N.state.validAfter
          commits := N.state.commits
          previousSrv := N.state.previousSrv
          currentSrv := N.state.currentSrv }
        version := N.version
        validUntil := N.validUntil } := by
  rw [diskStateParse, diskStateUpdate]
  simp only [Option.bind_eq_bind]
  rw [foldlM_parseSrvLine hprevious hcurrent, Option.bind_some, foldlM_parseCommit]
  · rfl
  · exact hrestore
  · exact hnodup

end SharedRandom
