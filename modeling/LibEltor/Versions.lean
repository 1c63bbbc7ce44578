/-
Tor versions: parsing, comparing and sorting them (`core/or/versions.c`).

The fields of two versions are compared by their difference modulo 2^32, read as an `int`.  All of
them but one are numbers from 0 to `INT32_MAX`; the svn revision is whatever `strtol` returns, cut to
32 bits.
-/
import Mathlib
import LibEltor.Comparison
import LibEltor.Consdiff
import LibEltor.Smartlist

open Bytes Comparison

namespace Versions

/-! ### Parsing -/

def int32Max : ℕ := 2 ^ 31 - 1

abbrev Number := {n : ℕ // n ≤ int32Max}

def zero : Number := ⟨0, Nat.zero_le int32Max⟩

inductive Status
  | pre
  | rc
  | release
  deriving DecidableEq

def Status.toNat : Status → ℕ
  | pre => 0
  | rc => 1
  | release => 2

def digestLen : ℕ := 20

def hexDigestLen : ℕ := 40

def maxStatusTagLen : ℕ := 32

abbrev GitTag := {digest : Bytes // digest.length ≤ digestLen}

def noGitTag : GitTag := ⟨[], Nat.zero_le digestLen⟩

structure TorVersion where
  major : Number
  minor : Number
  micro : Number
  status : Status
  patchlevel : Number
  statusTag : Bytes
  svnRevision : ℤ
  gitTag : GitTag
  deriving DecidableEq

def TorVersion.gitTagLen (v : TorVersion) : ℕ := v.gitTag.1.length

def toLower (c : UInt8) : UInt8 := if 65 ≤ c ∧ c ≤ 90 then c + 32 else c

def number (cp : Bytes) : Option (Number × Bytes) :=
  if Consdiff.torIsdigit (cp.headD 0) then
    let n := Consdiff.valueOf (cp.takeWhile Consdiff.torIsdigit)
    if h : n ≤ int32Max then some (⟨n, h⟩, cp.dropWhile Consdiff.torIsdigit) else none
  else none

def dot (cp : Bytes) : Option Bytes := if cp.headD 0 = 46 then some cp.tail else none

/-- Where `find_whitespace` stops. -/
def endsWord (c : UInt8) : Bool := c == 0 || c == 35 || c == 32 || c == 13 || c == 10 || c == 9

def eatWhitespace (s : Bytes) : Bytes :=
  match s with
  | [] => []
  | c :: rest =>
    if c = 32 ∨ c = 9 ∨ c = 10 ∨ c = 13 then eatWhitespace rest
    else if c = 35 then eatWhitespace (rest.dropWhile fun c => c ≠ 0 && c ≠ 10)
    else c :: rest
termination_by s.length
decreasing_by
  · simp
  · have hle := (List.dropWhile_suffix (l := rest) fun c => c ≠ 0 && c ≠ 10).length_le
    simp only [List.length_cons]
    omega

/-- In base 10; `long` has 64 bits. -/
def strtol (s : Bytes) : ℤ :=
  let s := s.dropWhile Smartlist.torIsspace
  let digits := if s.headD 0 = 45 ∨ s.headD 0 = 43 then s.tail else s
  let value : ℤ := Consdiff.valueOf (digits.takeWhile Consdiff.torIsdigit)
  if s.headD 0 = 45 then max (-value) (-2 ^ 63) else min value (2 ^ 63 - 1)

def hexDecodeDigit (c : UInt8) : Option ℕ :=
  if 48 ≤ c ∧ c ≤ 57 then some (c.toNat - 48)
  else if 65 ≤ c ∧ c ≤ 70 then some (c.toNat - 55)
  else if 97 ≤ c ∧ c ≤ 102 then some (c.toNat - 87)
  else none

def base16Decode : Bytes → Option Bytes
  | [] => some []
  | [_] => none
  | c1 :: c2 :: src => do
    let v1 ← hexDecodeDigit c1
    let v2 ← hexDecodeDigit c2
    let dest ← base16Decode src
    some (UInt8.ofNat (16 * v1 + v2) :: dest)

theorem length_base16Decode {src digest : Bytes} (h : base16Decode src = some digest) :
    2 * digest.length = src.length := by
  induction src using base16Decode.induct generalizing digest with
  | case1 =>
    obtain rfl := Option.some.inj h
    rfl
  | case2 c => cases h
  | case3 c1 c2 src ih =>
    simp only [base16Decode, Option.bind_eq_bind, Option.bind_eq_some_iff, Option.some.injEq] at h
    obtain ⟨v1, -, v2, -, dest, hdest, rfl⟩ := h
    have hlen := ih hdest
    simp only [List.length_cons]
    omega

theorem length_gitTag_le {hex digest : Bytes} (hlen : hex.length ≤ hexDigestLen)
    (h : base16Decode hex = some digest) : digest.length ≤ digestLen := by
  have hdec := length_base16Decode h
  simp only [hexDigestLen, digestLen] at hlen ⊢
  omega

def readGitTag (hex : Bytes) : Option GitTag :=
  if hlen : hex.length ≤ hexDigestLen then
    if hex.length = 0 ∨ hex.length % 2 = 1 then none
    else
      match hdec : base16Decode hex with
      | none => none
      | some digest => some ⟨digest, length_gitTag_le hlen hdec⟩
  else none

def readStatusTag (out : TorVersion) (cp : Bytes) : Option TorVersion :=
  let cp := if cp.headD 0 = 45 ∨ cp.headD 0 = 46 then cp.tail else cp
  let tag := cp.takeWhile fun c => !endsWord c
  let out := { out with statusTag := tag.take (maxStatusTagLen - 1) }
  let cp := eatWhitespace (cp.dropWhile fun c => !endsWord c)
  if cp.take 2 = ascii "(r" then
    some { out with svnRevision := (strtol (cp.drop 2)).bmod (2 ^ 32) }
  else if cp.take 5 = ascii "(git-" then
    let cp := cstr (cp.drop 5)
    if 41 ∈ cp then
      (readGitTag (cp.takeWhile (· ≠ 41))).map fun gitTag => { out with gitTag := gitTag }
    else none
  else some out

def readPatchlevel (out : TorVersion) (cp : Bytes) : Option TorVersion := do
  let (patchlevel, cp) ← number cp
  readStatusTag { out with patchlevel := patchlevel } cp

def torVersionParse (s : Bytes) : Option TorVersion := do
  let s := if (s.take 4).map toLower = ascii "tor " then s.drop 4 else s
  let (major, cp) ← number s
  let cp ← dot cp
  let (minor, cp) ← number cp
  let out : TorVersion := ⟨major, minor, zero, .release, zero, [], 0, noGitTag⟩
  if cp.headD 0 = 0 then some out
  else if cp.headD 0 = 45 then readStatusTag out cp
  else
    let cp ← dot cp
    let (micro, cp) ← number cp
    let out := { out with micro := micro }
    if cp.headD 0 = 0 then some out
    else if cp.headD 0 = 46 then readPatchlevel out cp.tail
    else if cp.headD 0 = 45 then readStatusTag out cp
    else if cp.take 3 = ascii "pre" then readPatchlevel { out with status := .pre } (cp.drop 3)
    else if cp.take 2 = ascii "rc" then readPatchlevel { out with status := .rc } (cp.drop 2)
    else none

/-! ### Comparing -/

/-- What both `strcmp` and `memcmp` do with what they look at. -/
def bytesCmp : Bytes → Bytes → ℤ
  | [], [] => 0
  | [], _ :: _ => -1
  | _ :: _, [] => 1
  | x :: a, y :: b => if x < y then -1 else if y < x then 1 else bytesCmp a b

def strcmp (a b : Bytes) : ℤ := bytesCmp (cstr a) (cstr b)

def fastMemcmp (a b : Bytes) (n : ℕ) : ℤ := bytesCmp (a.take n) (b.take n)

/-- `CMP`: the sign of the difference of the fields as unsigned numbers, read as an `int`. -/
def cmp (a b : ℤ) : ℤ :=
  let result := (a - b).bmod (2 ^ 32)
  if result < 0 then -1 else if result > 0 then 1 else 0

def orElse (result rest : ℤ) : ℤ := if result ≠ 0 then result else rest

def torVersionCompare (a b : TorVersion) : ℤ :=
  orElse (cmp a.major.1 b.major.1) <|
  orElse (cmp a.minor.1 b.minor.1) <|
  orElse (cmp a.micro.1 b.micro.1) <|
  orElse (cmp a.status.toNat b.status.toNat) <|
  orElse (cmp a.patchlevel.1 b.patchlevel.1) <|
  orElse (strcmp a.statusTag b.statusTag) <|
  orElse (cmp a.svnRevision b.svnRevision) <|
  orElse (cmp a.gitTagLen b.gitTagLen) <|
  if a.gitTagLen ≠ 0 then fastMemcmp a.gitTag.1 b.gitTag.1 a.gitTagLen else 0

def compareTorVersionStrPtr (a b : Bytes) : ℤ :=
  match torVersionParse a, torVersionParse b with
  | some va, some vb => torVersionCompare va vb
  | some _, none => -1
  | none, some _ => 1
  | none, none => strcmp a b

def uniqFrom {α : Type} (compare : α → α → ℤ) (kept : α) : List α → List α
  | [] => []
  | a :: sl => if compare kept a = 0 then uniqFrom compare kept sl else a :: uniqFrom compare a sl

def smartlistUniq {α : Type} (compare : α → α → ℤ) : List α → List α
  | [] => []
  | a :: sl => a :: uniqFrom compare a sl

def sortVersionList (qsort : (Bytes → Bytes → ℤ) → List Bytes → List Bytes)
    (versions : List Bytes) (removeDuplicates : Bool) : List Bytes :=
  let versions := qsort compareTorVersionStrPtr versions
  if removeDuplicates then smartlistUniq compareTorVersionStrPtr versions else versions

/-! ### The order of the versions -/

def bytesKey (b : Bytes) : List ℕ := b.map UInt8.toNat

theorem bytesCmp_agrees (a b : Bytes) : Agrees (bytesCmp a b) (bytesKey a) (bytesKey b) := by
  induction a generalizing b with
  | nil =>
    cases b with
    | nil => exact agrees_nil
    | cons y b => exact ⟨by simp [bytesCmp, bytesKey], by simp [bytesCmp, bytesKey]⟩
  | cons x a ih =>
    cases b with
    | nil => exact ⟨by simp [bytesCmp, bytesKey], by simp [bytesCmp, bytesKey]⟩
    | cons y b =>
      have hhead : Agrees (if x < y then -1 else if y < x then 1 else 0) x.toNat y.toNat := by
        simp only [UInt8.lt_iff_toNat_lt]
        exact agrees_ite _ _
      have hcons := hhead.cons fun _ => ih b
      have heq : bytesCmp (x :: a) (y :: b) =
          if (if x < y then -1 else if y < x then 1 else 0 : ℤ) ≠ 0 then
            (if x < y then -1 else if y < x then 1 else 0) else bytesCmp a b := by
        rw [bytesCmp]
        split_ifs <;> simp_all
      rw [heq]
      exact hcons

theorem cmp_agrees {a b : ℤ} {x y : ℕ} (hx : x < 2 ^ 31) (hy : y < 2 ^ 31)
    (h : (a - b - (x - y)) % 2 ^ 32 = 0) : Agrees (cmp a b) x y := by
  have hbmod : (a - b).bmod (2 ^ 32) = x - y := by
    rw [Int.bmod_def]
    norm_num
    split_ifs <;> omega
  have hcmp : cmp a b = if x < y then -1 else if y < x then 1 else 0 := by
    simp only [cmp, hbmod]
    split_ifs <;> omega
  rw [hcmp]
  exact agrees_ite x y

theorem cmp_nat_agrees {x y : ℕ} (hx : x < 2 ^ 31) (hy : y < 2 ^ 31) : Agrees (cmp x y) [x] [y] :=
  (cmp_agrees hx hy (by simp)).single

theorem number_lt (n : Number) : n.1 < 2 ^ 31 := by
  have h := n.2
  simp only [int32Max] at h
  omega

theorem status_lt (s : Status) : s.toNat < 2 ^ 31 := by
  cases s <;> decide

theorem gitTagLen_lt (v : TorVersion) : v.gitTagLen < 2 ^ 31 := by
  have h := v.gitTag.2
  simp only [digestLen] at h
  rw [TorVersion.gitTagLen]
  omega

def TorVersion.front (v : TorVersion) : List (List ℕ) :=
  [[v.major.1], [v.minor.1], [v.micro.1], [v.status.toNat], [v.patchlevel.1],
    bytesKey (cstr v.statusTag)]

/-- The revision on the circle of the 32-bit numbers, counted from `c` on. -/
def TorVersion.revisionFrom (v : TorVersion) (c : ℤ) : ℕ := ((v.svnRevision - c) % 2 ^ 32).toNat

def TorVersion.key (c : List (List ℕ) → ℤ) (v : TorVersion) : List (List ℕ) :=
  [[v.major.1], [v.minor.1], [v.micro.1], [v.status.toNat], [v.patchlevel.1],
    bytesKey (cstr v.statusTag), [v.revisionFrom (c v.front)], [v.gitTagLen], bytesKey v.gitTag.1]

theorem revision_agrees {a b : TorVersion} {c : ℤ} (ha : a.revisionFrom c < 2 ^ 31)
    (hb : b.revisionFrom c < 2 ^ 31) :
    Agrees (cmp a.svnRevision b.svnRevision) [a.revisionFrom c] [b.revisionFrom c] := by
  refine (cmp_agrees ha hb ?_).single
  simp only [TorVersion.revisionFrom]
  omega

theorem gitTag_agrees {a b : TorVersion} (hlen : a.gitTagLen = b.gitTagLen) :
    Agrees (if a.gitTagLen ≠ 0 then fastMemcmp a.gitTag.1 b.gitTag.1 a.gitTagLen else 0)
      [bytesKey a.gitTag.1] [bytesKey b.gitTag.1] := by
  refine Agrees.single ?_
  by_cases hzero : a.gitTagLen = 0
  · rw [if_neg (not_not.mpr hzero), List.eq_nil_of_length_eq_zero hzero,
      List.eq_nil_of_length_eq_zero (hlen.symm.trans hzero)]
    exact agrees_nil
  · rw [if_pos hzero, fastMemcmp, List.take_of_length_le (le_refl a.gitTagLen),
      List.take_of_length_le hlen.ge]
    exact bytesCmp_agrees _ _

theorem torVersionCompare_agrees {a b : TorVersion} (c : List (List ℕ) → ℤ)
    (ha : a.revisionFrom (c a.front) < 2 ^ 31) (hb : b.revisionFrom (c b.front) < 2 ^ 31) :
    Agrees (torVersionCompare a b) (a.key c) (b.key c) := by
  unfold torVersionCompare TorVersion.key orElse
  refine (cmp_nat_agrees (number_lt _) (number_lt _)).cons fun hmajor => ?_
  refine (cmp_nat_agrees (number_lt _) (number_lt _)).cons fun hminor => ?_
  refine (cmp_nat_agrees (number_lt _) (number_lt _)).cons fun hmicro => ?_
  refine (cmp_nat_agrees (status_lt _) (status_lt _)).cons fun hstatus => ?_
  refine (cmp_nat_agrees (number_lt _) (number_lt _)).cons fun hpatchlevel => ?_
  refine (bytesCmp_agrees _ _).cons fun htag => ?_
  -- where all fields so far agree, the revisions are counted from one `c`
  have hfront : b.front = a.front := by
    simp only [TorVersion.front, hmajor, hminor, hmicro, hstatus, hpatchlevel, htag]
  rw [hfront] at hb ⊢
  refine (revision_agrees ha hb).cons fun _ => ?_
  refine (cmp_nat_agrees (gitTagLen_lt _) (gitTagLen_lt _)).cons fun hlen => ?_
  exact gitTag_agrees (List.head_eq_of_cons_eq hlen)

def stringKey (c : List (List ℕ) → ℤ) (s : Bytes) : List (List ℕ) :=
  match torVersionParse s with
  | some v => [0] :: v.key c
  | none => [[1], bytesKey (cstr s)]

theorem compareTorVersionStrPtr_agrees {a b : Bytes} (c : List (List ℕ) → ℤ)
    (ha : ∀ v, torVersionParse a = some v → v.revisionFrom (c v.front) < 2 ^ 31)
    (hb : ∀ v, torVersionParse b = some v → v.revisionFrom (c v.front) < 2 ^ 31) :
    Agrees (compareTorVersionStrPtr a b) (stringKey c a) (stringKey c b) := by
  have hlt : ∀ xs ys : List (List ℕ), [0] :: xs < [1] :: ys :=
    fun _ _ => List.cons_lt_cons_iff.mpr (Or.inl (by decide))
  unfold compareTorVersionStrPtr stringKey
  cases hva : torVersionParse a with
  | none =>
    cases hvb : torVersionParse b with
    | none => exact (bytesCmp_agrees _ _).single.tail [1]
    | some vb => exact agrees_of_gt (hlt _ _)
  | some va =>
    cases hvb : torVersionParse b with
    | none => exact agrees_of_lt (hlt _ _)
    | some vb => exact (torVersionCompare_agrees c (ha va hva) (hb vb hvb)).tail [0]

/-! ### Sorting -/

theorem uniqFrom_spec {α : Type} {compare : α → α → ℤ} {key : α → List (List ℕ)} {kept : α}
    {sl : List α} (hkey : ByKey compare key (kept :: sl))
    (hsorted : (kept :: sl).Pairwise fun a b => key a ≤ key b) :
    (kept :: uniqFrom compare kept sl).Pairwise (fun a b => key a < key b) ∧
      (∀ a ∈ uniqFrom compare kept sl, a ∈ sl) ∧
      ∀ a ∈ sl, ∃ b ∈ kept :: uniqFrom compare kept sl, key a = key b := by
  induction sl generalizing kept with
  | nil =>
    exact ⟨List.pairwise_singleton _ _, fun a ha => ha, fun a ha => absurd ha List.not_mem_nil⟩
  | cons a sl ih =>
    have hzero := (hkey kept List.mem_cons_self a (by simp)).zero_iff
    obtain ⟨hkept, hrest⟩ := List.pairwise_cons.mp hsorted
    obtain ⟨ha, hsl⟩ := List.pairwise_cons.mp hrest
    rw [uniqFrom]
    by_cases heq : compare kept a = 0
    · -- `a` is dropped, and `kept` is compared with what comes next
      have hpairs : (kept :: sl).Pairwise fun a b => key a ≤ key b :=
        List.pairwise_cons.mpr ⟨fun b hb => hkept b (List.mem_cons_of_mem a hb), hsl⟩
      obtain ⟨hstrict, hsub, hall⟩ := ih (hkey.subset fun b hb => by
        simp only [List.mem_cons] at hb ⊢
        tauto) hpairs
      rw [if_pos heq]
      refine ⟨hstrict, fun b hb => List.mem_cons_of_mem a (hsub b hb), ?_⟩
      exact List.forall_mem_cons.mpr ⟨⟨kept, List.mem_cons_self, (hzero.mp heq).symm⟩, hall⟩
    · obtain ⟨hstrict, hsub, hall⟩ := ih (hkey.subset fun b hb => List.mem_cons_of_mem kept hb) hrest
      have hlt : key kept < key a :=
        lt_of_le_of_ne (hkept a List.mem_cons_self) fun h => heq (hzero.mpr h)
      rw [if_neg heq]
      refine ⟨List.pairwise_cons.mpr ⟨?_, hstrict⟩, ?_, ?_⟩
      · refine List.forall_mem_cons.mpr ⟨hlt, fun b hb => ?_⟩
        exact hlt.trans_le (ha b (hsub b hb))
      · exact List.forall_mem_cons.mpr
          ⟨List.mem_cons_self, fun b hb => List.mem_cons_of_mem a (hsub b hb)⟩
      · refine List.forall_mem_cons.mpr ⟨⟨a, by simp, rfl⟩, fun b hb => ?_⟩
        obtain ⟨d, hd, hbd⟩ := hall b hb
        exact ⟨d, List.mem_cons_of_mem kept hd, hbd⟩

theorem smartlistUniq_spec {α : Type} {compare : α → α → ℤ} {key : α → List (List ℕ)}
    {sl : List α} (hkey : ByKey compare key sl)
    (hsorted : sl.Pairwise fun a b => key a ≤ key b) :
    (smartlistUniq compare sl).Pairwise (fun a b => key a < key b) ∧
      (∀ a ∈ smartlistUniq compare sl, a ∈ sl) ∧
      ∀ a ∈ sl, ∃ b ∈ smartlistUniq compare sl, key a = key b := by
  cases sl with
  | nil => exact ⟨List.Pairwise.nil, fun a ha => ha, fun a ha => absurd ha List.not_mem_nil⟩
  | cons a sl =>
    obtain ⟨hstrict, hsub, hall⟩ := uniqFrom_spec hkey hsorted
    refine ⟨hstrict, ?_, List.forall_mem_cons.mpr ⟨⟨a, List.mem_cons_self, rfl⟩, hall⟩⟩
    exact List.forall_mem_cons.mpr
      ⟨List.mem_cons_self, fun b hb => List.mem_cons_of_mem a (hsub b hb)⟩

/-- The revisions of versions that agree in all fields before them are in one half of the circle of
the 32-bit numbers: in that from some `c` on. -/
def HalfRange (versions : List Bytes) : Prop :=
  ∀ front, ∃ c : ℤ, ∀ s ∈ versions, ∀ v, torVersionParse s = some v → v.front = front →
    v.revisionFrom c < 2 ^ 31

/-- The comparison is a total preorder on a list; without duplicates, the sorted list is ascending,
has what is in the list up to what compares equal, and is the same for every order of the list. -/
structure SortsVersions (qsort qsort' : (Bytes → Bytes → ℤ) → List Bytes → List Bytes)
    (versions : List Bytes) : Prop where
  preordered : Preordered compareTorVersionStrPtr versions
  ascending : (sortVersionList qsort versions true).Pairwise fun a b =>
    compareTorVersionStrPtr a b < 0
  mem_of_mem : ∀ s ∈ sortVersionList qsort versions true, s ∈ versions
  exists_equal : ∀ s ∈ versions, ∃ t ∈ sortVersionList qsort versions true,
    compareTorVersionStrPtr s t = 0
  anyOrder : ∀ versions' : List Bytes, versions'.Perm versions →
    List.Forall₂ (fun a b => compareTorVersionStrPtr a b = 0)
      (sortVersionList qsort versions true) (sortVersionList qsort' versions' true)

theorem sortVersionList_spec {qsort : (Bytes → Bytes → ℤ) → List Bytes → List Bytes}
    (hsorts : Sorts qsort) {versions : List Bytes} {key : Bytes → List (List ℕ)}
    (hkey : ByKey compareTorVersionStrPtr key versions) :
    (sortVersionList qsort versions true).Pairwise (fun a b => key a < key b) ∧
      (∀ s ∈ sortVersionList qsort versions true, s ∈ versions) ∧
      ∀ s ∈ versions, ∃ t ∈ sortVersionList qsort versions true, key s = key t := by
  have hperm := hsorts.perm compareTorVersionStrPtr versions hkey.preordered
  have hpairs := hsorts.sorted compareTorVersionStrPtr versions hkey.preordered
  have hkey' := hkey.subset fun s hs => hperm.mem_iff.mp hs
  have hsorted : (qsort compareTorVersionStrPtr versions).Pairwise fun a b => key a ≤ key b :=
    hpairs.imp_of_mem fun ha hb hab => (hkey' _ ha _ hb).le_iff.mp hab
  obtain ⟨hstrict, hsub, hall⟩ := smartlistUniq_spec hkey' hsorted
  exact ⟨hstrict, fun s hs => hperm.mem_iff.mp (hsub s hs),
    fun s hs => hall s (hperm.mem_iff.mpr hs)⟩

theorem sortsVersions_of_byKey {qsort qsort' : (Bytes → Bytes → ℤ) → List Bytes → List Bytes}
    (hsorts : Sorts qsort) (hsorts' : Sorts qsort') {versions : List Bytes}
    {key : Bytes → List (List ℕ)} (hkey : ByKey compareTorVersionStrPtr key versions) :
    SortsVersions qsort qsort' versions := by
  obtain ⟨hstrict, hsub, hall⟩ := sortVersionList_spec hsorts hkey
  refine ⟨hkey.preordered, ?_, hsub, ?_, ?_⟩
  · exact hstrict.imp_of_mem fun ha hb hab => (hkey _ (hsub _ ha) _ (hsub _ hb)).neg_iff.mpr hab
  · intro s hs
    obtain ⟨t, ht, hst⟩ := hall s hs
    exact ⟨t, ht, (hkey s hs t (hsub t ht)).zero_iff.mpr hst⟩
  · intro versions' hperm
    have hkey' := hkey.subset fun s (hs : s ∈ versions') => hperm.mem_iff.mp hs
    obtain ⟨hstrict', hsub', hall'⟩ := sortVersionList_spec hsorts' hkey'
    have hsame := eq_of_same_keys hstrict hstrict' fun k => by
      constructor
      · rintro ⟨a, ha, rfl⟩
        obtain ⟨b, hb, hab⟩ := hall' a (hperm.mem_iff.mpr (hsub a ha))
        exact ⟨b, hb, hab.symm⟩
      · rintro ⟨a, ha, rfl⟩
        obtain ⟨b, hb, hab⟩ := hall a (hperm.mem_iff.mp (hsub' a ha))
        exact ⟨b, hb, hab.symm⟩
    rw [List.forall₂_iff_zip] at hsame ⊢
    refine ⟨hsame.1, fun hab => ?_⟩
    obtain ⟨ha, hb⟩ := List.of_mem_zip hab
    exact (hkey _ (hsub _ ha) _ (hperm.mem_iff.mp (hsub' _ hb))).zero_iff.mpr (hsame.2 hab)

theorem byKey_of_halfRange {versions : List Bytes} (h : HalfRange versions) :
    ∃ key : Bytes → List (List ℕ), ByKey compareTorVersionStrPtr key versions := by
  choose c hc using h
  refine ⟨stringKey c, fun a ha b hb => compareTorVersionStrPtr_agrees c ?_ ?_⟩
  · exact fun v hv => hc v.front a ha v hv rfl
  · exact fun v hv => hc v.front b hb v hv rfl

theorem cmp_svnRevision_nonneg {a b : TorVersion} (hfront : a.front = b.front)
    (h : 0 ≤ torVersionCompare a b) : 0 ≤ cmp a.svnRevision b.svnRevision := by
  simp only [TorVersion.front, List.cons.injEq, and_true] at hfront
  obtain ⟨hmajor, hminor, hmicro, hstatus, hpatchlevel, htag⟩ := hfront
  have hself : ∀ n : ℤ, cmp n n = 0 := by
    intro n
    simp [cmp]
  have hstrcmp : strcmp a.statusTag b.statusTag = 0 := (bytesCmp_agrees _ _).zero_iff.mpr htag
  simp only [torVersionCompare, hmajor, hminor, hmicro, hstatus, hpatchlevel, hstrcmp, hself,
    orElse] at h
  by_contra hneg
  simp [show cmp a.svnRevision b.svnRevision ≠ 0 by omega] at h
  omega

theorem revisionFrom_lt_of_cmp {a b : TorVersion} (h : 0 ≤ cmp a.svnRevision b.svnRevision) :
    a.revisionFrom b.svnRevision < 2 ^ 31 := by
  have hbmod : 0 ≤ (a.svnRevision - b.svnRevision).bmod (2 ^ 32) := by
    by_contra hneg
    rw [cmp, if_pos (not_le.mp hneg)] at h
    exact absurd h (by decide)
  rw [Int.bmod_def] at hbmod
  rw [TorVersion.revisionFrom]
  split_ifs at hbmod <;> omega

theorem halfRange_of_preordered {versions : List Bytes}
    (h : Preordered compareTorVersionStrPtr versions) : HalfRange versions := by
  intro front
  set group := versions.filter fun s =>
    (torVersionParse s).any fun v => decide (v.front = front) with hgroup
  have hmem : ∀ s v, torVersionParse s = some v → (s ∈ group ↔ s ∈ versions ∧ v.front = front) := by
    intro s v hv
    simp [hgroup, hv]
  rcases eq_or_ne group [] with hnil | hne
  · refine ⟨0, fun s hs v hv hfront => ?_⟩
    have hin := (hmem s v hv).mpr ⟨hs, hfront⟩
    rw [hnil] at hin
    exact absurd hin List.not_mem_nil
  · -- the half circle begins at the revision of the least version of the group
    have hsub : ∀ s ∈ group, s ∈ versions := fun s hs => (List.mem_filter.mp hs).1
    obtain ⟨m, hm, hleast⟩ := (h.subset hsub).exists_least hne
    obtain ⟨vm, hvm, hfrontm⟩ : ∃ v, torVersionParse m = some v ∧ v.front = front := by
      have hany := (List.mem_filter.mp hm).2
      cases hv : torVersionParse m with
      | none =>
        rw [hv] at hany
        cases hany
      | some v =>
        rw [hv] at hany
        exact ⟨v, rfl, of_decide_eq_true hany⟩
    refine ⟨vm.svnRevision, fun s hs v hv hfront => ?_⟩
    have hin := (hmem s v hv).mpr ⟨hs, hfront⟩
    have hle : 0 ≤ compareTorVersionStrPtr s m :=
      (nonneg_of_sign_eq_neg (h.antisymm m (hsub m hm) s hs)).mp (hleast s hin)
    simp only [compareTorVersionStrPtr, hv, hvm] at hle
    exact revisionFrom_lt_of_cmp (cmp_svnRevision_nonneg (hfront.trans hfrontm.symm) hle)

theorem sortVersionList_iff {qsort qsort' : (Bytes → Bytes → ℤ) → List Bytes → List Bytes}
    (hsorts : Sorts qsort) (hsorts' : Sorts qsort') (versions : List Bytes) :
    SortsVersions qsort qsort' versions ↔ HalfRange versions := by
  constructor
  · intro h
    exact halfRange_of_preordered h.preordered
  · intro h
    obtain ⟨key, hkey⟩ := byKey_of_halfRange h
    exact sortsVersions_of_byKey hsorts hsorts' hkey

def sampleVersions : List Bytes :=
  [ascii "0.2.1.0-dev (r100)", ascii "nightly", ascii "0.2.1.0-dev (r99)", ascii "0.2.0.35-rc"]

theorem sampleVersions_sorted : SortsVersions sortBy sortBy sampleVersions := by
  refine (sortVersionList_iff sorts_sortBy sorts_sortBy sampleVersions).mpr fun _ => ⟨0, ?_⟩
  have hall : ∀ s ∈ sampleVersions, ∀ v ∈ torVersionParse s, v.revisionFrom 0 < 2 ^ 31 := by
    decide +kernel
  exact fun s hs v hv _ => hall s hs v hv

/-- 2147483648 as an `int` is -2147483648, and its difference to 0 has one sign both ways. -/
theorem revision_before_and_after :
    compareTorVersionStrPtr (ascii "0.2.1.0-dev (r2147483648)") (ascii "0.2.1.0-dev") = -1 ∧
      compareTorVersionStrPtr (ascii "0.2.1.0-dev") (ascii "0.2.1.0-dev (r2147483648)") = -1 ∧
      ¬ Preordered compareTorVersionStrPtr
        [ascii "0.2.1.0-dev (r2147483648)", ascii "0.2.1.0-dev"] := by
  have hab : compareTorVersionStrPtr (ascii "0.2.1.0-dev (r2147483648)")
      (ascii "0.2.1.0-dev") = -1 := by decide +kernel
  have hba : compareTorVersionStrPtr (ascii "0.2.1.0-dev")
      (ascii "0.2.1.0-dev (r2147483648)") = -1 := by decide +kernel
  refine ⟨hab, hba, fun h => ?_⟩
  have hsign := h.antisymm _ List.mem_cons_self _ (List.mem_cons_of_mem _ List.mem_cons_self)
  rw [hab, hba] at hsign
  exact absurd hsign (by decide)

end Versions
