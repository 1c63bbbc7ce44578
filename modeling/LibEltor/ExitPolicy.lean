/-
Exit policies (`core/or/policies.c`): removing entries that say nothing, and relays that are useful
as exits.
-/
import Mathlib
import LibEltor.AddrPolicy

open Onion FirstMatch

namespace Policies

/-! ### Redundant entries -/

/-- Every target of `b` is one of `a`, whatever they say. -/
def addrPolicyCovers (a b : AddrPolicy) : Bool :=
  if torAddrFamily a.addr ≠ torAddrFamily b.addr then false
  else if a.maskbits > b.maskbits then false
  else if torAddrCompareMasked a.addr b.addr a.maskbits.toNat ≠ 0 then false
  else decide (a.prtMin ≤ b.prtMin ∧ a.prtMax ≥ b.prtMax)

def addrPolicyIntersects (a b : AddrPolicy) : Bool :=
  let minbits := if a.maskbits < b.maskbits then a.maskbits else b.maskbits
  if torAddrCompareMasked a.addr b.addr minbits.toNat ≠ 0 then false
  else if a.prtMax < b.prtMin ∨ b.prtMax < a.prtMin then false
  else true

def isInet (p : AddrPolicy) : Bool := decide (torAddrFamily p.addr = 2)

def isInet6 (p : AddrPolicy) : Bool := decide (torAddrFamily p.addr = 10)

def catchAll (p : AddrPolicy) : Bool := allAddrs p && allPorts p

/-- Step one: kill every IPv4 thing after `*4:*` and every IPv6 thing after `*6:*`. -/
def killUnreachable : Bool → Bool → List AddrPolicy → List AddrPolicy
  | _, _, [] => []
  | killV4, killV6, ap :: dest =>
    if (isInet ap && killV4) || (isInet6 ap && killV6) then killUnreachable killV4 killV6 dest
    else
      ap :: killUnreachable (killV4 || (catchAll ap && isInet ap))
        (killV6 || (catchAll ap && isInet6 ap)) dest

def dropCovered (ap : AddrPolicy) (dest : List AddrPolicy) : List AddrPolicy :=
  dest.filter fun tmp => !addrPolicyCovers ap tmp

def removeCovered : List AddrPolicy → List AddrPolicy
  | [] => []
  | ap :: dest => ap :: removeCovered (dropCovered ap dest)
termination_by dest => dest.length
decreasing_by
  rw [List.length_cons, Nat.lt_succ_iff]
  exact List.length_filter_le _ _

/-- Does an entry of the same kind cover `ap`, before one of the other kind intersects it? -/
def coveredLater (ap : AddrPolicy) : List AddrPolicy → Bool
  | [] => false
  | tmp :: rest =>
    if ap.policyType ≠ tmp.policyType then
      if addrPolicyIntersects ap tmp then false else coveredLater ap rest
    else if addrPolicyCovers tmp ap then true
    else coveredLater ap rest

/-- Step three: remove what an entry of the same kind behind it covers. -/
def removeCoveredLater : List AddrPolicy → List AddrPolicy
  | [] => []
  | ap :: dest =>
    if coveredLater ap dest then removeCoveredLater dest else ap :: removeCoveredLater dest

def exitPolicyRemoveRedundancies (dest : List AddrPolicy) : List AddrPolicy :=
  removeCoveredLater (removeCovered (killUnreachable false false dest))

variable {a b : AddrPolicy} {addr : TorAddr} {port : UInt16}

theorem coversTarget_iff {p : AddrPolicy} : coversTarget p (addr, port) = true ↔
    addrPrefix p.maskbits.toNat addr = addrPrefix p.maskbits.toNat p.addr ∧
      p.prtMin ≤ port ∧ port ≤ p.prtMax := by
  rw [coversTarget, Bool.and_eq_true, coversAddr, coversPort, decide_eq_true_eq, decide_eq_true_eq,
    torAddrCompareMasked_eq_zero]

theorem coversTarget_of_covers (h : addrPolicyCovers a b = true)
    (hb : coversTarget b (addr, port) = true) : coversTarget a (addr, port) = true := by
  unfold addrPolicyCovers at h
  split_ifs at h with hfamily hmask hprefix
  obtain ⟨hmin, hmax⟩ := of_decide_eq_true h
  obtain ⟨haddr, hlow, hhigh⟩ := coversTarget_iff.mp hb
  have hbits : a.maskbits.toNat ≤ b.maskbits.toNat :=
    UInt8.le_iff_toNat_le.mp (UInt8.not_lt.mp hmask)
  have hsame := torAddrCompareMasked_eq_zero.mp (not_not.mp hprefix)
  exact coversTarget_iff.mpr ⟨(addrPrefix_mono hbits haddr).trans hsame.symm,
    UInt16.le_trans hmin hlow, UInt16.le_trans hhigh hmax⟩

theorem intersects_of_coversTarget (ha : coversTarget a (addr, port) = true)
    (hb : coversTarget b (addr, port) = true) : addrPolicyIntersects a b = true := by
  obtain ⟨haddr, hlow, hhigh⟩ := coversTarget_iff.mp ha
  obtain ⟨haddr', hlow', hhigh'⟩ := coversTarget_iff.mp hb
  have hprefix : ∀ m : UInt8, m ≤ a.maskbits → m ≤ b.maskbits →
      torAddrCompareMasked a.addr b.addr m.toNat = 0 := by
    intro m hma hmb
    rw [torAddrCompareMasked_eq_zero]
    exact (addrPrefix_mono (UInt8.le_iff_toNat_le.mp hma) haddr).symm.trans
      (addrPrefix_mono (UInt8.le_iff_toNat_le.mp hmb) haddr')
  have hmin : torAddrCompareMasked a.addr b.addr
      (if a.maskbits < b.maskbits then a.maskbits else b.maskbits).toNat = 0 := by
    split_ifs with hlt
    · exact hprefix _ (UInt8.le_refl _) (UInt8.le_of_lt hlt)
    · exact hprefix _ (UInt8.not_lt.mp hlt) (UInt8.le_refl _)
  have hports : ¬ (a.prtMax < b.prtMin ∨ b.prtMax < a.prtMin) := by
    rintro (h | h)
    · exact UInt16.not_lt.mpr (UInt16.le_trans hlow' hhigh) h
    · exact UInt16.not_lt.mpr (UInt16.le_trans hlow hhigh') h
  unfold addrPolicyIntersects
  simp only
  rw [if_neg (by simpa using hmin), if_neg hports]

/-! ### The passes -/

def SameDecisions (l l' : List AddrPolicy) : Prop :=
  ∀ addr port, port ≠ 0 → decides l addr port = decides l' addr port

theorem decides_cons_congr {ap : AddrPolicy} {l l' : List AddrPolicy}
    (h : coversTarget ap (addr, port) = false → decides l addr port = decides l' addr port) :
    decides (ap :: l) addr port = decides (ap :: l') addr port := by
  cases hcov : coversTarget ap (addr, port) with
  | true => rw [decides, decides, decision_cons_of_covers hcov, decision_cons_of_covers hcov]
  | false =>
    rw [decides, decides, decision_cons_of_not_covers hcov, decision_cons_of_not_covers hcov]
    exact h hcov

theorem coversTarget_catchAll {p : AddrPolicy} (h : catchAll p = true) (hport : port ≠ 0)
    (hfamily : torAddrFamily addr = torAddrFamily p.addr) : coversTarget p (addr, port) = true := by
  obtain ⟨haddrs, hports⟩ := Bool.and_eq_true_iff.mp h
  rw [coversTarget, (coversAddr_of_allAddrs haddrs addr).mpr hfamily,
    coversPort_of_allPorts hports hport]
  rfl

theorem family_of_coversTarget {p : AddrPolicy} (h : coversTarget p (addr, port) = true) :
    torAddrFamily addr = torAddrFamily p.addr :=
  torAddrFamily_eq (coversTarget_iff.mp h).1

theorem decides_killUnreachable (hport : port ≠ 0) (killV4 killV6 : Bool) (dest : List AddrPolicy)
    (hv4 : torAddrFamily addr = 2 → killV4 = false)
    (hv6 : torAddrFamily addr = 10 → killV6 = false) :
    decides (killUnreachable killV4 killV6 dest) addr port = decides dest addr port := by
  induction dest generalizing killV4 killV6 with
  | nil => rfl
  | cons ap dest ih =>
    rw [killUnreachable]
    split_ifs with hkill
    · -- the entry is of a killed family, and the address is not
      have hnot : coversTarget ap (addr, port) = false := by
        refine Bool.eq_false_iff.mpr fun hcov => ?_
        have hfamily := family_of_coversTarget hcov
        rw [Bool.or_eq_true, Bool.and_eq_true, Bool.and_eq_true] at hkill
        rcases hkill with ⟨h4, hk⟩ | ⟨h6, hk⟩
        · rw [hv4 (hfamily.trans (of_decide_eq_true h4))] at hk
          cases hk
        · rw [hv6 (hfamily.trans (of_decide_eq_true h6))] at hk
          cases hk
      rw [ih killV4 killV6 hv4 hv6, decides, decides, decision_cons_of_not_covers hnot]
    · refine decides_cons_congr fun hcov => ih _ _ (fun h4 => ?_) fun h6 => ?_
      · rw [hv4 h4, Bool.false_or]
        refine Bool.eq_false_iff.mpr fun h => ?_
        rw [Bool.and_eq_true] at h
        rw [coversTarget_catchAll h.1 hport (h4.trans (of_decide_eq_true h.2).symm)] at hcov
        cases hcov
      · rw [hv6 h6, Bool.false_or]
        refine Bool.eq_false_iff.mpr fun h => ?_
        rw [Bool.and_eq_true] at h
        rw [coversTarget_catchAll h.1 hport (h6.trans (of_decide_eq_true h.2).symm)] at hcov
        cases hcov

theorem decides_dropCovered (ap : AddrPolicy) (dest : List AddrPolicy) :
    decides (ap :: dropCovered ap dest) addr port = decides (ap :: dest) addr port := by
  refine decides_cons_congr fun hcov => ?_
  unfold dropCovered
  induction dest with
  | nil => rfl
  | cons tmp dest ih =>
    cases hcovers : addrPolicyCovers ap tmp with
    | true =>
      have hnot : coversTarget tmp (addr, port) = false := by
        refine Bool.eq_false_iff.mpr fun htmp => ?_
        rw [coversTarget_of_covers hcovers htmp] at hcov
        cases hcov
      rw [List.filter_cons_of_neg (by simp [hcovers]), ih, decides, decides,
        decision_cons_of_not_covers hnot]
    | false =>
      rw [List.filter_cons_of_pos (by simp [hcovers])]
      exact decides_cons_congr fun _ => ih

theorem decides_removeCovered (dest : List AddrPolicy) :
    decides (removeCovered dest) addr port = decides dest addr port := by
  induction dest using removeCovered.induct with
  | case1 => rw [removeCovered]
  | case2 ap dest ih =>
    rw [removeCovered, ← decides_dropCovered ap dest]
    exact decides_cons_congr fun _ => ih

theorem coveredLater_split {ap : AddrPolicy} {dest : List AddrPolicy}
    (h : coveredLater ap dest = true) :
    ∃ mid tmp after, dest = mid ++ tmp :: after ∧ ap.policyType = tmp.policyType ∧
      addrPolicyCovers tmp ap = true ∧
      ∀ q ∈ mid, q.policyType ≠ ap.policyType → addrPolicyIntersects ap q = false := by
  induction dest with
  | nil => cases h
  | cons tmp rest ih =>
    rw [coveredLater] at h
    split_ifs at h with hne hmeet hcovers
    · obtain ⟨mid, tmp', after, rfl, htype, hcov, hmid⟩ := ih h
      refine ⟨tmp :: mid, tmp', after, rfl, htype, hcov, fun q hq hq' => ?_⟩
      rcases List.mem_cons.mp hq with rfl | hq
      · simpa using hmeet
      · exact hmid q hq hq'
    · exact ⟨[], tmp, rest, rfl, not_not.mp hne, hcovers, fun q hq => absurd hq List.not_mem_nil⟩
    · obtain ⟨mid, tmp', after, rfl, htype, hcov, hmid⟩ := ih h
      refine ⟨tmp :: mid, tmp', after, rfl, htype, hcov, fun q hq hq' => ?_⟩
      rcases List.mem_cons.mp hq with rfl | hq
      · exact absurd (not_not.mp hne).symm hq'
      · exact hmid q hq hq'

theorem decides_removeCoveredLater (dest : List AddrPolicy) :
    decides (removeCoveredLater dest) addr port = decides dest addr port := by
  induction dest with
  | nil => rfl
  | cons ap dest ih =>
    rw [removeCoveredLater]
    split_ifs with hlater
    · obtain ⟨mid, tmp, after, rfl, htype, hcovers, hmid⟩ := coveredLater_split hlater
      rw [ih]
      refine (decision_drop_subsumed htype (coversTarget_of_covers hcovers) ?_).symm
      intro q hq hne hap
      refine Bool.eq_false_iff.mpr fun hcov => ?_
      have hmeet := intersects_of_coversTarget hap hcov
      rw [hmid q hq hne] at hmeet
      cases hmeet
    · exact decides_cons_congr fun _ => ih

theorem decides_exitPolicyRemoveRedundancies (dest : List AddrPolicy) :
    SameDecisions (exitPolicyRemoveRedundancies dest) dest := by
  intro addr port hport
  rw [exitPolicyRemoveRedundancies, decides_removeCoveredLater, decides_removeCovered,
    decides_killUnreachable hport false false dest (fun _ => rfl) fun _ => rfl]

/-- The answer for an address that is not null is the same before and after. -/
theorem exitPolicyRemoveRedundancies_compare (dest : List AddrPolicy) (hnull : ¬ TorAddrIsNull addr)
    (hport : port ≠ 0) :
    compareTorAddrToAddrPolicy (some addr) port (some (exitPolicyRemoveRedundancies dest)) =
      compareTorAddrToAddrPolicy (some addr) port (some dest) := by
  simp only [compareTorAddrToAddrPolicy, hnull, hport, if_false]
  rw [compareKnown_eq, compareKnown_eq, decides_exitPolicyRemoveRedundancies dest addr port hport]

theorem covered_entry_removed :
    compareTorAddrToAddrPolicy (some (.inet 0x01020304)) 80 (some (exitPolicyRemoveRedundancies
      [⟨.reject, .inet 0x0a000000, 8, 1, 65535⟩, ⟨.accept, .inet 0x01020304, 32, 80, 80⟩,
        ⟨.accept, .inet 0x01000000, 8, 1, 1024⟩, ⟨.reject, .inet 0, 0, 1, 65535⟩])) =
      compareTorAddrToAddrPolicy (some (.inet 0x01020304)) 80 (some
        [⟨.reject, .inet 0x0a000000, 8, 1, 65535⟩, ⟨.accept, .inet 0x01020304, 32, 80, 80⟩,
          ⟨.accept, .inet 0x01000000, 8, 1, 1024⟩, ⟨.reject, .inet 0, 0, 1, 65535⟩]) :=
  exitPolicyRemoveRedundancies_compare _ (by decide) (by decide)

/-- The null address is taken for one that is not known, and then a wildcard of any family decides:
here the first one is removed. -/
theorem null_address_decision_changes :
    ¬ ∀ (dest : List AddrPolicy) (addr : TorAddr) (port : UInt16), port ≠ 0 →
      compareTorAddrToAddrPolicy (some addr) port (some (exitPolicyRemoveRedundancies dest)) =
        compareTorAddrToAddrPolicy (some addr) port (some dest) := by
  intro hall
  have hsame := hall [⟨.accept, .inet 0, 0, 80, 80⟩, ⟨.reject, .inet6 (zeroBlock 16), 0, 80, 80⟩,
    ⟨.accept, .inet 0, 0, 80, 81⟩] (.inet 0) 80 (by decide)
  exact absurd hsame (by decide +kernel)

/-! ### Useful as an exit -/

/-- `tor_addr_is_internal` of an IPv4 address, not for listening. -/
def ipv4IsInternal (iph4 : BitVec 32) : Bool :=
  iph4 &&& 0xff000000#32 == 0x0a000000#32 || iph4 &&& 0xff000000#32 == 0x00000000#32 ||
    iph4 &&& 0xff000000#32 == 0x7f000000#32 || iph4 &&& 0xffc00000#32 == 0x64400000#32 ||
    iph4 &&& 0xffff0000#32 == 0xa9fe0000#32 || iph4 &&& 0xfff00000#32 == 0xac100000#32 ||
    iph4 &&& 0xffff0000#32 == 0xc0a80000#32

def eligible (dirAllowPrivateAddresses : Bool) (i : ℕ) : Bool :=
  !(ipv4IsInternal (BitVec.ofNat 32 i <<< 24) && !dirAllowPrivateAddresses)

def maskOf (p : AddrPolicy) : BitVec 32 :=
  if p.maskbits = 0 then 0 else BitVec.allOnes 32 <<< (32 - p.maskbits.toNat)

def ipv4h (addr : TorAddr) : BitVec 32 := (torAddrToIpv4h addr).toBitVec

def firstSubnet (p : AddrPolicy) : ℕ := ((maskOf p &&& ipv4h p.addr) >>> 24).toNat

def lastSubnet (p : AddrPolicy) : ℕ := (~~~ ((maskOf p &&& ipv4h p.addr) ^^^ maskOf p) >>> 24).toNat

/-- The loop over the subnets that an entry touches; none where a subnet was found. -/
def visitSubnets (dirAllowPrivateAddresses : Bool) (p : AddrPolicy) :
    List ℕ → (ℕ → Bool) → Option (ℕ → Bool)
  | [], subnetStatus => some subnetStatus
  | i :: is, subnetStatus =>
    if subnetStatus i then visitSubnets dirAllowPrivateAddresses p is subnetStatus
    else if eligible dirAllowPrivateAddresses i = false then
      visitSubnets dirAllowPrivateAddresses p is subnetStatus
    else
      match p.policyType with
      | .accept =>
        if p.maskbits > 8 then visitSubnets dirAllowPrivateAddresses p is subnetStatus else none
      | .reject =>
        visitSubnets dirAllowPrivateAddresses p is (Function.update subnetStatus i true)

/-- The loop over the entries; none where the assertion about the mask fails. -/
def generalExitLoop (dirAllowPrivateAddresses : Bool) (port : UInt16) :
    (ℕ → Bool) → List AddrPolicy → Option Bool
  | _, [] => some false
  | subnetStatus, p :: policy =>
    if torAddrFamily p.addr ≠ 2 then generalExitLoop dirAllowPrivateAddresses port subnetStatus policy
    else if p.prtMin > port ∨ p.prtMax < port then
      generalExitLoop dirAllowPrivateAddresses port subnetStatus policy
    else if p.maskbits > 32 then none
    else
      match visitSubnets dirAllowPrivateAddresses p
          (List.range' (firstSubnet p) (lastSubnet p + 1 - firstSubnet p)) subnetStatus with
      | none => some true
      | some subnetStatus => generalExitLoop dirAllowPrivateAddresses port subnetStatus policy

def exitPolicyIsGeneralExitHelper (dirAllowPrivateAddresses : Bool) (policy : List AddrPolicy)
    (port : UInt16) : Option Bool :=
  generalExitLoop dirAllowPrivateAddresses port (fun _ => false) policy

def exitPolicyIsGeneralExit (dirAllowPrivateAddresses : Bool) (policy : Option (List AddrPolicy)) :
    Option Bool :=
  match policy with
  | none => some false
  | some policy => do
    if ← exitPolicyIsGeneralExitHelper dirAllowPrivateAddresses policy 80 then
      exitPolicyIsGeneralExitHelper dirAllowPrivateAddresses policy 443
    else some false

/-! ### Subnets -/

theorem getLsbD_maskOf {p : AddrPolicy} (hmask : p.maskbits.toNat ≤ 32) (j : ℕ) :
    (maskOf p).getLsbD j = decide (32 - p.maskbits.toNat ≤ j ∧ j < 32) := by
  unfold maskOf
  split_ifs with hzero
  · have : p.maskbits.toNat = 0 := by rw [hzero]; rfl
    simp [this]
  · rw [BitVec.getLsbD_shiftLeft, BitVec.getLsbD_allOnes]
    by_cases hj : 32 - p.maskbits.toNat ≤ j ∧ j < 32
    · rw [decide_eq_true hj]
      simp
      omega
    · rw [decide_eq_false hj]
      simp
      omega

def fixedBits (p : AddrPolicy) : ℕ := (ipv4h p.addr).toNat / 2 ^ (32 - p.maskbits.toNat)

theorem toNat_masked {p : AddrPolicy} (hmask : p.maskbits.toNat ≤ 32) :
    (maskOf p &&& ipv4h p.addr).toNat = fixedBits p * 2 ^ (32 - p.maskbits.toNat) := by
  have hbits : maskOf p &&& ipv4h p.addr =
      (ipv4h p.addr >>> (32 - p.maskbits.toNat)) <<< (32 - p.maskbits.toNat) := by
    refine BitVec.eq_of_getLsbD_eq fun j hj => ?_
    rw [BitVec.getLsbD_and, getLsbD_maskOf hmask, BitVec.getLsbD_shiftLeft,
      BitVec.getLsbD_ushiftRight]
    by_cases hlow : j < 32 - p.maskbits.toNat
    · have hmasked : ¬ (32 - p.maskbits.toNat ≤ j ∧ j < 32) := by omega
      simp only [hmasked, hlow, decide_false, decide_true, Bool.false_and, Bool.not_true,
        Bool.and_false]
    · rw [Nat.add_sub_cancel' (Nat.le_of_not_lt hlow)]
      simp [hlow, hj, Nat.le_of_not_lt hlow]
  have hlt := (ipv4h p.addr).isLt
  have hle : (ipv4h p.addr).toNat / 2 ^ (32 - p.maskbits.toNat) * 2 ^ (32 - p.maskbits.toNat) ≤
      (ipv4h p.addr).toNat := Nat.div_mul_le_self _ _
  rw [hbits, BitVec.toNat_shiftLeft, BitVec.toNat_ushiftRight, Nat.shiftRight_eq_div_pow,
    Nat.shiftLeft_eq, fixedBits, Nat.mod_eq_of_lt (hle.trans_lt hlt)]

theorem toNat_highest {p : AddrPolicy} (hmask : p.maskbits.toNat ≤ 32) :
    (~~~ ((maskOf p &&& ipv4h p.addr) ^^^ maskOf p)).toNat =
      fixedBits p * 2 ^ (32 - p.maskbits.toNat) + (2 ^ (32 - p.maskbits.toNat) - 1) := by
  have hlow : 2 ^ (32 - p.maskbits.toNat) - 1 < 2 ^ (32 - p.maskbits.toNat) :=
    Nat.sub_lt (Nat.two_pow_pos _) Nat.one_pos
  refine Nat.eq_of_testBit_eq fun j => ?_
  rw [BitVec.testBit_toNat, BitVec.getLsbD_not, BitVec.getLsbD_xor, BitVec.getLsbD_and,
    getLsbD_maskOf hmask, Nat.mul_comm, Nat.testBit_two_pow_mul_add _ hlow]
  by_cases hj : j < 32 - p.maskbits.toNat
  · have hmasked : ¬ (32 - p.maskbits.toNat ≤ j ∧ j < 32) := by omega
    rw [if_pos hj, Nat.testBit_two_pow_sub_one, decide_eq_true hj, decide_eq_false hmasked,
      decide_eq_true (show j < 32 by omega)]
    rfl
  · rw [if_neg hj, fixedBits, Nat.testBit_div_two_pow, Nat.sub_add_cancel (Nat.le_of_not_lt hj),
      BitVec.testBit_toNat]
    by_cases hj' : j < 32
    · rw [decide_eq_true (show 32 - p.maskbits.toNat ≤ j ∧ j < 32 from ⟨by omega, hj'⟩),
        decide_eq_true hj']
      cases (ipv4h p.addr).getLsbD j <;> rfl
    · rw [decide_eq_false hj', BitVec.getLsbD_of_ge _ _ (by omega)]
      rfl

theorem coversAddr_inet_iff {p : AddrPolicy} (hmask : p.maskbits.toNat ≤ 32)
    (hfamily : torAddrFamily p.addr = 2) (a : UInt32) :
    coversAddr (.inet a) p = true ↔ a.toNat / 2 ^ (32 - p.maskbits.toNat) = fixedBits p := by
  rw [coversAddr, decide_eq_true_eq, torAddrCompareMasked_eq_zero]
  cases haddr : p.addr with
  | unspec => rw [haddr] at hfamily; cases hfamily
  | inet6 b => rw [haddr] at hfamily; cases hfamily
  | inet b =>
    have hbits : fixedBits p = b.toNat / 2 ^ (32 - p.maskbits.toNat) := by
      rw [fixedBits, haddr]
      rfl
    simp only [addrPrefix, Prod.mk.injEq, true_and, min_eq_left hmask, Nat.shiftRight_eq_div_pow,
      hbits]

theorem subnet_bounds {p : AddrPolicy} (hmask : p.maskbits.toNat ≤ 32) :
    firstSubnet p = fixedBits p * 2 ^ (32 - p.maskbits.toNat) / 2 ^ 24 ∧
      lastSubnet p = (fixedBits p * 2 ^ (32 - p.maskbits.toNat) +
        (2 ^ (32 - p.maskbits.toNat) - 1)) / 2 ^ 24 := by
  constructor
  · rw [firstSubnet, BitVec.toNat_ushiftRight, toNat_masked hmask, Nat.shiftRight_eq_div_pow]
  · rw [lastSubnet, BitVec.toNat_ushiftRight, toNat_highest hmask, Nat.shiftRight_eq_div_pow]

theorem subnet_mem {p : AddrPolicy} (hmask : p.maskbits.toNat ≤ 32) {a : UInt32}
    (hfamily : torAddrFamily p.addr = 2) (h : coversAddr (.inet a) p = true) :
    firstSubnet p ≤ a.toNat / 2 ^ 24 ∧ a.toNat / 2 ^ 24 ≤ lastSubnet p := by
  rw [coversAddr_inet_iff hmask hfamily] at h
  obtain ⟨hfirst, hlast⟩ := subnet_bounds hmask
  have hdiv := Nat.div_add_mod a.toNat (2 ^ (32 - p.maskbits.toNat))
  have hmod := Nat.mod_lt a.toNat (Nat.two_pow_pos (32 - p.maskbits.toNat))
  rw [h, Nat.mul_comm] at hdiv
  rw [hfirst, hlast]
  exact ⟨Nat.div_le_div_right (by omega), Nat.div_le_div_right (by omega)⟩

theorem coversAddr_of_subnet {p : AddrPolicy} (hmask : p.maskbits.toNat ≤ 8) {a : UInt32}
    (hfamily : torAddrFamily p.addr = 2) (hfirst : firstSubnet p ≤ a.toNat / 2 ^ 24)
    (hlast : a.toNat / 2 ^ 24 ≤ lastSubnet p) : coversAddr (.inet a) p = true := by
  rw [coversAddr_inet_iff (by omega) hfamily]
  obtain ⟨hfirst', hlast'⟩ := subnet_bounds (p := p) (by omega)
  -- the entry is made of whole subnets
  obtain ⟨c, hc⟩ : ∃ c, 32 - p.maskbits.toNat = 24 + c := ⟨8 - p.maskbits.toNat, by omega⟩
  rw [hc] at hfirst' hlast' ⊢
  have hpow : 2 ^ (24 + c) = 2 ^ c * 2 ^ 24 := by rw [Nat.pow_add, Nat.mul_comm]
  have hpos : 0 < 2 ^ (24 + c) := Nat.two_pow_pos _
  have hlow : fixedBits p * 2 ^ (24 + c) ≤ a.toNat := by
    rw [hfirst', hpow, ← Nat.mul_assoc, Nat.mul_div_cancel _ (Nat.two_pow_pos 24)] at hfirst
    calc fixedBits p * 2 ^ (24 + c) = fixedBits p * 2 ^ c * 2 ^ 24 := by rw [hpow, Nat.mul_assoc]
      _ ≤ a.toNat / 2 ^ 24 * 2 ^ 24 := Nat.mul_le_mul_right _ hfirst
      _ ≤ a.toNat := Nat.div_mul_le_self _ _
  have hhigh : a.toNat < (fixedBits p + 1) * 2 ^ (24 + c) := by
    have hnext : lastSubnet p < (fixedBits p + 1) * 2 ^ c := by
      rw [hlast', Nat.div_lt_iff_lt_mul (Nat.two_pow_pos 24), Nat.mul_assoc, ← hpow, Nat.succ_mul]
      omega
    have hlt := (Nat.div_lt_iff_lt_mul (Nat.two_pow_pos 24)).mp (hlast.trans_lt hnext)
    rwa [Nat.mul_assoc, ← hpow] at hlt
  exact Nat.div_eq_of_lt_le hlow hhigh

/-! ### The loops -/

variable {dirAllowPrivateAddresses : Bool}

theorem visitSubnets_skip {p : AddrPolicy} {i : ℕ} {status : ℕ → Bool} (is : List ℕ)
    (h : status i = true ∨ eligible dirAllowPrivateAddresses i = false) :
    visitSubnets dirAllowPrivateAddresses p (i :: is) status =
      visitSubnets dirAllowPrivateAddresses p is status := by
  rw [visitSubnets]
  by_cases hstatus : status i = true
  · rw [if_pos hstatus]
  · rw [if_neg hstatus, if_pos (h.resolve_left hstatus)]

theorem visitSubnets_free {p : AddrPolicy} {i : ℕ} {status : ℕ → Bool} (is : List ℕ)
    (hstatus : ¬ status i = true) (helig : ¬ eligible dirAllowPrivateAddresses i = false) :
    (p.policyType = .accept → visitSubnets dirAllowPrivateAddresses p (i :: is) status =
      if p.maskbits > 8 then visitSubnets dirAllowPrivateAddresses p is status else none) ∧
    (p.policyType = .reject → visitSubnets dirAllowPrivateAddresses p (i :: is) status =
      visitSubnets dirAllowPrivateAddresses p is (Function.update status i true)) := by
  constructor
  · intro htype
    rw [visitSubnets, if_neg hstatus, if_neg helig, htype]
  · intro htype
    rw [visitSubnets, if_neg hstatus, if_neg helig, htype]

theorem visitSubnets_some {p : AddrPolicy} {is : List ℕ} {status status' : ℕ → Bool}
    (h : visitSubnets dirAllowPrivateAddresses p is status = some status') :
    (∀ i, status i = true → status' i = true) ∧
      (p.policyType = .reject → ∀ i ∈ is, eligible dirAllowPrivateAddresses i = true →
        status' i = true) := by
  induction is generalizing status with
  | nil =>
    obtain rfl := Option.some.inj h
    exact ⟨fun i hi => hi, fun _ i hi => absurd hi List.not_mem_nil⟩
  | cons j is ih =>
    by_cases hskip : status j = true ∨ eligible dirAllowPrivateAddresses j = false
    · rw [visitSubnets_skip is hskip] at h
      obtain ⟨hkeep, hmark⟩ := ih h
      refine ⟨hkeep, fun hreject i hi hi' => ?_⟩
      rcases List.mem_cons.mp hi with rfl | hi
      · rcases hskip with hstatus | helig
        · exact hkeep _ hstatus
        · rw [helig] at hi'
          cases hi'
      · exact hmark hreject i hi hi'
    · obtain ⟨hstatus, helig⟩ := not_or.mp hskip
      obtain ⟨haccept, hreject⟩ := visitSubnets_free (p := p) is hstatus helig
      cases htype : p.policyType with
      | accept =>
        rw [haccept htype] at h
        split_ifs at h
        exact ⟨(ih h).1, fun hreject => absurd hreject (by decide)⟩
      | reject =>
        rw [hreject htype] at h
        obtain ⟨hkeep, hmark⟩ := ih h
        refine ⟨fun i hi => hkeep i ?_, fun _ i hi hi' => ?_⟩
        · by_cases hij : i = j
          · rw [hij, Function.update_self]
          · rwa [Function.update_of_ne hij]
        · rcases List.mem_cons.mp hi with rfl | hi
          · exact hkeep _ (Function.update_self _ _ _)
          · exact hmark htype i hi hi'

theorem visitSubnets_none {p : AddrPolicy} {is : List ℕ} {status : ℕ → Bool}
    (h : visitSubnets dirAllowPrivateAddresses p is status = none) :
    p.policyType = .accept ∧ ¬ p.maskbits > 8 ∧
      ∃ i ∈ is, status i = false ∧ eligible dirAllowPrivateAddresses i = true := by
  induction is generalizing status with
  | nil => cases h
  | cons j is ih =>
    by_cases hskip : status j = true ∨ eligible dirAllowPrivateAddresses j = false
    · rw [visitSubnets_skip is hskip] at h
      obtain ⟨htype, hmask, i, hi, hfree⟩ := ih h
      exact ⟨htype, hmask, i, List.mem_cons_of_mem j hi, hfree⟩
    · obtain ⟨hstatus, helig⟩ := not_or.mp hskip
      obtain ⟨haccept, hreject⟩ := visitSubnets_free (p := p) is hstatus helig
      cases htype : p.policyType with
      | accept =>
        rw [haccept htype] at h
        split_ifs at h with hmask
        · obtain ⟨-, hmask', i, hi, hfree⟩ := ih h
          exact ⟨rfl, hmask', i, List.mem_cons_of_mem j hi, hfree⟩
        · exact ⟨rfl, hmask, j, List.mem_cons_self, by simpa using hstatus, by simpa using helig⟩
      | reject =>
        rw [hreject htype] at h
        have htype' := (ih h).1
        rw [htype] at htype'
        cases htype'

def NotRejected (port : UInt16) (before : List AddrPolicy) (i : ℕ) : Prop :=
  ∀ r ∈ before, ∀ a : UInt32, a.toNat / 2 ^ 24 = i → coversTarget r (.inet a, port) = true →
    r.policyType = .accept

def SubnetAccepted (port : UInt16) (policy : List AddrPolicy) (i : ℕ) : Prop :=
  i < 256 ∧ ∀ a : UInt32, a.toNat / 2 ^ 24 = i → compareKnown (.inet a) port policy = .accepted

theorem NotRejected.concat {port : UInt16} {before : List AddrPolicy} {p : AddrPolicy} {i : ℕ}
    (h : NotRejected port before i)
    (hp : ∀ a : UInt32, a.toNat / 2 ^ 24 = i → coversTarget p (.inet a, port) = true →
      p.policyType = .accept) : NotRejected port (before ++ [p]) i := by
  intro r hr a ha hcov
  rcases List.mem_append.mp hr with hr | hr
  · exact h r hr a ha hcov
  · rw [List.mem_singleton.mp hr] at hcov ⊢
    exact hp a ha hcov

theorem SubnetAccepted.of_notRejected {port : UInt16} {before : List AddrPolicy} {p : AddrPolicy}
    {i : ℕ} (hi : i < 256) (hbefore : NotRejected port before i) (htype : p.policyType = .accept)
    (hcovers : ∀ a : UInt32, a.toNat / 2 ^ 24 = i → coversTarget p (.inet a, port) = true)
    (after : List AddrPolicy) : SubnetAccepted port (before ++ p :: after) i := by
  refine ⟨hi, fun a ha => ?_⟩
  rw [compareKnown_eq, decides_of_definite (hcovers a ha) fun r hr hcov => ?_, htype]
  · rfl
  · rw [htype]
    exact hbefore r hr a ha hcov

theorem lastSubnet_lt (p : AddrPolicy) : lastSubnet p < 256 := by
  rw [lastSubnet, BitVec.toNat_ushiftRight, Nat.shiftRight_eq_div_pow]
  have hlt := (~~~ ((maskOf p &&& ipv4h p.addr) ^^^ maskOf p)).isLt
  omega

theorem generalExitLoop_sound {port : UInt16} (policy before : List AddrPolicy)
    {status : ℕ → Bool}
    (hstatus : ∀ i, eligible dirAllowPrivateAddresses i = true → status i = false →
      NotRejected port before i)
    (h : generalExitLoop dirAllowPrivateAddresses port status policy = some true) :
    ∃ i, eligible dirAllowPrivateAddresses i = true ∧ SubnetAccepted port (before ++ policy) i := by
  induction policy generalizing before status with
  | nil => cases h
  | cons p policy ih =>
    -- an entry that does not touch IPv4 addresses on the port, or marks what it touches
    have hnext : ∀ {status' : ℕ → Bool}, (∀ i, status i = true → status' i = true) →
        (∀ i a, eligible dirAllowPrivateAddresses i = true → status' i = false →
          a.toNat / 2 ^ 24 = i → coversTarget p (.inet a, port) = true → p.policyType = .accept) →
        generalExitLoop dirAllowPrivateAddresses port status' policy = some true →
        ∃ i, eligible dirAllowPrivateAddresses i = true ∧
          SubnetAccepted port (before ++ p :: policy) i := by
      intro status' hkeep hp hloop
      rw [List.append_cons]
      refine ih (before ++ [p]) (fun i hi hfree => ?_) hloop
      refine (hstatus i hi (Bool.eq_false_iff.mpr fun hset => ?_)).concat fun a => hp i a hi hfree
      rw [hkeep i hset] at hfree
      cases hfree
    rw [generalExitLoop] at h
    split_ifs at h with hfamily hports hmask
    · refine hnext (fun _ hi => hi) (fun i a _ _ _ hcov => ?_) h
      exact absurd (family_of_coversTarget hcov).symm hfamily
    · refine hnext (fun _ hi => hi) (fun i a _ _ _ hcov => ?_) h
      obtain ⟨-, hlow, hhigh⟩ := coversTarget_iff.mp hcov
      exact (hports.elim (UInt16.not_lt.mpr hlow) (UInt16.not_lt.mpr hhigh)).elim
    · have hfamily' : torAddrFamily p.addr = 2 := not_not.mp hfamily
      have hbits : p.maskbits.toNat ≤ 32 := UInt8.le_iff_toNat_le.mp (UInt8.not_lt.mp hmask)
      split at h
      · next hvisit =>
        -- the entry accepts the subnet, and nothing before rejects any of it
        obtain ⟨htype, hwide, i, hi, hfree, helig⟩ := visitSubnets_none hvisit
        have hbits' : p.maskbits.toNat ≤ 8 := UInt8.le_iff_toNat_le.mp (UInt8.not_lt.mp hwide)
        obtain ⟨hfirst, hlast⟩ := List.mem_range'_1.mp hi
        have hlt := lastSubnet_lt p
        refine ⟨i, helig, .of_notRejected (by omega) (hstatus i helig hfree) htype ?_ policy⟩
        intro a ha
        rw [coversTarget, coversAddr_of_subnet hbits' hfamily' (by omega) (by omega)]
        exact decide_eq_true ⟨UInt16.not_lt.mp fun hlt => hports (.inl hlt),
          UInt16.not_lt.mp fun hlt => hports (.inr hlt)⟩
      · next status' hvisit =>
        obtain ⟨hkeep, hmark⟩ := visitSubnets_some hvisit
        refine hnext hkeep (fun i a hi hfree ha hcov => ?_) h
        cases htype : p.policyType with
        | accept => rfl
        | reject =>
          rw [coversTarget, Bool.and_eq_true] at hcov
          obtain ⟨hfirst, hlast⟩ := subnet_mem hbits hfamily' hcov.1
          have hset := hmark htype i (List.mem_range'_1.mpr ⟨by omega, by omega⟩) hi
          rw [hset] at hfree
          cases hfree

/-- A relay that is useful as an exit accepts, on either port, a whole /8 whose base address is not
internal, unless private addresses are allowed. -/
theorem exitPolicyIsGeneralExit_sound {policy : List AddrPolicy}
    (h : exitPolicyIsGeneralExit dirAllowPrivateAddresses (some policy) = some true) :
    ∀ port ∈ [(80 : UInt16), 443], ∃ i, SubnetAccepted port policy i ∧
      (ipv4IsInternal (BitVec.ofNat 32 i <<< 24) = false ∨ dirAllowPrivateAddresses = true) := by
  have hport : ∀ port, exitPolicyIsGeneralExitHelper dirAllowPrivateAddresses policy port =
      some true → ∃ i, SubnetAccepted port policy i ∧
        (ipv4IsInternal (BitVec.ofNat 32 i <<< 24) = false ∨ dirAllowPrivateAddresses = true) := by
    intro port hhelper
    obtain ⟨i, helig, haccepted⟩ := generalExitLoop_sound policy []
      (fun i _ _ r hr => absurd hr List.not_mem_nil) hhelper
    refine ⟨i, haccepted, ?_⟩
    unfold eligible at helig
    cases dirAllowPrivateAddresses <;> simp_all
  obtain ⟨first, h80, hrest⟩ := Option.bind_eq_some_iff.mp h
  cases first with
  | false => cases hrest
  | true =>
    intro port hmem
    rcases List.mem_cons.mp hmem with rfl | hmem
    · exact hport 80 h80
    · rw [List.mem_singleton.mp hmem]
      exact hport 443 hrest

theorem wide_accept_is_general_exit :
    ∃ i, SubnetAccepted 443 [⟨.reject, .inet 0x0a000000, 8, 1, 65535⟩,
        ⟨.accept, .inet 0, 0, 80, 443⟩, ⟨.reject, .inet 0, 0, 1, 65535⟩] i ∧
      (ipv4IsInternal (BitVec.ofNat 32 i <<< 24) = false ∨ false = true) :=
  exitPolicyIsGeneralExit_sound (by decide +kernel) 443 (by decide)

/-- With private addresses allowed, a relay that accepts 10.0.0.0/8 only is useful as an exit. -/
theorem private_subnet_is_general_exit :
    ¬ ∀ (dirAllowPrivateAddresses : Bool) (policy : List AddrPolicy),
      exitPolicyIsGeneralExit dirAllowPrivateAddresses (some policy) = some true →
      ∀ port ∈ [(80 : UInt16), 443], ∃ i, SubnetAccepted port policy i ∧
        ipv4IsInternal (BitVec.ofNat 32 i <<< 24) = false := by
  intro hall
  obtain ⟨i, ⟨hlt, haccepted⟩, hinternal⟩ := hall true
    [⟨.accept, .inet 0x0a000000, 8, 80, 443⟩, ⟨.reject, .inet 0, 0, 1, 65535⟩]
    (by decide +kernel) 80 (by decide)
  have hbase := haccepted (UInt32.ofNat (i * 2 ^ 24)) (by
    rw [UInt32.toNat_ofNat', Nat.mod_eq_of_lt (by omega)]
    omega)
  have hnone : ∀ i < 256, ipv4IsInternal (BitVec.ofNat 32 i <<< 24) = false →
      compareKnown (.inet (UInt32.ofNat (i * 2 ^ 24))) 80
        [⟨.accept, .inet 0x0a000000, 8, 80, 443⟩, ⟨.reject, .inet 0, 0, 1, 65535⟩] ≠
          .accepted := by
    decide +kernel
  exact hnone i hlt hinternal hbase

end Policies
