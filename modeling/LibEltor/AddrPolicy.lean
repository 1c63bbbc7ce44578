/-
Address policies (`core/or/policies.c`, `lib/net/address.c`): what an entry matches, and what a
policy decides about a target that is known, or of which the address or the port is not.
-/
import Mathlib
import LibEltor.ExtendCell
import LibEltor.FirstMatch

open Onion FirstMatch

namespace Policies

/-! ### Addresses -/

def tristate (a b : ℕ) : ℤ := if a < b then -1 else if a = b then 0 else 1

def torMemcmp (a b : Bytes) (n : ℕ) : ℤ :=
  if a.take n < b.take n then -1 else if a.take n = b.take n then 0 else 1

def torAddrFamily : TorAddr → ℕ
  | .unspec => 0
  | .inet _ => 2
  | .inet6 _ => 10

/-- With `CMP_EXACT`. -/
def torAddrCompareMasked (addr1 addr2 : TorAddr) (mbits : ℕ) : ℤ :=
  match addr1, addr2 with
  | .unspec, .unspec => 0
  | .inet a1, .inet a2 =>
    if mbits = 0 then 0
    else
      let mbits := min mbits 32
      tristate (a1.toNat >>> (32 - mbits)) (a2.toNat >>> (32 - mbits))
  | .inet6 a1, .inet6 a2 =>
    let bytes := min mbits 128 / 8
    let leftoverBits := min mbits 128 % 8
    if bytes ≠ 0 ∧ torMemcmp a1.toList a2.toList bytes ≠ 0 then
      torMemcmp a1.toList a2.toList bytes
    else if leftoverBits ≠ 0 then
      tristate ((a1.toList.getD bytes 0).toNat >>> (8 - leftoverBits))
        ((a2.toList.getD bytes 0).toNat >>> (8 - leftoverBits))
    else 0
  | addr1, addr2 => tristate (torAddrFamily addr1) (torAddrFamily addr2)

/-- The first `mbits` bits of an address, after its family: whole bytes, and the bits left over. -/
def addrPrefix (mbits : ℕ) : TorAddr → ℕ × Bytes × ℕ
  | .unspec => (0, [], 0)
  | .inet a => (2, [], a.toNat >>> (32 - min mbits 32))
  | .inet6 a => (10, a.toList.take (min mbits 128 / 8),
      (a.toList.getD (min mbits 128 / 8) 0).toNat >>> (8 - min mbits 128 % 8))

theorem tristate_eq_zero {a b : ℕ} : tristate a b = 0 ↔ a = b := by
  unfold tristate
  split_ifs <;> simp <;> omega

theorem torMemcmp_eq_zero {a b : Bytes} {n : ℕ} : torMemcmp a b n = 0 ↔ a.take n = b.take n := by
  unfold torMemcmp
  split_ifs with hlt heq
  · refine iff_of_false (by decide) fun heq => ?_
    rw [heq] at hlt
    exact List.lt_irrefl _ hlt
  · exact iff_of_true rfl heq
  · exact iff_of_false (by decide) heq

theorem torAddrCompareMasked_eq_zero {addr1 addr2 : TorAddr} {mbits : ℕ} :
    torAddrCompareMasked addr1 addr2 mbits = 0 ↔ addrPrefix mbits addr1 = addrPrefix mbits addr2 := by
  cases addr1 with
  | unspec => cases addr2 <;> simp [torAddrCompareMasked, addrPrefix, tristate, torAddrFamily]
  | inet a1 =>
    cases addr2 with
    | unspec => simp [torAddrCompareMasked, addrPrefix, tristate, torAddrFamily]
    | inet6 a2 => simp [torAddrCompareMasked, addrPrefix, tristate, torAddrFamily]
    | inet a2 =>
      simp only [torAddrCompareMasked, addrPrefix, Prod.mk.injEq, true_and]
      split_ifs with hzero
      · -- no bits are left
        have hgone : ∀ a : UInt32, a.toNat >>> 32 = 0 := by
          intro a
          have hlt : a.toNat < 2 ^ 32 := a.toNat_lt
          rw [Nat.shiftRight_eq_div_pow, Nat.div_eq_of_lt hlt]
        simp [hzero, hgone]
      · exact tristate_eq_zero
  | inet6 a1 =>
    cases addr2 with
    | unspec => simp [torAddrCompareMasked, addrPrefix, tristate, torAddrFamily]
    | inet a2 => simp [torAddrCompareMasked, addrPrefix, tristate, torAddrFamily]
    | inet6 a2 =>
      simp only [torAddrCompareMasked, addrPrefix, Prod.mk.injEq, true_and]
      have hgone : ∀ b : UInt8, b.toNat >>> 8 = 0 := fun b =>
        Nat.shiftRight_eq_zero _ _ b.toNat_lt
      by_cases hbytes : a1.toList.take (min mbits 128 / 8) = a2.toList.take (min mbits 128 / 8)
      · rw [if_neg fun h => h.2 (torMemcmp_eq_zero.mpr hbytes)]
        by_cases hleft : min mbits 128 % 8 = 0
        · simp [hbytes, hleft, hgone]
        · rw [if_pos hleft, tristate_eq_zero]
          exact ⟨fun h => ⟨hbytes, h⟩, fun h => h.2⟩
      · have hsome : min mbits 128 / 8 ≠ 0 := by
          intro hzero
          rw [hzero] at hbytes
          exact hbytes rfl
        rw [if_pos ⟨hsome, fun h => hbytes (torMemcmp_eq_zero.mp h)⟩]
        exact iff_of_false (fun h => hbytes (torMemcmp_eq_zero.mp h)) fun h => hbytes h.1

theorem addrPrefix_mono {addr1 addr2 : TorAddr} {m n : ℕ} (hmn : m ≤ n)
    (h : addrPrefix n addr1 = addrPrefix n addr2) : addrPrefix m addr1 = addrPrefix m addr2 := by
  have hshift : ∀ {a b i j : ℕ}, i ≤ j → a >>> i = b >>> i → a >>> j = b >>> j := by
    intro a b i j hij hab
    obtain ⟨k, rfl⟩ := Nat.exists_eq_add_of_le hij
    rw [Nat.shiftRight_add, Nat.shiftRight_add, hab]
  cases addr1 with
  | unspec => cases addr2 <;> simp_all [addrPrefix]
  | inet a1 =>
    cases addr2 with
    | unspec => simp [addrPrefix] at h
    | inet6 a2 => simp [addrPrefix] at h
    | inet a2 =>
      simp only [addrPrefix, Prod.mk.injEq, true_and] at h ⊢
      exact hshift (by omega) h
  | inet6 a1 =>
    cases addr2 with
    | unspec => simp [addrPrefix] at h
    | inet a2 => simp [addrPrefix] at h
    | inet6 a2 =>
      simp only [addrPrefix, Prod.mk.injEq, true_and] at h ⊢
      obtain ⟨hbytes, hbits⟩ := h
      have htake : ∀ k ≤ min n 128 / 8, a1.toList.take k = a2.toList.take k := by
        intro k hk
        have hcut := congrArg (List.take k) hbytes
        rwa [List.take_take, List.take_take, min_eq_left hk] at hcut
      refine ⟨htake _ (by omega), ?_⟩
      rcases Nat.lt_or_ge (min m 128 / 8) (min n 128 / 8) with hlt | hge
      · -- a whole byte of the longer prefix
        have hbyte := congrArg (fun l : Bytes => l.getD (min m 128 / 8) 0) (htake _ hlt)
        simp only [List.getD_eq_getElem?_getD, List.getElem?_take, Nat.lt_succ_self, if_true]
          at hbyte ⊢
        rw [hbyte]
      · have heq : min m 128 / 8 = min n 128 / 8 := by omega
        rw [heq]
        exact hshift (by omega) hbits

theorem torAddrFamily_eq {addr1 addr2 : TorAddr} {m : ℕ}
    (h : addrPrefix m addr1 = addrPrefix m addr2) : torAddrFamily addr1 = torAddrFamily addr2 := by
  cases addr1 <;> cases addr2 <;> simp_all [addrPrefix, torAddrFamily]

theorem addrPrefix_zero_iff {addr1 addr2 : TorAddr} :
    addrPrefix 0 addr1 = addrPrefix 0 addr2 ↔ torAddrFamily addr1 = torAddrFamily addr2 := by
  refine ⟨torAddrFamily_eq, fun h => ?_⟩
  rw [← torAddrCompareMasked_eq_zero]
  cases addr1 <;> cases addr2 <;> simp_all [torAddrCompareMasked, torAddrFamily]

/-! ### Policies -/

inductive AddrPolicyAction
  | accept
  | reject
  deriving DecidableEq

structure AddrPolicy where
  policyType : AddrPolicyAction
  addr : TorAddr
  maskbits : UInt8
  prtMin : UInt16
  prtMax : UInt16
  deriving DecidableEq

def coversAddr (addr : TorAddr) (p : AddrPolicy) : Bool :=
  decide (torAddrCompareMasked addr p.addr p.maskbits.toNat = 0)

def coversPort (port : UInt16) (p : AddrPolicy) : Bool :=
  decide (port ≥ p.prtMin ∧ port ≤ p.prtMax)

def coversTarget (p : AddrPolicy) (target : TorAddr × UInt16) : Bool :=
  coversAddr target.1 p && coversPort target.2 p

inductive AddrPolicyResult
  | accepted
  | rejected
  | probablyAccepted
  | probablyRejected
  deriving DecidableEq

def resultOf : AddrPolicyAction → AddrPolicyResult
  | .accept => .accepted
  | .reject => .rejected

def compareKnown (addr : TorAddr) (port : UInt16) : List AddrPolicy → AddrPolicyResult
  | [] => .accepted
  | tmpe :: policy =>
    if coversAddr addr tmpe = true then
      if coversPort port tmpe = true then resultOf tmpe.policyType else compareKnown addr port policy
    else compareKnown addr port policy

/-- The loop over the entries that may match; the answer is that of the first one that surely does,
unless one before it says something different. -/
def compareApprox (relevant definite : AddrPolicy → Bool) :
    Bool → Bool → List AddrPolicy → AddrPolicyResult
  | _, maybeReject, [] => if maybeReject then .probablyAccepted else .accepted
  | maybeAccept, maybeReject, tmpe :: policy =>
    if relevant tmpe = true then
      if definite tmpe = true then
        match tmpe.policyType with
        | .accept => if maybeReject then .probablyAccepted else .accepted
        | .reject => if maybeAccept then .probablyRejected else .rejected
      else
        match tmpe.policyType with
        | .reject => compareApprox relevant definite maybeAccept true policy
        | .accept => compareApprox relevant definite true maybeReject policy
    else compareApprox relevant definite maybeAccept maybeReject policy

def allPorts (p : AddrPolicy) : Bool := decide (p.prtMin ≤ 1 ∧ p.prtMax ≥ 65535)

def allAddrs (p : AddrPolicy) : Bool := decide (p.maskbits = 0)

def compareKnownNoport (addr : TorAddr) (policy : List AddrPolicy) : AddrPolicyResult :=
  compareApprox (coversAddr addr) allPorts false false policy

/-- The port is known, the address is not: an entry with no mask bits is taken to match all
addresses. -/
def compareUnknown (port : UInt16) (policy : List AddrPolicy) : AddrPolicyResult :=
  compareApprox (coversPort port) allAddrs false false policy

def compareTorAddrToAddrPolicy (addr : Option TorAddr) (port : UInt16)
    (policy : Option (List AddrPolicy)) : AddrPolicyResult :=
  match policy with
  | none => .accepted
  | some policy =>
    match addr with
    | none => if port = 0 then .rejected else compareUnknown port policy
    | some addr =>
      if TorAddrIsNull addr then
        if port = 0 then .rejected else compareUnknown port policy
      else if port = 0 then compareKnownNoport addr policy
      else compareKnown addr port policy

/-! ### Decisions -/

abbrev decides (policy : List AddrPolicy) (addr : TorAddr) (port : UInt16) :
    Option AddrPolicyAction :=
  decision coversTarget AddrPolicy.policyType policy (addr, port)

theorem resultOf_injective {t u : AddrPolicyAction} (h : resultOf t = resultOf u) : t = u := by
  cases t <;> cases u <;> first | rfl | cases h

theorem compareKnown_eq (addr : TorAddr) (port : UInt16) (policy : List AddrPolicy) :
    compareKnown addr port policy = resultOf ((decides policy addr port).getD .accept) := by
  induction policy with
  | nil => rfl
  | cons p policy ih =>
    rw [compareKnown]
    split_ifs with haddr hport
    · rw [decides, decision_cons_of_covers (by simp [coversTarget, haddr, hport])]
      rfl
    · rw [ih, decides, decides, decision_cons_of_not_covers (by simp [coversTarget, hport])]
    · rw [ih, decides, decides, decision_cons_of_not_covers (by simp [coversTarget, haddr])]

variable {relevant definite : AddrPolicy → Bool} {policy : List AddrPolicy} {t : AddrPolicyAction}

/-- All entries before the first definite one, or all entries if there is none, have one kind. -/
def SureOf (relevant definite : AddrPolicy → Bool) (t : AddrPolicyAction)
    (policy : List AddrPolicy) : Prop :=
  (∃ before e after, policy = before ++ e :: after ∧ relevant e = true ∧ definite e = true ∧
    e.policyType = t ∧ ∀ p ∈ before, relevant p = true → definite p = false ∧ p.policyType = t) ∨
  (t = .accept ∧ ∀ p ∈ policy, relevant p = true → definite p = false ∧ p.policyType = t)

theorem sureOf_cons_irrelevant {p : AddrPolicy} (hp : relevant p = false) :
    SureOf relevant definite t (p :: policy) ↔ SureOf relevant definite t policy := by
  constructor
  · rintro (⟨before, e, after, heq, he, hdef, htype, hbefore⟩ | ⟨htype, hall⟩)
    · cases before with
      | nil =>
        obtain ⟨rfl, -⟩ := List.cons.inj heq
        rw [hp] at he
        cases he
      | cons q before =>
        obtain ⟨rfl, rfl⟩ := List.cons.inj heq
        exact .inl ⟨before, e, after, rfl, he, hdef, htype, fun r hr =>
          hbefore r (List.mem_cons_of_mem p hr)⟩
    · exact .inr ⟨htype, fun q hq => hall q (List.mem_cons_of_mem p hq)⟩
  · have hnot : ∀ {q : AddrPolicy}, q = p → relevant q = true → False := by
      rintro q rfl hq
      rw [hp] at hq
      cases hq
    rintro (⟨before, e, after, rfl, he, hdef, htype, hbefore⟩ | ⟨htype, hall⟩)
    · refine .inl ⟨p :: before, e, after, rfl, he, hdef, htype, fun q hq hrel => ?_⟩
      exact (List.mem_cons.mp hq).elim (fun h => (hnot h hrel).elim) fun h => hbefore q h hrel
    · refine .inr ⟨htype, fun q hq hrel => ?_⟩
      exact (List.mem_cons.mp hq).elim (fun h => (hnot h hrel).elim) fun h => hall q h hrel

theorem sureOf_cons_definite {p : AddrPolicy} (hp : relevant p = true) (hdef : definite p = true) :
    SureOf relevant definite t (p :: policy) ↔ p.policyType = t := by
  constructor
  · rintro (⟨before, e, after, heq, he, -, htype, hbefore⟩ | ⟨-, hall⟩)
    · cases before with
      | nil =>
        obtain ⟨rfl, -⟩ := List.cons.inj heq
        exact htype
      | cons q before =>
        obtain ⟨rfl, -⟩ := List.cons.inj heq
        exact (hbefore p List.mem_cons_self hp).2
    · exact (hall p List.mem_cons_self hp).2
  · intro htype
    exact .inl ⟨[], p, policy, rfl, hp, hdef, htype, fun q hq => absurd hq List.not_mem_nil⟩

theorem sureOf_cons_possible {p : AddrPolicy} (hp : relevant p = true) (hdef : definite p = false) :
    SureOf relevant definite t (p :: policy) ↔
      p.policyType = t ∧ SureOf relevant definite t policy := by
  constructor
  · rintro (⟨before, e, after, heq, he, hdef', htype, hbefore⟩ | ⟨htype, hall⟩)
    · cases before with
      | nil =>
        obtain ⟨rfl, -⟩ := List.cons.inj heq
        rw [hdef] at hdef'
        cases hdef'
      | cons q before =>
        obtain ⟨rfl, rfl⟩ := List.cons.inj heq
        exact ⟨(hbefore p List.mem_cons_self hp).2, .inl ⟨before, e, after, rfl, he, hdef', htype,
          fun r hr => hbefore r (List.mem_cons_of_mem p hr)⟩⟩
    · exact ⟨(hall p List.mem_cons_self hp).2, .inr ⟨htype, fun q hq =>
        hall q (List.mem_cons_of_mem p hq)⟩⟩
  · rintro ⟨htypep, ⟨before, e, after, rfl, he, hdef', htype, hbefore⟩ | ⟨htype, hall⟩⟩
    · refine .inl ⟨p :: before, e, after, rfl, he, hdef', htype, fun q hq hrel => ?_⟩
      rcases List.mem_cons.mp hq with rfl | hq
      · exact ⟨hdef, htypep⟩
      · exact hbefore q hq hrel
    · refine .inr ⟨htype, fun q hq hrel => ?_⟩
      rcases List.mem_cons.mp hq with rfl | hq
      · exact ⟨hdef, htypep⟩
      · exact hall q hq hrel

theorem compareApprox_eq_resultOf (maybeAccept maybeReject : Bool) :
    compareApprox relevant definite maybeAccept maybeReject policy = resultOf t ↔
      (t = .accept → maybeReject = false) ∧ (t = .reject → maybeAccept = false) ∧
        SureOf relevant definite t policy := by
  induction policy generalizing maybeAccept maybeReject with
  | nil =>
    have hnil : SureOf relevant definite t [] ↔ t = .accept := by
      constructor
      · rintro (⟨before, e, after, heq, -⟩ | ⟨htype, -⟩)
        · exact absurd heq (by simp)
        · exact htype
      · exact fun htype => .inr ⟨htype, fun p hp => absurd hp List.not_mem_nil⟩
    rw [compareApprox, hnil]
    cases t <;> cases maybeReject <;> simp [resultOf]
  | cons p policy ih =>
    rw [compareApprox]
    cases hrel : relevant p with
    | false => rw [if_neg (by simp), ih, sureOf_cons_irrelevant hrel]
    | true =>
      rw [if_pos rfl]
      cases hdef : definite p with
      | true =>
        rw [if_pos rfl, sureOf_cons_definite hrel hdef]
        cases hp : p.policyType <;> cases t <;> cases maybeAccept <;> cases maybeReject <;>
          simp [resultOf]
      | false =>
        rw [if_neg (by simp), sureOf_cons_possible hrel hdef]
        cases hp : p.policyType with
        | accept =>
          simp only [ih]
          cases t <;> simp
        | reject =>
          simp only [ih]
          cases t <;> simp

theorem decides_of_definite {before after : List AddrPolicy} {e : AddrPolicy} {addr : TorAddr}
    {port : UInt16} (he : coversTarget e (addr, port) = true)
    (hbefore : ∀ p ∈ before, coversTarget p (addr, port) = true → p.policyType = e.policyType) :
    decides (before ++ e :: after) addr port = some e.policyType := by
  have hfront : decision coversTarget AddrPolicy.policyType (before ++ [e]) (addr, port) =
      some e.policyType := by
    refine decision_eq_of_forall ⟨e, by simp, he⟩ fun p hp hcovers => ?_
    rcases List.mem_append.mp hp with hp | hp
    · exact hbefore p hp hcovers
    · rw [List.mem_singleton.mp hp]
  rw [decides, List.append_cons, decision_append, hfront]
  rfl

theorem compareKnown_of_all_accept {addr : TorAddr} {port : UInt16}
    (hall : ∀ p ∈ policy, coversTarget p (addr, port) = true → p.policyType = .accept) :
    compareKnown addr port policy = .accepted := by
  rw [compareKnown_eq]
  cases h : decides policy addr port with
  | none => rfl
  | some v =>
    obtain ⟨before, r, after, rfl, hcovers, rfl, -⟩ := decision_eq_some.mp h
    rw [hall r (by simp) hcovers]
    rfl

theorem coversPort_of_allPorts {p : AddrPolicy} (h : allPorts p = true) {port : UInt16}
    (hport : port ≠ 0) : coversPort port p = true := by
  obtain ⟨hmin, hmax⟩ := of_decide_eq_true h
  refine decide_eq_true ⟨?_, ?_⟩
  · have hpos : 0 < port.toNat := by
      refine Nat.pos_of_ne_zero fun hzero => hport (UInt16.toNat_inj.mp hzero)
    have hone := UInt16.le_iff_toNat_le.mp hmin
    refine UInt16.le_iff_toNat_le.mpr ?_
    have : (1 : UInt16).toNat = 1 := rfl
    omega
  · have hlt := port.toNat_lt
    have htop := UInt16.le_iff_toNat_le.mp hmax
    refine UInt16.le_iff_toNat_le.mpr ?_
    have : (65535 : UInt16).toNat = 65535 := rfl
    omega

theorem coversAddr_of_allAddrs {p : AddrPolicy} (h : allAddrs p = true) (addr : TorAddr) :
    coversAddr addr p = true ↔ torAddrFamily addr = torAddrFamily p.addr := by
  have hzero : p.maskbits = 0 := of_decide_eq_true h
  rw [coversAddr, decide_eq_true_eq, torAddrCompareMasked_eq_zero, hzero]
  exact addrPrefix_zero_iff

/-! ### Targets that are known in part -/

/-- The answers `accepted` and `rejected` for an address without a port hold for each port. -/
theorem comparePolicy_noport_sound {addr : TorAddr} {t : AddrPolicyAction}
    (h : compareKnownNoport addr policy = resultOf t) {port : UInt16} (hport : port ≠ 0) :
    compareKnown addr port policy = resultOf t := by
  obtain ⟨-, -, hsure⟩ := (compareApprox_eq_resultOf false false).mp h
  rcases hsure with ⟨before, e, after, rfl, he, hdef, rfl, hbefore⟩ | ⟨rfl, hall⟩
  · have hcovers : coversTarget e (addr, port) = true := by
      simp [coversTarget, he, coversPort_of_allPorts hdef hport]
    rw [compareKnown_eq, decides_of_definite hcovers fun p hp hcov => ?_]
    · rfl
    · rw [coversTarget, Bool.and_eq_true] at hcov
      exact (hbefore p hp hcov.1).2
  · refine compareKnown_of_all_accept fun p hp hcov => ?_
    rw [coversTarget, Bool.and_eq_true] at hcov
    exact (hall p hp hcov.1).2

/-- The answers `accepted` and `rejected` for a port without an address hold for each address. -/
def UnknownSound (policy : List AddrPolicy) (port : UInt16) : Prop :=
  ∀ t, compareUnknown port policy = resultOf t → ∀ addr, ¬ TorAddrIsNull addr →
    compareKnown addr port policy = resultOf t

/-- For the port, where a wildcard of one family decides: for each address of another family every
entry behind the wildcard that says something different is dead, and if the wildcard rejects, some
entry rejects the address. -/
def OtherFamilyAgrees (policy : List AddrPolicy) (port : UInt16) : Prop :=
  ∀ before e after, policy = before ++ e :: after → coversPort port e = true → e.maskbits = 0 →
    (∀ p ∈ before, coversPort port p = true → p.maskbits ≠ 0 ∧ p.policyType = e.policyType) →
    ∀ addr, ¬ TorAddrIsNull addr → torAddrFamily addr ≠ torAddrFamily e.addr →
      (∀ mid r rest, after = mid ++ r :: rest → r.policyType ≠ e.policyType →
        coversTarget r (addr, port) = true →
        ∃ q ∈ before ++ mid, q.policyType = e.policyType ∧ coversTarget q (addr, port) = true) ∧
      (e.policyType = .reject →
        ∃ q ∈ policy, q.policyType = .reject ∧ coversTarget q (addr, port) = true)

theorem not_coversTarget_of_allAddrs {e : AddrPolicy} {addr : TorAddr} (port : UInt16)
    (hdef : allAddrs e = true) (hfamily : torAddrFamily addr ≠ torAddrFamily e.addr) :
    coversTarget e (addr, port) = false := by
  rw [coversTarget, Bool.eq_false_iff]
  intro hcov
  rw [Bool.and_eq_true] at hcov
  exact hfamily ((coversAddr_of_allAddrs hdef addr).mp hcov.1)

theorem UnknownSound.agrees {port : UInt16} (h : UnknownSound policy port) :
    OtherFamilyAgrees policy port := by
  rintro before e after rfl hport hmask hbefore addr hnull hfamily
  have hdef : allAddrs e = true := decide_eq_true hmask
  have hsure : compareUnknown port (before ++ e :: after) = resultOf e.policyType := by
    refine (compareApprox_eq_resultOf false false).mpr ⟨fun _ => rfl, fun _ => rfl, .inl
      ⟨before, e, after, rfl, hport, hdef, rfl, fun p hp hcov => ?_⟩⟩
    exact ⟨decide_eq_false (hbefore p hp hcov).1, (hbefore p hp hcov).2⟩
  have hknown := h _ hsure addr hnull
  rw [compareKnown_eq] at hknown
  have hdecides := resultOf_injective hknown
  -- the wildcard is of another family, and what is before it is of its kind
  have he := not_coversTarget_of_allAddrs port hdef hfamily
  refine ⟨?_, fun hreject => ?_⟩
  · rintro mid r rest rfl hne hcovers
    by_contra hnone
    push Not at hnone
    have hfront : ∀ p ∈ before, coversTarget p (addr, port) = false := by
      intro p hp
      refine Bool.eq_false_iff.mpr fun hcov => hnone p (by simp [hp]) ?_ hcov
      rw [coversTarget, Bool.and_eq_true] at hcov
      exact (hbefore p hp hcov.2).2
    rw [decides, decision_append, decision_eq_none.mpr hfront, Option.none_or,
      decision_cons_of_not_covers he, decision_append, decision_cons_of_covers hcovers] at hdecides
    cases hmid : decision coversTarget AddrPolicy.policyType mid (addr, port) with
    | none =>
      rw [hmid] at hdecides
      exact hne hdecides
    | some v =>
      rw [hmid] at hdecides
      obtain ⟨front, q, back, rfl, hq, rfl, -⟩ := decision_eq_some.mp hmid
      exact hnone q (by simp) hdecides hq
  · rw [hreject] at hdecides
    cases hsome : decides (before ++ e :: after) addr port with
    | none =>
      rw [hsome] at hdecides
      cases hdecides
    | some v =>
      rw [hsome] at hdecides
      obtain ⟨front, q, back, heq, hq, hv, -⟩ := decision_eq_some.mp hsome
      exact ⟨q, heq ▸ by simp, hv.trans hdecides, hq⟩

theorem OtherFamilyAgrees.sound {port : UInt16} (h : OtherFamilyAgrees policy port) :
    UnknownSound policy port := by
  intro t hunknown addr hnull
  obtain ⟨-, -, hsure⟩ := (compareApprox_eq_resultOf false false).mp hunknown
  rcases hsure with ⟨before, e, after, rfl, hport, hdef, rfl, hbefore⟩ | ⟨rfl, hall⟩
  · have hbefore' : ∀ p ∈ before, coversPort port p = true →
        p.maskbits ≠ 0 ∧ p.policyType = e.policyType := fun p hp hcov =>
      ⟨of_decide_eq_false (hbefore p hp hcov).1, (hbefore p hp hcov).2⟩
    have hkind : ∀ p ∈ before, coversTarget p (addr, port) = true →
        p.policyType = e.policyType := by
      intro p hp hcov
      rw [coversTarget, Bool.and_eq_true] at hcov
      exact (hbefore p hp hcov.2).2
    by_cases hfamily : torAddrFamily addr = torAddrFamily e.addr
    · have hcovers : coversTarget e (addr, port) = true := by
        simp [coversTarget, hport, (coversAddr_of_allAddrs hdef addr).mpr hfamily]
      rw [compareKnown_eq, decides_of_definite hcovers hkind]
      rfl
    · obtain ⟨hdead, hreject⟩ := h before e after rfl hport (of_decide_eq_true hdef) hbefore' addr
        hnull hfamily
      have he := not_coversTarget_of_allAddrs port hdef hfamily
      rw [compareKnown_eq]
      cases hsome : decides (before ++ e :: after) addr port with
      | none =>
        -- nothing matches, so the wildcard does not reject
        cases htype : e.policyType with
        | accept => rfl
        | reject =>
          obtain ⟨q, hq, -, hcovers⟩ := hreject htype
          rw [decision_eq_none.mp hsome q hq] at hcovers
          cases hcovers
      | some v =>
        rw [decides, decision_append, decision_cons_of_not_covers he] at hsome
        rw [Option.getD_some]
        congr 1
        cases hfront : decision coversTarget AddrPolicy.policyType before (addr, port) with
        | some w =>
          rw [hfront] at hsome
          obtain rfl := Option.some.inj hsome
          obtain ⟨front, q, back, rfl, hq, rfl, -⟩ := decision_eq_some.mp hfront
          exact hkind q (by simp) hq
        | none =>
          rw [hfront, Option.none_or] at hsome
          obtain ⟨mid, r, rest, rfl, hr, rfl, hmid⟩ := decision_eq_some.mp hsome
          by_contra hne
          obtain ⟨q, hq, -, hcovers⟩ := hdead mid r rest rfl hne hr
          rcases List.mem_append.mp hq with hq | hq
          · rw [decision_eq_none.mp hfront q hq] at hcovers
            cases hcovers
          · rw [hmid q hq] at hcovers
            cases hcovers
  · refine compareKnown_of_all_accept fun p hp hcov => ?_
    rw [coversTarget, Bool.and_eq_true] at hcov
    exact (hall p hp hcov.2).2

/-- What the comparison says of targets that are known in part holds for all of them. -/
def PartlyKnownSound (policy : List AddrPolicy) : Prop :=
  ∀ t port, port ≠ 0 → ∀ addr, ¬ TorAddrIsNull addr →
    (compareTorAddrToAddrPolicy none port (some policy) = resultOf t →
      compareTorAddrToAddrPolicy (some addr) port (some policy) = resultOf t) ∧
    (compareTorAddrToAddrPolicy (some addr) 0 (some policy) = resultOf t →
      compareTorAddrToAddrPolicy (some addr) port (some policy) = resultOf t)

/-- It does just where, for every port, the other family agrees with the wildcard that decides. -/
theorem compareUnknown_sound_iff (policy : List AddrPolicy) :
    PartlyKnownSound policy ↔ ∀ port, port ≠ 0 → OtherFamilyAgrees policy port := by
  have hknown : ∀ {addr port}, ¬ TorAddrIsNull addr → port ≠ 0 →
      compareTorAddrToAddrPolicy (some addr) port (some policy) = compareKnown addr port policy := by
    intro addr port hnull hport
    simp [compareTorAddrToAddrPolicy, hnull, hport]
  have hnoport : ∀ {addr}, ¬ TorAddrIsNull addr →
      compareTorAddrToAddrPolicy (some addr) 0 (some policy) = compareKnownNoport addr policy := by
    intro addr hnull
    simp [compareTorAddrToAddrPolicy, hnull]
  have hunknown : ∀ {port}, port ≠ 0 →
      compareTorAddrToAddrPolicy none port (some policy) = compareUnknown port policy := by
    intro port hport
    simp [compareTorAddrToAddrPolicy, hport]
  constructor
  · intro hall port hport
    refine UnknownSound.agrees fun t h addr hnull => ?_
    rw [← hknown hnull hport]
    exact (hall t port hport addr hnull).1 ((hunknown hport).trans h)
  · intro hall t port hport addr hnull
    rw [hknown hnull hport, hnoport hnull, hunknown hport]
    exact ⟨fun h => (hall port hport).sound t h addr hnull,
      fun h => comparePolicy_noport_sound h hport⟩

/-- Only IPv4 is accepted on port 80, and IPv6 is rejected behind it. -/
theorem wildcard_of_one_family :
    ¬ ∀ policy : List AddrPolicy, PartlyKnownSound policy := by
  intro hall
  have hsound := (hall [⟨.accept, .inet 0, 0, 80, 80⟩, ⟨.reject, .inet6 (zeroBlock 16), 0, 80, 80⟩]
    .accept 80 (by decide) (.inet6 (Bytes.zeroFill 16 [1])) (by decide)).1 (by decide)
  exact absurd hsound (by decide)

end Policies
