/-
Exit policy summaries: which ports a policy lets through, whatever the address
(`core/or/policies.c`).

The ports from 1 to 65535 are cut into items.  An entry of the policy cuts them once more where its
ports begin and end, and marks or counts in the items between.
-/
import Mathlib
import LibEltor.AddrPolicy
import LibEltor.Word

open Bytes Onion Word

namespace Policies

/-! ### Items -/

structure PolicySummaryItem where
  prtMin : ℕ
  prtMax : ℕ
  rejectCount : ℕ
  accepted : Bool
  deriving DecidableEq

abbrev Summary := List PolicySummaryItem

def maxPort : ℕ := 65535

def uint64Max : ℕ := 2 ^ 64 - 1

def policySummaryCreate : Summary := [⟨1, maxPort, 0, false⟩]

/-- The old item, now up to `newStarts - 1`, and the new one; none where an assertion fails. -/
def policySummaryItemSplit (old : PolicySummaryItem) (newStarts : ℕ) :
    Option (PolicySummaryItem × PolicySummaryItem) :=
  let new := { old with prtMin := newStarts }
  let old := { old with prtMax := u16 (newStarts - 1) }
  if old.prtMin ≤ old.prtMax ∧ new.prtMin ≤ new.prtMax then some (old, new) else none

/-- Over the items that end before `port`; none behind the last one. -/
def skipItems (summary : Summary) (port : ℕ) (i : ℕ) : Option ℕ :=
  if h : i < summary.length then
    if summary[i].prtMax < port then skipItems summary port (i + 1) else some i
  else none
termination_by summary.length - i

def cutItem (summary : Summary) (i newStarts : ℕ) : Option Summary := do
  let item ← summary[i]?
  let (old, new) ← policySummaryItemSplit item newStarts
  some ((summary.set i old).insertIdx (i + 1) new)

/-- Up to `start_at_index`: the item at that index begins at `prtMin`. -/
def splitStart (summary : Summary) (prtMin : ℕ) : Option (Summary × ℕ) := do
  let i ← skipItems summary prtMin 0
  let item ← summary[i]?
  if item.prtMin ≠ prtMin then (cutItem summary i prtMin).map fun summary => (summary, i + 1)
  else some (summary, i)

/-- What follows: an item ends at `prtMax`. -/
def splitEnd (summary : Summary) (startAtIndex prtMax : ℕ) : Option Summary := do
  let i ← skipItems summary prtMax startAtIndex
  let item ← summary[i]?
  if item.prtMax ≠ prtMax then cutItem summary i (u16 (prtMax + 1)) else some summary

def policySummarySplit (summary : Summary) (prtMin prtMax : ℕ) : Option (Summary × ℕ) := do
  let (summary, startAtIndex) ← splitStart summary prtMin
  let summary ← splitEnd summary startAtIndex prtMax
  some (summary, startAtIndex)

/-- The loop over the items from `i` on that end by `prtMax`, and the index behind them. -/
def markItems (mark : PolicySummaryItem → PolicySummaryItem) (prtMax : ℕ) (summary : Summary)
    (i : ℕ) : Summary × ℕ :=
  if h : i < summary.length then
    if summary[i].prtMax ≤ prtMax then
      markItems mark prtMax (summary.set i (mark summary[i])) (i + 1)
    else (summary, i)
  else (summary, i)
termination_by summary.length - i
decreasing_by
  rw [List.length_set]
  omega

/-- What accepting and rejecting have in common; none where an assertion fails. -/
def markRange (mark : PolicySummaryItem → PolicySummaryItem) (summary : Summary)
    (prtMin prtMax : ℕ) : Option Summary := do
  let (summary, i) ← policySummarySplit summary prtMin prtMax
  let (summary, i) := markItems mark prtMax summary i
  if i < summary.length ∨ prtMax = maxPort then some summary else none

/-! ### Entries -/

def afInet : ℕ := 2

def ipv4Bits : ℕ := 32

def ipv6Bits : ℕ := 128

def rejectCutoffScaleIpv4 : ℕ := 0

def rejectCutoffScaleIpv6 : ℕ := 64

def rejectCutoffCountIpv4 : ℕ := 2 ^ (ipv4Bits - rejectCutoffScaleIpv4 - 7)

def rejectCutoffCountIpv6 : ℕ := 2 ^ (ipv6Bits - rejectCutoffScaleIpv6 - 16)

def policySummaryAccept (summary : Summary) (prtMin prtMax family : ℕ) : Option Summary :=
  let familyRejectCount := if family = afInet then rejectCutoffCountIpv4 else rejectCutoffCountIpv6
  markRange
    (fun item =>
      if item.accepted = false ∧ item.rejectCount ≤ familyRejectCount then
        { item with accepted := true }
      else item)
    summary prtMin prtMax

def policySummaryReject (summary : Summary) (maskbits prtMin prtMax family : ℕ) :
    Option Summary :=
  let addrbits := if family = afInet then ipv4Bits else ipv6Bits
  let scale := if family = afInet then rejectCutoffScaleIpv4 else rejectCutoffScaleIpv6
  if maskbits > addrbits - scale then
    (policySummarySplit summary prtMin prtMax).map Prod.fst
  else
    let count := if addrbits - scale - maskbits ≥ 64 then uint64Max
      else 2 ^ (addrbits - scale - maskbits)
    markRange
      (fun item =>
        { item with
          rejectCount :=
            if item.rejectCount ≤ uint64Max - count then item.rejectCount + count else uint64Max })
      summary prtMin prtMax

def privateNets : List (TorAddr × ℕ) :=
  [(.inet 0x00000000, 8), (.inet 0xa9fe0000, 16), (.inet 0x7f000000, 8), (.inet 0xc0a80000, 16),
    (.inet 0x0a000000, 8), (.inet 0xac100000, 12), (.inet6 (zeroFill 16 []), 8),
    (.inet6 (zeroFill 16 [0xfc]), 7), (.inet6 (zeroFill 16 [0xfe, 0x80]), 10),
    (.inet6 (zeroFill 16 [0xfe, 0xc0]), 10), (.inet6 (zeroFill 16 [0xff]), 8),
    (.inet6 (zeroFill 16 []), 127)]

def isPrivate (p : AddrPolicy) : Bool :=
  privateNets.any fun net =>
    decide (torAddrCompareMasked p.addr net.1 128 = 0 ∧ p.maskbits.toNat = net.2)

def policySummaryAddItem (summary : Summary) (p : AddrPolicy) : Option Summary :=
  match p.policyType with
  | .accept =>
    if p.maskbits = 0 then
      policySummaryAccept summary p.prtMin.toNat p.prtMax.toNat (torAddrFamily p.addr)
    else some summary
  | .reject =>
    if isPrivate p then some summary
    else
      policySummaryReject summary p.maskbits.toNat p.prtMin.toNat p.prtMax.toNat
        (torAddrFamily p.addr)

def summaryOf (policy : List AddrPolicy) (family : ℕ) : Option Summary :=
  (policy.filter fun p => torAddrFamily p.addr = family).foldlM policySummaryAddItem
    policySummaryCreate

/-! ### The partition -/

/-- Item after item, from `lo` up to but not including `hi`. -/
def Run : ℕ → ℕ → Summary → Prop
  | lo, hi, [] => lo = hi
  | lo, hi, item :: summary =>
    item.prtMin = lo ∧ lo ≤ item.prtMax ∧ Run (item.prtMax + 1) hi summary

def Partition (summary : Summary) : Prop := Run 1 (maxPort + 1) summary

theorem partition_create : Partition policySummaryCreate := ⟨rfl, by decide, rfl⟩

theorem Run.le {lo hi : ℕ} {summary : Summary} (h : Run lo hi summary) : lo ≤ hi := by
  induction summary generalizing lo with
  | nil => exact Nat.le_of_eq h
  | cons item summary ih =>
    obtain ⟨-, hle, hrest⟩ := h
    have := ih hrest
    omega

theorem Run.append {lo mid hi : ℕ} {front back : Summary} (h : Run lo mid front)
    (h' : Run mid hi back) : Run lo hi (front ++ back) := by
  induction front generalizing lo with
  | nil =>
    obtain rfl : lo = mid := h
    exact h'
  | cons item front ih => exact ⟨h.1, h.2.1, ih h.2.2⟩

theorem Run.mark {lo hi : ℕ} {summary : Summary} (h : Run lo hi summary)
    {mark : PolicySummaryItem → PolicySummaryItem}
    (hmark : ∀ item, (mark item).prtMin = item.prtMin ∧ (mark item).prtMax = item.prtMax) :
    Run lo hi (summary.map mark) := by
  induction summary generalizing lo with
  | nil => exact h
  | cons item summary ih =>
    obtain ⟨hmin, hle, hrest⟩ := h
    obtain ⟨hmin', hmax'⟩ := hmark item
    refine ⟨hmin'.trans hmin, hmax' ▸ hle, ?_⟩
    rw [hmax']
    exact ih hrest

theorem Run.prtMax_lt {lo hi : ℕ} {summary : Summary} (h : Run lo hi summary)
    {item : PolicySummaryItem} (hitem : item ∈ summary) : item.prtMax < hi := by
  induction summary generalizing lo with
  | nil => cases hitem
  | cons first summary ih =>
    obtain ⟨-, -, hrest⟩ := h
    rcases List.mem_cons.mp hitem with rfl | hmem
    · exact hrest.le
    · exact ih hrest hmem

theorem skipItems_spec {lo hi port : ℕ} {back : Summary} (h : Run lo hi back) (hlo : lo ≤ port)
    (hhi : port < hi) (front : Summary) :
    ∃ skipped item rest, back = skipped ++ item :: rest ∧
      skipItems (front ++ back) port front.length = some (front ++ skipped).length ∧
      Run lo item.prtMin skipped ∧ item.prtMin ≤ port ∧ port ≤ item.prtMax ∧
      Run (item.prtMax + 1) hi rest := by
  induction back generalizing lo front with
  | nil =>
    obtain rfl : lo = hi := h
    omega
  | cons item back ih =>
    obtain ⟨rfl, hle, hrest⟩ := h
    have hlt : front.length < (front ++ item :: back).length := by simp
    have hget : (front ++ item :: back)[front.length] = item := by simp
    rw [skipItems, dif_pos hlt, hget]
    by_cases hskip : item.prtMax < port
    · -- the next item begins at or before the port, as there is no gap
      rw [if_pos hskip]
      obtain ⟨skipped, item', rest, rfl, hfound, hrun, hmin, hmax, hafter⟩ :=
        ih hrest hskip (front ++ [item])
      refine ⟨item :: skipped, item', rest, rfl, ?_, ⟨rfl, hle, hrun⟩, hmin, hmax, hafter⟩
      simpa using hfound
    · rw [if_neg hskip]
      exact ⟨[], item, back, rfl, by simp, rfl, hlo, Nat.le_of_not_lt hskip, hrest⟩

theorem u16_eq {x : ℤ} {port : ℕ} (h : x = port) (hport : port ≤ maxPort) : u16 x = port := by
  rw [h]
  exact wrap_natCast (Nat.lt_succ_of_le hport)

theorem insertIdx_behind {α : Type} (front back : List α) (x y : α) :
    (front ++ x :: back).insertIdx (front.length + 1) y = front ++ x :: y :: back := by
  induction front with
  | nil => rfl
  | cons a front ih => exact congrArg (a :: ·) ih

theorem cutItem_spec (front back : Summary) {item : PolicySummaryItem} {newStarts : ℕ}
    (hmin : item.prtMin < newStarts) (hmax : newStarts ≤ item.prtMax)
    (hport : item.prtMax ≤ maxPort) :
    cutItem (front ++ item :: back) front.length newStarts =
      some (front ++ { item with prtMax := newStarts - 1 } ::
        { item with prtMin := newStarts } :: back) := by
  have hu16 : u16 ((newStarts : ℤ) - 1) = newStarts - 1 := u16_eq (by omega) (by omega)
  have hget : (front ++ item :: back)[front.length]? = some item := by simp
  have hok : item.prtMin ≤ newStarts - 1 ∧ newStarts ≤ item.prtMax := by omega
  have hsplit : policySummaryItemSplit item newStarts =
      some ({ item with prtMax := newStarts - 1 }, { item with prtMin := newStarts }) := by
    simp only [policySummaryItemSplit, hu16]
    exact if_pos hok
  simp only [cutItem, hget, hsplit, Option.bind_eq_bind, Option.bind_some]
  rw [List.set_append_right _ _ (le_refl _), Nat.sub_self, List.set_cons_zero, insertIdx_behind]

theorem splitStart_spec {summary : Summary} (h : Partition summary) {prtMin : ℕ}
    (hmin : 1 ≤ prtMin) (hmax : prtMin ≤ maxPort) :
    ∃ front back, Run 1 prtMin front ∧ Run prtMin (maxPort + 1) back ∧
      splitStart summary prtMin = some (front ++ back, front.length) := by
  obtain ⟨skipped, item, rest, rfl, hfound, hrun, hlo, hhi, hrest⟩ :=
    skipItems_spec h hmin (Nat.lt_succ_of_le hmax) []
  simp only [List.nil_append, List.length_nil] at hfound
  have hget : (skipped ++ item :: rest)[skipped.length]? = some item := by simp
  simp only [splitStart, hfound, Option.bind_eq_bind, Option.bind_some, hget]
  by_cases hstart : item.prtMin = prtMin
  · rw [if_neg (not_not.mpr hstart)]
    subst hstart
    exact ⟨skipped, item :: rest, hrun, ⟨rfl, hhi, hrest⟩, rfl⟩
  · have hport := Nat.lt_succ_iff.mp hrest.le
    rw [if_pos hstart, cutItem_spec skipped rest (by omega) hhi hport]
    refine ⟨skipped ++ [{ item with prtMax := prtMin - 1 }], { item with prtMin := prtMin } :: rest,
      hrun.append ⟨rfl, ?_, ?_⟩, ⟨rfl, hhi, hrest⟩, ?_⟩
    · show item.prtMin ≤ prtMin - 1
      omega
    · show prtMin - 1 + 1 = prtMin
      omega
    · simp

theorem splitEnd_spec {prtMin prtMax : ℕ} {rest : Summary} (h : Run prtMin (maxPort + 1) rest)
    (hle : prtMin ≤ prtMax) (hmax : prtMax ≤ maxPort) (front : Summary) :
    ∃ middle back, Run prtMin (prtMax + 1) middle ∧ Run (prtMax + 1) (maxPort + 1) back ∧
      splitEnd (front ++ rest) front.length prtMax = some (front ++ (middle ++ back)) := by
  obtain ⟨skipped, item, back, rfl, hfound, hrun, hlo, hhi, hback⟩ :=
    skipItems_spec h hle (Nat.lt_succ_of_le hmax) front
  have hget : (front ++ (skipped ++ item :: back))[(front ++ skipped).length]? = some item := by
    rw [← List.append_assoc]
    simp
  simp only [splitEnd, hfound, Option.bind_eq_bind, Option.bind_some, hget]
  by_cases hend : item.prtMax = prtMax
  · rw [if_neg (not_not.mpr hend)]
    subst hend
    refine ⟨skipped ++ [item], back, hrun.append ⟨rfl, hlo, rfl⟩, hback, ?_⟩
    simp
  · have hport := Nat.lt_succ_iff.mp hback.le
    have hu16 : u16 ((prtMax : ℤ) + 1) = prtMax + 1 := u16_eq (by omega) (by omega)
    rw [if_pos hend, hu16, ← List.append_assoc,
      cutItem_spec (front ++ skipped) back (by omega) (by omega) hport]
    have hlast : Run item.prtMin (prtMax + 1) [{ item with prtMax := prtMax }] := ⟨rfl, hlo, rfl⟩
    refine ⟨skipped ++ [{ item with prtMax := prtMax }], { item with prtMin := prtMax + 1 } :: back,
      hrun.append hlast, ⟨rfl, ?_, hback⟩, ?_⟩
    · show prtMax + 1 ≤ item.prtMax
      omega
    · simp

theorem policySummarySplit_spec {summary : Summary} (h : Partition summary) {prtMin prtMax : ℕ}
    (hmin : 1 ≤ prtMin) (hle : prtMin ≤ prtMax) (hmax : prtMax ≤ maxPort) :
    ∃ front middle back, Run 1 prtMin front ∧ Run prtMin (prtMax + 1) middle ∧
      Run (prtMax + 1) (maxPort + 1) back ∧
      policySummarySplit summary prtMin prtMax =
        some (front ++ (middle ++ back), front.length) := by
  obtain ⟨front, rest, hfront, hrest, hstart⟩ := splitStart_spec h hmin (hle.trans hmax)
  obtain ⟨middle, back, hmiddle, hback, hend⟩ := splitEnd_spec hrest hle hmax front
  refine ⟨front, middle, back, hfront, hmiddle, hback, ?_⟩
  simp only [policySummarySplit, hstart, hend, Option.bind_eq_bind, Option.bind_some]

theorem markItems_spec {mark : PolicySummaryItem → PolicySummaryItem} {lo prtMax hi : ℕ}
    {middle back : Summary} (h : Run lo (prtMax + 1) middle) (hback : Run (prtMax + 1) hi back)
    (front : Summary) :
    markItems mark prtMax (front ++ (middle ++ back)) front.length =
      (front ++ (middle.map mark ++ back), (front ++ middle).length) := by
  induction middle generalizing lo front with
  | nil =>
    rw [markItems]
    cases back with
    | nil => simp
    | cons item back =>
      -- the first item behind the range ends behind it too
      obtain ⟨hmin, hle, -⟩ := hback
      have hlt : front.length < (front ++ ([] ++ item :: back)).length := by simp
      have hget : (front ++ ([] ++ item :: back))[front.length] = item := by simp
      rw [dif_pos hlt, hget, if_neg (by omega)]
      simp
  | cons item middle ih =>
    obtain ⟨-, -, hrest⟩ := h
    have hlt : front.length < (front ++ (item :: middle ++ back)).length := by simp
    have hget : (front ++ (item :: middle ++ back))[front.length] = item := by simp
    have hend : item.prtMax ≤ prtMax := by
      have := hrest.le
      omega
    have hset : (front ++ (item :: middle ++ back)).set front.length (mark item) =
        (front ++ [mark item]) ++ (middle ++ back) := by simp
    have hlen : front.length + 1 = (front ++ [mark item]).length := by simp
    rw [markItems, dif_pos hlt, hget, if_pos hend, hset, hlen, ih hrest]
    simp

theorem markRange_partition {mark : PolicySummaryItem → PolicySummaryItem}
    (hmark : ∀ item, (mark item).prtMin = item.prtMin ∧ (mark item).prtMax = item.prtMax)
    {summary : Summary} (h : Partition summary) {prtMin prtMax : ℕ} (hmin : 1 ≤ prtMin)
    (hle : prtMin ≤ prtMax) (hmax : prtMax ≤ maxPort) :
    ∃ summary', markRange mark summary prtMin prtMax = some summary' ∧ Partition summary' := by
  obtain ⟨front, middle, back, hfront, hmiddle, hback, hsplit⟩ :=
    policySummarySplit_spec h hmin hle hmax
  refine ⟨front ++ (middle.map mark ++ back), ?_, hfront.append ((hmiddle.mark hmark).append hback)⟩
  simp only [markRange, hsplit, Option.bind_eq_bind, Option.bind_some,
    markItems_spec hmiddle hback]
  refine if_pos ?_
  cases back with
  | nil => exact Or.inr (Nat.succ_injective hback)
  | cons item back =>
    left
    simp

/-- The entry is not ignored: it accepts all addresses, or rejects some that are not private. -/
def Counts (p : AddrPolicy) : Prop :=
  (p.policyType = .accept ∧ p.maskbits = 0) ∨ (p.policyType = .reject ∧ isPrivate p = false)

def HasPorts (p : AddrPolicy) : Prop := 1 ≤ p.prtMin.toNat ∧ p.prtMin.toNat ≤ p.prtMax.toNat

theorem prtMax_le (p : AddrPolicy) : p.prtMax.toNat ≤ maxPort :=
  Nat.le_of_lt_succ p.prtMax.toNat_lt

theorem policySummaryReject_cases (summary : Summary) (maskbits prtMin prtMax family : ℕ) :
    policySummaryReject summary maskbits prtMin prtMax family =
        (policySummarySplit summary prtMin prtMax).map Prod.fst ∨
      ∃ mark : PolicySummaryItem → PolicySummaryItem,
        (∀ item, (mark item).prtMin = item.prtMin ∧ (mark item).prtMax = item.prtMax) ∧
        policySummaryReject summary maskbits prtMin prtMax family =
          markRange mark summary prtMin prtMax := by
  unfold policySummaryReject
  by_cases hsmall : maskbits > (if family = afInet then ipv4Bits else ipv6Bits) -
      (if family = afInet then rejectCutoffScaleIpv4 else rejectCutoffScaleIpv6)
  · exact Or.inl (if_pos hsmall)
  · right
    refine ⟨_, ?_, if_neg hsmall⟩
    exact fun item => ⟨rfl, rfl⟩

theorem policySummaryAddItem_partition {summary : Summary} (h : Partition summary)
    {p : AddrPolicy} (hp : Counts p → HasPorts p) :
    ∃ summary', policySummaryAddItem summary p = some summary' ∧ Partition summary' := by
  unfold policySummaryAddItem
  cases htype : p.policyType with
  | accept =>
    simp only
    by_cases hbits : p.maskbits = 0
    · obtain ⟨hmin, hle⟩ := hp (Or.inl ⟨htype, hbits⟩)
      rw [if_pos hbits]
      refine markRange_partition (fun item => ?_) h hmin hle (prtMax_le p)
      split_ifs <;> exact ⟨rfl, rfl⟩
    · rw [if_neg hbits]
      exact ⟨summary, rfl, h⟩
  | reject =>
    simp only
    by_cases hprivate : isPrivate p = true
    · rw [if_pos hprivate]
      exact ⟨summary, rfl, h⟩
    · obtain ⟨hmin, hle⟩ := hp (Or.inr ⟨htype, Bool.eq_false_iff.mpr hprivate⟩)
      rw [if_neg hprivate]
      obtain hcut | ⟨mark, hmark, hcount⟩ := policySummaryReject_cases summary p.maskbits.toNat
        p.prtMin.toNat p.prtMax.toNat (torAddrFamily p.addr)
      · obtain ⟨front, middle, back, hfront, hmiddle, hback, hsplit⟩ :=
          policySummarySplit_spec h hmin hle (prtMax_le p)
        rw [hcut, hsplit]
        exact ⟨_, rfl, hfront.append (hmiddle.append hback)⟩
      · rw [hcount]
        exact markRange_partition hmark h hmin hle (prtMax_le p)

/-! ### Where it breaks -/

def Broken (summary : Summary) : Prop :=
  ∃ item next rest, summary = item :: next :: rest ∧ item.prtMax = maxPort

theorem Broken.not_partition {summary : Summary} (h : Broken summary) : ¬ Partition summary := by
  obtain ⟨item, next, rest, rfl, hmax⟩ := h
  rintro ⟨-, -, hmin, hle, hrest⟩
  have := hrest.le
  omega

theorem Broken.cutItem {summary summary' : Summary} (h : Broken summary) {i newStarts : ℕ}
    (hi : 1 ≤ i) (hcut : cutItem summary i newStarts = some summary') : Broken summary' := by
  obtain ⟨item, next, rest, rfl, hmax⟩ := h
  obtain ⟨i, rfl⟩ := Nat.exists_eq_add_of_le' hi
  simp only [Policies.cutItem, Option.bind_eq_bind, Option.bind_eq_some_iff,
    Option.some.injEq] at hcut
  obtain ⟨old, -, parts, -, rfl⟩ := hcut
  cases i with
  | zero => exact ⟨item, _, _, rfl, hmax⟩
  | succ i => exact ⟨item, _, _, rfl, hmax⟩

theorem le_of_skipItems {summary : Summary} {port i j : ℕ}
    (h : skipItems summary port i = some j) : i ≤ j := by
  induction i using skipItems.induct summary port with
  | case1 i hlt hskip ih =>
    rw [skipItems, dif_pos hlt, if_pos hskip] at h
    exact (Nat.le_succ i).trans (ih h)
  | case2 i hlt hskip =>
    rw [skipItems, dif_pos hlt, if_neg hskip] at h
    exact (Option.some.inj h).le
  | case3 i hge =>
    rw [skipItems, dif_neg hge] at h
    cases h

theorem Broken.splitEnd {summary summary' : Summary} (h : Broken summary) {i prtMax : ℕ}
    (hi : 1 ≤ i) (hsplit : splitEnd summary i prtMax = some summary') : Broken summary' := by
  simp only [Policies.splitEnd, Option.bind_eq_bind, Option.bind_eq_some_iff] at hsplit
  obtain ⟨j, hj, item, -, hcut⟩ := hsplit
  have hij := le_of_skipItems hj
  by_cases hend : item.prtMax = prtMax
  · rw [if_neg (not_not.mpr hend)] at hcut
    exact Option.some.inj hcut ▸ h
  · rw [if_pos hend] at hcut
    exact h.cutItem (hi.trans hij) hcut

theorem Broken.markItems {mark : PolicySummaryItem → PolicySummaryItem} {prtMax : ℕ}
    {summary : Summary} (h : Broken summary) {i : ℕ} (hi : 1 ≤ i) :
    Broken (markItems mark prtMax summary i).1 := by
  induction summary, i using markItems.induct mark prtMax with
  | case1 summary i hlt hle ih =>
    rw [Policies.markItems, dif_pos hlt, if_pos hle]
    obtain ⟨item, next, rest, rfl, hmax⟩ := h
    obtain ⟨i, rfl⟩ := Nat.exists_eq_add_of_le' hi
    refine ih ?_ (by omega)
    cases i with
    | zero => exact ⟨item, _, _, rfl, hmax⟩
    | succ i => exact ⟨item, _, _, rfl, hmax⟩
  | case2 summary i hlt hgt =>
    rw [Policies.markItems, dif_pos hlt, if_neg hgt]
    exact h
  | case3 summary i hge =>
    rw [Policies.markItems, dif_neg hge]
    exact h

theorem splitStart_zero {summary : Summary} (h : Partition summary) :
    ∃ summary', splitStart summary 0 = some (summary', 1) ∧ Broken summary' := by
  cases summary with
  | nil => cases h
  | cons item rest =>
    obtain ⟨hmin, hle, hrest⟩ := h
    have hlen : 0 < (item :: rest).length := Nat.succ_pos _
    have hskip : skipItems (item :: rest) 0 0 = some 0 := by
      rw [skipItems, dif_pos hlen, if_neg (Nat.not_lt_zero _)]
    have hu16 : u16 (((0 : ℕ) : ℤ) - 1) = maxPort := rfl
    have hport : item.prtMin ≤ maxPort := by
      have := hrest.le
      omega
    have hsplit : policySummaryItemSplit item 0 =
        some ({ item with prtMax := maxPort }, { item with prtMin := 0 }) := by
      simp only [policySummaryItemSplit, hu16]
      exact if_pos ⟨hport, Nat.zero_le _⟩
    have hne : item.prtMin ≠ 0 := by omega
    refine ⟨{ item with prtMax := maxPort } :: { item with prtMin := 0 } :: rest, ?_,
      ⟨_, _, _, rfl, rfl⟩⟩
    simp [splitStart, hskip, cutItem, hsplit, hne]

theorem splitEnd_backwards {prtMin prtMax : ℕ} {rest : Summary}
    (h : Run prtMin (maxPort + 1) rest) (hlt : prtMax < prtMin) (hport : prtMin ≤ maxPort)
    (front : Summary) : splitEnd (front ++ rest) front.length prtMax = none := by
  cases rest with
  | nil =>
    obtain rfl : prtMin = maxPort + 1 := h
    omega
  | cons item rest =>
    obtain ⟨rfl, hle, hrest⟩ := h
    have hlen : front.length < (front ++ item :: rest).length := by simp
    have hget : (front ++ item :: rest)[front.length] = item := by simp
    have hskip : skipItems (front ++ item :: rest) prtMax front.length = some front.length := by
      rw [skipItems, dif_pos hlen, hget, if_neg (by omega)]
    have hu16 : u16 ((prtMax : ℤ) + 1) = prtMax + 1 := u16_eq (by omega) (by omega)
    have hback : u16 (((prtMax + 1 : ℕ) : ℤ) - 1) = prtMax := u16_eq (by omega) (by omega)
    -- the cut is before the item, whose front part would end before it begins
    have hsplit : policySummaryItemSplit item (prtMax + 1) = none := by
      simp only [policySummaryItemSplit, hback]
      exact if_neg (by omega)
    have hne : item.prtMax ≠ prtMax := by omega
    simp [splitEnd, hskip, hne, hu16, cutItem, hsplit]

theorem policySummarySplit_fails {summary summary' : Summary} (h : Partition summary)
    {prtMin prtMax i : ℕ} (hport : prtMin ≤ maxPort) (hbad : ¬ (1 ≤ prtMin ∧ prtMin ≤ prtMax))
    (hsplit : policySummarySplit summary prtMin prtMax = some (summary', i)) :
    Broken summary' ∧ 1 ≤ i := by
  by_cases hzero : prtMin = 0
  · -- the cut at 0 is made, and no later step repairs it
    subst hzero
    obtain ⟨cut, hstart, hbroken⟩ := splitStart_zero h
    simp only [policySummarySplit, hstart, Option.bind_eq_bind, Option.bind_some,
      Option.bind_eq_some_iff, Option.some.injEq, Prod.mk.injEq] at hsplit
    obtain ⟨_, hend, rfl, rfl⟩ := hsplit
    exact ⟨hbroken.splitEnd (le_refl 1) hend, le_refl 1⟩
  · obtain ⟨front, rest, -, hrest, hstart⟩ := splitStart_spec h (Nat.pos_of_ne_zero hzero) hport
    have hend := splitEnd_backwards hrest (by omega : prtMax < prtMin) hport front
    simp [policySummarySplit, hstart, hend] at hsplit

theorem markRange_fails {mark : PolicySummaryItem → PolicySummaryItem} {summary summary' : Summary}
    (h : Partition summary) {prtMin prtMax : ℕ} (hport : prtMin ≤ maxPort)
    (hbad : ¬ (1 ≤ prtMin ∧ prtMin ≤ prtMax))
    (hmark : markRange mark summary prtMin prtMax = some summary') : ¬ Partition summary' := by
  simp only [markRange, Option.bind_eq_bind, Option.bind_eq_some_iff] at hmark
  obtain ⟨⟨cut, i⟩, hsplit, hend⟩ := hmark
  obtain ⟨hbroken, hi⟩ := policySummarySplit_fails h hport hbad hsplit
  split_ifs at hend
  exact Option.some.inj hend ▸ (hbroken.markItems hi).not_partition

theorem policySummaryAddItem_fails {summary summary' : Summary} (h : Partition summary)
    {p : AddrPolicy} (hcounts : Counts p) (hbad : ¬ HasPorts p)
    (hadd : policySummaryAddItem summary p = some summary') : ¬ Partition summary' := by
  have hport : p.prtMin.toNat ≤ maxPort := Nat.le_of_lt_succ p.prtMin.toNat_lt
  obtain ⟨htype, hbits⟩ | ⟨htype, hprivate⟩ := hcounts
  · simp only [policySummaryAddItem, htype, hbits, if_true] at hadd
    exact markRange_fails h hport hbad hadd
  · simp only [policySummaryAddItem, htype, hprivate, Bool.false_eq_true, if_false] at hadd
    obtain hcut | ⟨mark, -, hcount⟩ := policySummaryReject_cases summary p.maskbits.toNat
      p.prtMin.toNat p.prtMax.toNat (torAddrFamily p.addr)
    · rw [hcut, Option.map_eq_some_iff] at hadd
      obtain ⟨⟨cut, i⟩, hsplit, rfl⟩ := hadd
      exact (policySummarySplit_fails h hport hbad hsplit).1.not_partition
    · rw [hcount] at hadd
      exact markRange_fails h hport hbad hadd

theorem foldlM_partition {entries : List AddrPolicy} (hports : ∀ p ∈ entries, Counts p → HasPorts p)
    {summary : Summary} (h : Partition summary) :
    ∃ summary', entries.foldlM policySummaryAddItem summary = some summary' ∧
      Partition summary' := by
  induction entries generalizing summary with
  | nil => exact ⟨summary, rfl, h⟩
  | cons p entries ih =>
    obtain ⟨hp, hrest⟩ := List.forall_mem_cons.mp hports
    obtain ⟨next, hadd, hnext⟩ := policySummaryAddItem_partition h hp
    rw [List.foldlM_cons, hadd]
    exact ih hrest hnext

theorem summaryOf_partition {policy : List AddrPolicy} {family : ℕ}
    (hports : ∀ p ∈ policy, torAddrFamily p.addr = family → Counts p → HasPorts p) :
    ∃ summary, summaryOf policy family = some summary ∧ Partition summary := by
  refine foldlM_partition (fun p hp => ?_) partition_create
  obtain ⟨hmem, hfamily⟩ := List.mem_filter.mp hp
  exact hports p hmem (of_decide_eq_true hfamily)

theorem summaryOf_concat (policy : List AddrPolicy) {p : AddrPolicy} {family : ℕ}
    (hfamily : torAddrFamily p.addr = family) :
    summaryOf (policy ++ [p]) family =
      (summaryOf policy family).bind fun summary => policySummaryAddItem summary p := by
  have hfilter : [p].filter (fun p => torAddrFamily p.addr = family) = [p] := by simp [hfamily]
  rw [summaryOf, List.filter_append, hfilter, List.foldlM_append]
  simp [summaryOf]

theorem partition_iff {policy : List AddrPolicy} {family : ℕ} :
    (∀ k, ∃ summary, summaryOf (policy.take k) family = some summary ∧ Partition summary) ↔
      ∀ p ∈ policy, torAddrFamily p.addr = family → Counts p → HasPorts p := by
  constructor
  · intro h p hp hfamily hcounts
    by_contra hbad
    obtain ⟨front, back, rfl⟩ := List.append_of_mem hp
    obtain ⟨before, hbefore, hpartition⟩ := h front.length
    obtain ⟨after, hafter, hpartition'⟩ := h (front.length + 1)
    have htake : (front ++ p :: back).take (front.length + 1) = front ++ [p] := by
      simp [List.take_append]
    rw [List.take_left] at hbefore
    rw [htake, summaryOf_concat front hfamily, hbefore, Option.bind_some] at hafter
    exact policySummaryAddItem_fails hpartition hcounts hbad hafter hpartition'
  · intro hports k
    exact summaryOf_partition fun p hp => hports p (List.mem_of_mem_take hp)

end Policies
