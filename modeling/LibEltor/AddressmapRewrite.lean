/-
Rewriting an address by the client's address map (`addressmap_rewrite`).

Each of at most 16 turns looks for a mapping of the address itself, then for a mapping `*.x` of a
domain it is in, and rewrites the address if the flags permit the mapping.  Where the mapping goes
from `*.x` to `*.y`, the address is cut before it is known whether the mapping may be used.
-/
import Mathlib
import LibEltor.Addressmap

open Bytes

namespace Addressmap

/-! ### The code -/

inductive AddressFamily
  | inet
  | inet6
  deriving DecidableEq

structure AmrFlags where
  useIpv4Dns : Bool
  useIpv6Dns : Bool
  useMapaddress : Bool
  useAutomap : Bool
  useTrackexit : Bool
  deriving DecidableEq

/-- `strlcpy(dst, src, siz)`: what is in `dst` afterwards. -/
def strlcpy (dst src : Bytes) (siz : ℕ) : Bytes := if siz = 0 then dst else src.take (siz - 1)

/-- `strlcat(dst, src, siz)`: what is in `dst` afterwards. -/
def strlcat (dst src : Bytes) (siz : ℕ) : Bytes :=
  if siz ≤ dst.length then dst else (dst ++ src).take (siz - 1)

/-- The walk of `cp` over an address, of which it has passed `before`. -/
def matchSuperdomainsFrom (m : State) (before : Bytes) : Bytes → Option (Bytes × AddressmapEntry)
  | [] => none
  | c :: cp =>
    if c = 46 then
      match m.addressmap (cp.map torTolower) with
      | some val =>
        if val.srcWildcard then some (before, val) else matchSuperdomainsFrom m (before ++ [c]) cp
      | none => matchSuperdomainsFrom m (before ++ [c]) cp
    else matchSuperdomainsFrom m (before ++ [c]) cp

def addressmapMatchSuperdomains (m : State) (address : Bytes) : Bytes × Option AddressmapEntry :=
  match matchSuperdomainsFrom m [] address with
  | none => (address, none)
  | some (before, val) => (if val.dstWildcard then before else address, some val)

variable (torAddrParse : Bytes → Option AddressFamily)

/-- The flags do not tell us not to use a mapping to `newAddress`. -/
def permitted (flags : AmrFlags) (newAddress : Bytes) : EntrySource → Bool
  | .dns =>
    match torAddrParse newAddress with
    | some .inet => flags.useIpv4Dns
    | some .inet6 => flags.useIpv6Dns
    | none => true
  | .controller => flags.useMapaddress
  | .torrc => flags.useMapaddress
  | .automap => flags.useAutomap
  | .trackexit => flags.useTrackexit

def exactMatch (m : State) (address : Bytes) : Option (AddressmapEntry × Bytes) :=
  (m.addressmap address).bind fun ent => ent.newAddress.map fun new => (ent, new)

inductive Turn
  | done (address : Bytes)
  | rewritten (address : Bytes) (ent : AddressmapEntry)

def rewriteTurn (m : State) (maxlen : ℕ) (flags : AmrFlags) (address : Bytes) : Turn :=
  match exactMatch m address with
  | some (ent, new) =>
    if ent.srcWildcard && !ent.dstWildcard && sameCase address new then .done address
    else if permitted torAddrParse flags new ent.source then
      .rewritten (strlcpy address new maxlen) ent
    else .done address
  | none =>
    match addressmapMatchSuperdomains m address with
    | (address, none) => .done address
    | (address, some ent) =>
      match ent.newAddress with
      | none => .done address
      | some new =>
        if permitted torAddrParse flags new ent.source then
          if ent.dstWildcard then
            .rewritten (strlcat (strlcat address (ascii ".") maxlen) new maxlen) ent
          else .rewritten (strlcpy address new maxlen) ent
        else .done address

/-- The variables of the loop.  No `exitSource` is `ADDRMAPSRC_NONE`. -/
structure Rewriting where
  address : Bytes
  rewrites : ℕ
  expires : ℕ
  exitSource : Option EntrySource

/-- What is done with the entry that was used, once the address is rewritten. -/
def Rewriting.note (addrOrig address : Bytes) (ent : AddressmapEntry) (acc : Rewriting) :
    Rewriting where
  address := address
  rewrites := acc.rewrites + 1
  expires := if 1 < ent.expires ∧ ent.expires < acc.expires then ent.expires else acc.expires
  exitSource :=
    if endsWith (ascii ".exit") address ∧ ¬ endsWith (ascii ".exit") addrOrig ∧
      acc.exitSource = none then some ent.source else acc.exitSource

def rewriteLoop (m : State) (maxlen : ℕ) (flags : AmrFlags) (addrOrig : Bytes) :
    ℕ → Rewriting → Rewriting
  | 0, acc => acc
  | turns + 1, acc =>
    match rewriteTurn torAddrParse m maxlen flags acc.address with
    | .done address => { acc with address := address }
    | .rewritten address ent =>
      rewriteLoop m maxlen flags addrOrig turns (acc.note addrOrig address ent)

/-- What `addressmap_rewrite` leaves in its variables; it returns `rewrites > 0`. -/
def addressmapRewrite (m : State) (maxlen : ℕ) (flags : AmrFlags) (address : Bytes) : Rewriting :=
  rewriteLoop torAddrParse m maxlen flags address 16
    { address := address, rewrites := 0, expires := timeMax, exitSource := none }

def Rewriting.returned (result : Rewriting) : Bool := decide (0 < result.rewrites)

/-- The mapping of some `*.suffix` matches the address after `before`. -/
def WildcardMatch (m : State) (address before : Bytes) (ent : AddressmapEntry) : Prop :=
  ∃ suffix, address = before ++ 46 :: suffix ∧ m.addressmap (suffix.map torTolower) = some ent ∧
    ent.srcWildcard = true

/-- The mapping of the longest such suffix, where the address itself is not mapped. -/
structure SuperdomainMatch (m : State) (address before : Bytes) (ent : AddressmapEntry) : Prop where
  unmapped : exactMatch m address = none
  wildcard : WildcardMatch m address before ent
  longest : ∀ before' ent', WildcardMatch m address before' ent' → before.length ≤ before'.length

/-- One rewrite that the flags permit for the source of the mapping it uses. -/
inductive Rewrites (m : State) (maxlen : ℕ) (flags : AmrFlags) (address : Bytes) : Bytes → Prop
  | exact {ent : AddressmapEntry} {new : Bytes} (hmapped : m.addressmap address = some ent)
      (hnew : ent.newAddress = some new)
      (hself : ¬ (ent.srcWildcard = true ∧ ent.dstWildcard = false ∧ sameCase address new = true))
      (hpermitted : permitted torAddrParse flags new ent.source = true) :
      Rewrites m maxlen flags address (strlcpy address new maxlen)
  | replaced {before : Bytes} {ent : AddressmapEntry} {new : Bytes}
      (hmatch : SuperdomainMatch m address before ent) (hnew : ent.newAddress = some new)
      (hdst : ent.dstWildcard = false)
      (hpermitted : permitted torAddrParse flags new ent.source = true) :
      Rewrites m maxlen flags address (strlcpy address new maxlen)
  | appended {before : Bytes} {ent : AddressmapEntry} {new : Bytes}
      (hmatch : SuperdomainMatch m address before ent) (hnew : ent.newAddress = some new)
      (hdst : ent.dstWildcard = true)
      (hpermitted : permitted torAddrParse flags new ent.source = true) :
      Rewrites m maxlen flags address
        (strlcat (strlcat before (ascii ".") maxlen) new maxlen)

/-- The address matches a mapping from `*.x` to `*.y` that has no target or is not permitted. -/
def CutShort (m : State) (flags : AmrFlags) (address : Bytes) : Prop :=
  ∃ before ent, SuperdomainMatch m address before ent ∧ ent.dstWildcard = true ∧
    ∀ new, ent.newAddress = some new → permitted torAddrParse flags new ent.source = false

/-- `n` rewrites, one after the other. -/
inductive RewrittenIn (m : State) (maxlen : ℕ) (flags : AmrFlags) (start : Bytes) :
    ℕ → Bytes → Prop
  | start : RewrittenIn m maxlen flags start 0 start
  | next {n : ℕ} {address address' : Bytes} : RewrittenIn m maxlen flags start n address →
      Rewrites torAddrParse m maxlen flags address address' →
      RewrittenIn m maxlen flags start (n + 1) address'

/-- The result is that of at most 16 permitted rewrites, which go on until there is no other. -/
structure Faithful (m : State) (maxlen : ℕ) (flags : AmrFlags) (address : Bytes)
    (result : Rewriting) : Prop where
  atMost : result.rewrites ≤ 16
  rewritten : RewrittenIn torAddrParse m maxlen flags address result.rewrites result.address
  returned : result.returned = true ↔ 0 < result.rewrites
  unchanged : result.returned = false → result.address = address
  final : result.rewrites < 16 →
    ∀ next, ¬ Rewrites torAddrParse m maxlen flags result.address next

/-! ### A turn -/

variable {torAddrParse} {m : State} {maxlen : ℕ} {flags : AmrFlags} {address : Bytes}

theorem WildcardMatch.cons {c : UInt8} {before cp : Bytes} {ent : AddressmapEntry}
    (h : WildcardMatch m cp before ent) : WildcardMatch m (c :: cp) (c :: before) ent := by
  obtain ⟨suffix, rfl, hmapped, hsrc⟩ := h
  exact ⟨suffix, rfl, hmapped, hsrc⟩

theorem wildcardMatch_cons {c : UInt8} {before cp : Bytes} {ent : AddressmapEntry} :
    WildcardMatch m (c :: cp) before ent ↔
      (before = [] ∧ c = 46 ∧ m.addressmap (cp.map torTolower) = some ent ∧
        ent.srcWildcard = true) ∨
      ∃ before', before = c :: before' ∧ WildcardMatch m cp before' ent := by
  constructor
  · rintro ⟨suffix, heq, hmapped, hsrc⟩
    cases before with
    | nil =>
      obtain ⟨rfl, rfl⟩ := List.cons.inj heq
      exact .inl ⟨rfl, rfl, hmapped, hsrc⟩
    | cons b before =>
      obtain ⟨rfl, rfl⟩ := List.cons.inj heq
      exact .inr ⟨before, rfl, suffix, rfl, hmapped, hsrc⟩
  · rintro (⟨rfl, rfl, hmapped, hsrc⟩ | ⟨before, rfl, h⟩)
    · exact ⟨cp, rfl, hmapped, hsrc⟩
    · exact h.cons

theorem matchSuperdomainsFrom_spec (passed cp : Bytes) :
    match matchSuperdomainsFrom m passed cp with
    | none => ∀ before ent, ¬ WildcardMatch m cp before ent
    | some (found, val) => ∃ before, found = passed ++ before ∧ WildcardMatch m cp before val ∧
        ∀ before' ent', WildcardMatch m cp before' ent' → before.length ≤ before'.length := by
  induction cp generalizing passed with
  | nil =>
    rintro before ent ⟨suffix, heq, -⟩
    exact absurd heq (by simp)
  | cons c cp ih =>
    -- where there is no match at `c`, the walk goes on and so do the matches
    have hskip : (∀ ent, c = 46 → m.addressmap (cp.map torTolower) = some ent →
          ent.srcWildcard = false) →
        match matchSuperdomainsFrom m (passed ++ [c]) cp with
        | none => ∀ before ent, ¬ WildcardMatch m (c :: cp) before ent
        | some (found, val) => ∃ before, found = passed ++ before ∧
            WildcardMatch m (c :: cp) before val ∧
            ∀ before' ent', WildcardMatch m (c :: cp) before' ent' →
              before.length ≤ before'.length := by
      intro hnot
      have hback : ∀ before ent, WildcardMatch m (c :: cp) before ent →
          ∃ before', before = c :: before' ∧ WildcardMatch m cp before' ent := by
        intro before ent h
        obtain ⟨-, hdot, hmapped, hsrc⟩ | h := wildcardMatch_cons.mp h
        · rw [hnot ent hdot hmapped] at hsrc
          cases hsrc
        · exact h
      have hrest := ih (passed ++ [c])
      cases hwalk : matchSuperdomainsFrom m (passed ++ [c]) cp with
      | none =>
        rw [hwalk] at hrest
        intro before ent h
        obtain ⟨before', -, h'⟩ := hback before ent h
        exact hrest before' ent h'
      | some found =>
        rw [hwalk] at hrest
        obtain ⟨before, hfound, hmatch, hlongest⟩ := hrest
        refine ⟨c :: before, by simp [hfound], hmatch.cons, fun before' ent' h => ?_⟩
        obtain ⟨before', rfl, h'⟩ := hback before' ent' h
        simpa using hlongest before' ent' h'
    unfold matchSuperdomainsFrom
    by_cases hdot : c = 46
    · rw [if_pos hdot]
      cases hval : m.addressmap (cp.map torTolower) with
      | none => exact hskip fun ent _ hmapped => by simp [hval] at hmapped
      | some val =>
        by_cases hsrc : val.srcWildcard = true
        · simp only [hsrc, if_true]
          exact ⟨[], by simp, wildcardMatch_cons.mpr (.inl ⟨rfl, hdot, hval, hsrc⟩),
            fun before' ent' _ => Nat.zero_le _⟩
        · simp only [hsrc]
          exact hskip fun ent _ hmapped => by
            rw [hval] at hmapped
            rw [← Option.some.inj hmapped]
            simpa using hsrc
    · rw [if_neg hdot]
      exact hskip fun ent h => absurd h hdot

theorem addressmapMatchSuperdomains_none (m : State) (address : Bytes)
    (h : (addressmapMatchSuperdomains m address).2 = none) :
    (addressmapMatchSuperdomains m address).1 = address ∧
      ∀ before ent, ¬ SuperdomainMatch m address before ent := by
  have hspec := matchSuperdomainsFrom_spec (m := m) [] address
  unfold addressmapMatchSuperdomains at h ⊢
  cases hwalk : matchSuperdomainsFrom m [] address with
  | none =>
    rw [hwalk] at hspec
    exact ⟨rfl, fun before ent hmatch => hspec before ent hmatch.wildcard⟩
  | some found => simp [hwalk] at h

theorem addressmapMatchSuperdomains_some (ent : AddressmapEntry)
    (hunmapped : exactMatch m address = none)
    (h : (addressmapMatchSuperdomains m address).2 = some ent) :
    ∃ before, SuperdomainMatch m address before ent ∧
      (addressmapMatchSuperdomains m address).1 = (if ent.dstWildcard then before else address) := by
  have hspec := matchSuperdomainsFrom_spec (m := m) [] address
  unfold addressmapMatchSuperdomains at h ⊢
  cases hwalk : matchSuperdomainsFrom m [] address with
  | none => simp [hwalk] at h
  | some found =>
    rw [hwalk] at hspec h
    obtain rfl : found.2 = ent := Option.some.inj h
    obtain ⟨before, hfound, hmatch, hlongest⟩ := hspec
    rw [List.nil_append] at hfound
    exact ⟨found.1, ⟨hunmapped, hfound ▸ hmatch,
      fun before' ent' h' => hfound ▸ hlongest before' ent' h'⟩, rfl⟩

theorem SuperdomainMatch.unique {before before' : Bytes} {ent ent' : AddressmapEntry}
    (h : SuperdomainMatch m address before ent) (h' : SuperdomainMatch m address before' ent') :
    before = before' ∧ ent = ent' := by
  have hlen : before.length = before'.length :=
    Nat.le_antisymm (h.longest _ _ h'.wildcard) (h'.longest _ _ h.wildcard)
  obtain ⟨suffix, heq, hmapped, -⟩ := h.wildcard
  obtain ⟨suffix', heq', hmapped', -⟩ := h'.wildcard
  obtain ⟨rfl, hsuffix⟩ := List.append_inj (heq.symm.trans heq') hlen
  obtain ⟨-, rfl⟩ := List.cons.inj hsuffix
  rw [hmapped] at hmapped'
  exact ⟨rfl, Option.some.inj hmapped'⟩

theorem exactMatch_eq_some {ent : AddressmapEntry} {new : Bytes} :
    exactMatch m address = some (ent, new) ↔
      m.addressmap address = some ent ∧ ent.newAddress = some new := by
  simp [exactMatch, Option.bind_eq_some_iff]

theorem rewriteTurn_rewritten {next : Bytes} {ent : AddressmapEntry}
    (h : rewriteTurn torAddrParse m maxlen flags address = .rewritten next ent) :
    Rewrites torAddrParse m maxlen flags address next ∧
      ¬ CutShort torAddrParse m flags address := by
  unfold rewriteTurn at h
  cases hexact : exactMatch m address with
  | some found =>
    obtain ⟨ent, new⟩ := found
    obtain ⟨hmapped, hnew⟩ := exactMatch_eq_some.mp hexact
    simp only [hexact] at h
    split_ifs at h with hself hpermitted
    obtain ⟨rfl, rfl⟩ := Turn.rewritten.inj h
    refine ⟨.exact hmapped hnew (fun hboth => hself ?_) hpermitted, ?_⟩
    · simp [hboth.1, hboth.2.1, hboth.2.2]
    · rintro ⟨before, ent', hmatch, -⟩
      rw [hmatch.unmapped] at hexact
      cases hexact
  | none =>
    simp only [hexact] at h
    cases hsuper : addressmapMatchSuperdomains m address with
    | mk buffer val =>
      cases val with
      | none => simp [hsuper] at h
      | some val =>
        obtain ⟨before, hmatch, hbuffer⟩ :=
          addressmapMatchSuperdomains_some val hexact (by rw [hsuper])
        rw [hsuper] at hbuffer h
        dsimp only at hbuffer h
        cases hnew : val.newAddress with
        | none => simp [hnew] at h
        | some new =>
          simp only [hnew] at h
          split_ifs at h with hpermitted hdst
          all_goals obtain ⟨rfl, rfl⟩ := Turn.rewritten.inj h
          all_goals refine ⟨?_, ?_⟩
          · rw [hbuffer, if_pos hdst]
            exact .appended hmatch hnew hdst hpermitted
          · rintro ⟨before', ent', hmatch', -, hrefused⟩
            obtain ⟨-, rfl⟩ := hmatch.unique hmatch'
            rw [hrefused new hnew] at hpermitted
            cases hpermitted
          · rw [hbuffer, if_neg hdst]
            exact .replaced hmatch hnew (by simpa using hdst) hpermitted
          · rintro ⟨before', ent', hmatch', hdst', -⟩
            obtain ⟨-, rfl⟩ := hmatch.unique hmatch'
            exact hdst hdst'

theorem rewriteTurn_done {buffer : Bytes}
    (h : rewriteTurn torAddrParse m maxlen flags address = .done buffer) :
    (∀ next, ¬ Rewrites torAddrParse m maxlen flags address next) ∧
      (buffer = address ↔ ¬ CutShort torAddrParse m flags address) := by
  unfold rewriteTurn at h
  cases hexact : exactMatch m address with
  | some found =>
    obtain ⟨ent, new⟩ := found
    obtain ⟨hmapped, hnew⟩ := exactMatch_eq_some.mp hexact
    simp only [hexact] at h
    have hnone : ∀ before ent', ¬ SuperdomainMatch m address before ent' := fun before ent' hm => by
      rw [hm.unmapped] at hexact
      cases hexact
    have hnotCut : ¬ CutShort torAddrParse m flags address := fun ⟨before, ent', hm, _⟩ =>
      hnone before ent' hm
    split_ifs at h with hself hpermitted
    all_goals obtain rfl := Turn.done.inj h
    all_goals refine ⟨?_, iff_of_true rfl hnotCut⟩
    · rintro next (⟨hmapped', hnew', hnotSelf, -⟩ | ⟨hm, -⟩ | ⟨hm, -⟩)
      · rw [hmapped] at hmapped'
        obtain rfl := Option.some.inj hmapped'
        rw [hnew] at hnew'
        obtain rfl := Option.some.inj hnew'
        simp only [Bool.and_eq_true, Bool.not_eq_eq_eq_not, Bool.not_true] at hself
        exact hnotSelf ⟨hself.1.1, hself.1.2, hself.2⟩
      · exact hnone _ _ hm
      · exact hnone _ _ hm
    · rintro next (⟨hmapped', hnew', -, hpermitted'⟩ | ⟨hm, -⟩ | ⟨hm, -⟩)
      · rw [hmapped] at hmapped'
        obtain rfl := Option.some.inj hmapped'
        rw [hnew] at hnew'
        obtain rfl := Option.some.inj hnew'
        exact hpermitted hpermitted'
      · exact hnone _ _ hm
      · exact hnone _ _ hm
  | none =>
    have hunmapped : ∀ {ent new}, m.addressmap address = some ent → ent.newAddress ≠ some new :=
      fun {ent new} hmapped hnew => by
        rw [exactMatch_eq_some.mpr ⟨hmapped, hnew⟩] at hexact
        cases hexact
    simp only [hexact] at h
    cases hsuper : addressmapMatchSuperdomains m address with
    | mk found val =>
      rw [hsuper] at h
      cases val with
      | none =>
        obtain ⟨hfound, hnone⟩ := addressmapMatchSuperdomains_none m address
          (by rw [hsuper])
        rw [hsuper] at hfound
        obtain rfl := Turn.done.inj h
        refine ⟨?_, iff_of_true hfound fun ⟨before, ent, hm, _⟩ => hnone before ent hm⟩
        rintro next (⟨hmapped, hnew, -⟩ | ⟨hm, -⟩ | ⟨hm, -⟩)
        · exact hunmapped hmapped hnew
        · exact hnone _ _ hm
        · exact hnone _ _ hm
      | some val =>
        obtain ⟨before, hmatch, hbuffer⟩ :=
          addressmapMatchSuperdomains_some val hexact (by rw [hsuper])
        rw [hsuper] at hbuffer
        dsimp only at hbuffer h
        -- either way the mapping was refused
        have hrefused : buffer = found ∧ ∀ new, val.newAddress = some new →
            permitted torAddrParse flags new val.source = false := by
          cases hnew : val.newAddress with
          | none =>
            simp only [hnew] at h
            exact ⟨(Turn.done.inj h).symm, fun new hnew' => by cases hnew'⟩
          | some new =>
            simp only [hnew] at h
            split_ifs at h with hpermitted
            refine ⟨(Turn.done.inj h).symm, fun new' hnew' => ?_⟩
            obtain rfl := Option.some.inj hnew'
            simpa using hpermitted
        obtain ⟨rfl, hrefused⟩ := hrefused
        constructor
        · rintro next (⟨hmapped, hnew, -⟩ | ⟨hm, hnew, -, hpermitted⟩ | ⟨hm, hnew, -, hpermitted⟩)
          · exact hunmapped hmapped hnew
          all_goals
            obtain ⟨-, rfl⟩ := hmatch.unique hm
            rw [hrefused _ hnew] at hpermitted
            cases hpermitted
        · rw [hbuffer]
          split_ifs with hdst
          · refine iff_of_false (fun heq => ?_) (fun hnot => hnot ⟨before, val, hmatch, hdst, hrefused⟩)
            obtain ⟨suffix, hsplit, -⟩ := hmatch.wildcard
            have hlen := congrArg List.length (heq.trans hsplit)
            simp only [List.length_append, List.length_cons] at hlen
            omega
          · refine iff_of_true rfl ?_
            rintro ⟨before', ent', hmatch', hdst', -⟩
            obtain ⟨-, rfl⟩ := hmatch.unique hmatch'
            exact hdst hdst'

theorem SuperdomainMatch.not_mapped {before : Bytes} {ent ent' : AddressmapEntry} {new : Bytes}
    (h : SuperdomainMatch m address before ent') (hmapped : m.addressmap address = some ent) :
    ent.newAddress ≠ some new := by
  intro hnew
  have hexact := h.unmapped
  rw [exactMatch_eq_some.mpr ⟨hmapped, hnew⟩] at hexact
  cases hexact

theorem Rewrites.unique {next next' : Bytes}
    (h : Rewrites torAddrParse m maxlen flags address next)
    (h' : Rewrites torAddrParse m maxlen flags address next') : next = next' := by
  cases h with
  | exact hmapped hnew hself hpermitted =>
    cases h' with
    | exact hmapped' hnew' hself' hpermitted' =>
      rw [hmapped] at hmapped'
      obtain rfl := Option.some.inj hmapped'
      rw [hnew] at hnew'
      rw [Option.some.inj hnew']
    | replaced hmatch => exact absurd hnew (hmatch.not_mapped hmapped)
    | appended hmatch => exact absurd hnew (hmatch.not_mapped hmapped)
  | replaced hmatch hnew hdst hpermitted =>
    cases h' with
    | exact hmapped' hnew' => exact absurd hnew' (hmatch.not_mapped hmapped')
    | replaced hmatch' hnew' =>
      obtain ⟨-, rfl⟩ := hmatch.unique hmatch'
      rw [hnew] at hnew'
      rw [Option.some.inj hnew']
    | appended hmatch' hnew' hdst' =>
      obtain ⟨-, rfl⟩ := hmatch.unique hmatch'
      rw [hdst] at hdst'
      cases hdst'
  | appended hmatch hnew hdst hpermitted =>
    cases h' with
    | exact hmapped' hnew' => exact absurd hnew' (hmatch.not_mapped hmapped')
    | replaced hmatch' hnew' hdst' =>
      obtain ⟨-, rfl⟩ := hmatch.unique hmatch'
      rw [hdst] at hdst'
      cases hdst'
    | appended hmatch' hnew' =>
      obtain ⟨rfl, rfl⟩ := hmatch.unique hmatch'
      rw [hnew] at hnew'
      rw [Option.some.inj hnew']

theorem RewrittenIn.unique {start : Bytes} {n : ℕ} {address address' : Bytes}
    (h : RewrittenIn torAddrParse m maxlen flags start n address)
    (h' : RewrittenIn torAddrParse m maxlen flags start n address') : address = address' := by
  induction h generalizing address' with
  | start =>
    cases h'
    rfl
  | next _ hlast ih =>
    cases h' with
    | next hrun' hlast' =>
      obtain rfl := ih hrun'
      exact hlast.unique hlast'

theorem RewrittenIn.goes_on {start : Bytes} {n k : ℕ} {address : Bytes}
    (h : RewrittenIn torAddrParse m maxlen flags start n address) (hlt : k < n) :
    ∃ mid next, RewrittenIn torAddrParse m maxlen flags start k mid ∧
      Rewrites torAddrParse m maxlen flags mid next := by
  induction h with
  | start => exact absurd hlt (Nat.not_lt_zero k)
  | @next n mid next hrun hlast ih =>
    by_cases heq : k = n
    · subst heq
      exact ⟨mid, next, hrun, hlast⟩
    · exact ih (by omega)

theorem Rewrites.not_cutShort {next : Bytes}
    (h : Rewrites torAddrParse m maxlen flags address next) :
    ¬ CutShort torAddrParse m flags address := by
  cases hturn : rewriteTurn torAddrParse m maxlen flags address with
  | done buffer => exact absurd h ((rewriteTurn_done hturn).1 next)
  | rewritten next' ent => exact (rewriteTurn_rewritten hturn).2

theorem rewriteLoop_spec (torAddrParse : Bytes → Option AddressFamily) (m : State) (maxlen : ℕ)
    (flags : AmrFlags) (start : Bytes) (turns : ℕ) (acc : Rewriting)
    (hacc : RewrittenIn torAddrParse m maxlen flags start acc.rewrites acc.address) :
    ∃ last, RewrittenIn torAddrParse m maxlen flags start
        (rewriteLoop torAddrParse m maxlen flags start turns acc).rewrites last ∧
      (rewriteLoop torAddrParse m maxlen flags start turns acc).rewrites ≤ acc.rewrites + turns ∧
      ((rewriteLoop torAddrParse m maxlen flags start turns acc).rewrites = acc.rewrites + turns →
        (rewriteLoop torAddrParse m maxlen flags start turns acc).address = last) ∧
      ((rewriteLoop torAddrParse m maxlen flags start turns acc).rewrites < acc.rewrites + turns →
        (∀ next, ¬ Rewrites torAddrParse m maxlen flags last next) ∧
        ((rewriteLoop torAddrParse m maxlen flags start turns acc).address = last ↔
          ¬ CutShort torAddrParse m flags last)) := by
  induction turns generalizing acc with
  | zero =>
    exact ⟨acc.address, hacc, le_rfl, fun _ => rfl, fun hlt => absurd hlt (lt_irrefl _)⟩
  | succ turns ih =>
    unfold rewriteLoop
    cases hturn : rewriteTurn torAddrParse m maxlen flags acc.address with
    | done buffer =>
      refine ⟨acc.address, hacc, Nat.le_add_right _ _, fun heq => ?_, fun _ => ?_⟩
      · exact absurd heq (by dsimp only; omega)
      · exact rewriteTurn_done hturn
    | rewritten next ent =>
      have hnext := RewrittenIn.next hacc (rewriteTurn_rewritten hturn).1
      have hrest := ih (acc.note start next ent) hnext
      have hcount : (acc.note start next ent).rewrites + turns = acc.rewrites + (turns + 1) := by
        simp only [Rewriting.note]
        omega
      rwa [hcount] at hrest

/-- A mapping from `*.x` to `*.y` that TORRC made, for a caller that does not use
such mappings. -/
def refusedWildcard : State where
  addressmap := fun address =>
    if address = ascii "x" then
      some { newAddress := some (ascii "y"), expires := 0, source := .torrc, srcWildcard := true
             dstWildcard := true, numResolveFailures := 0 }
    else none
  reversemap := fun _ => none
  freed := fun _ => false
  absentCompared := false

def dnsOnly : AmrFlags where
  useIpv4Dns := true
  useIpv6Dns := true
  useMapaddress := false
  useAutomap := false
  useTrackexit := false

/-- `a.x` is cut to `a`, and the caller is told that nothing was rewritten. -/
theorem refused_address_cut :
    (addressmapRewrite (fun _ => none) refusedWildcard 256 dnsOnly (ascii "a.x")).address =
        ascii "a" ∧
      (addressmapRewrite (fun _ => none) refusedWildcard 256 dnsOnly (ascii "a.x")).returned =
        false ∧
      ¬ Faithful (fun _ => none) refusedWildcard 256 dnsOnly (ascii "a.x")
        (addressmapRewrite (fun _ => none) refusedWildcard 256 dnsOnly (ascii "a.x")) := by
  have haddress : (addressmapRewrite (fun _ => none) refusedWildcard 256 dnsOnly
      (ascii "a.x")).address = ascii "a" := by rfl
  have hreturned : (addressmapRewrite (fun _ => none) refusedWildcard 256 dnsOnly
      (ascii "a.x")).returned = false := by rfl
  refine ⟨haddress, hreturned, fun hfaithful => ?_⟩
  have hsame := hfaithful.unchanged hreturned
  rw [haddress] at hsame
  exact absurd hsame (by decide)

/-- For every map, flags and address the result is that of the permitted rewrites, exactly when
fewer than 16 of them do not lead to an address that is cut short. -/
theorem addressmapRewrite_faithful_iff (torAddrParse : Bytes → Option AddressFamily) (m : State)
    (maxlen : ℕ) (flags : AmrFlags) (address : Bytes) :
    Faithful torAddrParse m maxlen flags address
        (addressmapRewrite torAddrParse m maxlen flags address) ↔
      ∀ n < 16, ∀ reached, RewrittenIn torAddrParse m maxlen flags address n reached →
        ¬ CutShort torAddrParse m flags reached := by
  obtain ⟨last, hlast, hatMost, hall, hstopped⟩ := rewriteLoop_spec torAddrParse m maxlen flags
    address 16
    { address := address, rewrites := 0, expires := timeMax, exitSource := none } .start
  rw [Nat.zero_add] at hatMost hall hstopped
  set result := addressmapRewrite torAddrParse m maxlen flags address with hresult
  change RewrittenIn torAddrParse m maxlen flags address result.rewrites last at hlast
  change result.rewrites ≤ 16 at hatMost
  change result.rewrites = 16 → result.address = last at hall
  change result.rewrites < 16 → (∀ next, ¬ Rewrites torAddrParse m maxlen flags last next) ∧
    (result.address = last ↔ ¬ CutShort torAddrParse m flags last) at hstopped
  constructor
  · intro hfaithful n hn reached hreached hcut
    have hsame : result.address = last := hfaithful.rewritten.unique hlast
    obtain hlt | heq | hgt := Nat.lt_trichotomy n result.rewrites
    · -- the run went on from there
      obtain ⟨mid, next, hmid, hrewrites⟩ := hlast.goes_on hlt
      obtain rfl := hreached.unique hmid
      exact hrewrites.not_cutShort hcut
    · subst heq
      obtain rfl := hreached.unique hlast
      exact (hstopped hn).2.mp hsame hcut
    · -- nothing is reached after the last one
      obtain ⟨mid, next, hmid, hrewrites⟩ := hreached.goes_on hgt
      obtain rfl := hmid.unique hlast
      exact (hstopped (by omega)).1 next hrewrites
  · intro hnever
    have hsame : result.address = last := by
      obtain heq | hlt := Nat.eq_or_lt_of_le hatMost
      · exact hall heq
      · exact (hstopped hlt).2.mpr (hnever _ hlt last hlast)
    refine ⟨hatMost, hsame ▸ hlast, ?_, fun hreturned => ?_, fun hlt => ?_⟩
    · simp [Rewriting.returned]
    · have hzero : result.rewrites = 0 := by simpa [Rewriting.returned] using hreturned
      rw [hzero] at hlast
      rw [hsame]
      exact hlast.unique .start
    · rw [hsame]
      exact (hstopped hlt).1

end Addressmap
