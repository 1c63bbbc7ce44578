/-
The client's address map and its reverse (`feature/client/addressmap.c`).

`addressmap` rewrites addresses; `virtaddress_reversemap` records for a target the virtual
addresses that were handed out for it.  What is removed from the one is to be removed from the
other by `addressmapVirtaddressRemove`, which looks at the target where it should look at the
address that is removed, and compares strings that may not be there.
-/
import Mathlib
import LibEltor.Bytes
import LibEltor.Transition

open Bytes Transition

namespace Addressmap

/-! ### The maps -/

inductive EntrySource
  | controller
  | automap
  | torrc
  | trackexit
  | dns
  deriving DecidableEq

structure AddressmapEntry where
  newAddress : Option Bytes
  expires : ℕ
  source : EntrySource
  srcWildcard : Bool
  dstWildcard : Bool
  numResolveFailures : ℕ

inductive ResolvedType
  | hostname
  | ipv4
  | ipv6
  deriving DecidableEq

structure VirtaddressEntry where
  ipv4Address : Option Bytes
  ipv6Address : Option Bytes
  hostnameAddress : Option Bytes
  deriving DecidableEq

/-- `freed` are the targets whose entry in the reverse map has been freed; `absentCompared` is set
when a string is compared with one that is not there. -/
structure State where
  addressmap : Bytes → Option AddressmapEntry
  reversemap : Bytes → Option VirtaddressEntry
  freed : Bytes → Bool
  absentCompared : Bool

def addressmapInit : State where
  addressmap := fun _ => none
  reversemap := fun _ => none
  freed := fun _ => false
  absentCompared := false

def VirtaddressEntry.addr (ve : VirtaddressEntry) : ResolvedType → Option Bytes
  | .ipv4 => ve.ipv4Address
  | .ipv6 => ve.ipv6Address
  | .hostname => ve.hostnameAddress

def VirtaddressEntry.setAddr (ve : VirtaddressEntry) (type : ResolvedType) (addr : Option Bytes) :
    VirtaddressEntry :=
  match type with
  | .ipv4 => { ve with ipv4Address := addr }
  | .ipv6 => { ve with ipv6Address := addr }
  | .hostname => { ve with hostnameAddress := addr }

def virtaddressEntryNew : VirtaddressEntry := ⟨none, none, none⟩

@[simp] theorem addr_setAddr (ve : VirtaddressEntry) (type : ResolvedType) (a : Option Bytes) :
    (ve.setAddr type a).addr type = a := by
  cases type <;> rfl

theorem addr_setAddr_of_ne (ve : VirtaddressEntry) {type type' : ResolvedType} (a : Option Bytes)
    (h : type' ≠ type) : (ve.setAddr type a).addr type' = ve.addr type' := by
  cases type <;> cases type' <;> first | rfl | exact absurd rfl h

@[simp] theorem addr_new (type : ResolvedType) : virtaddressEntryNew.addr type = none := by
  cases type <;> rfl

def torTolower (c : UInt8) : UInt8 := if 65 ≤ c ∧ c ≤ 90 then c + 32 else c

def sameCase (a b : Bytes) : Bool := a.map torTolower == b.map torTolower

variable (isVirtual : Bytes → Bool)

/-! ### Removing -/

/-- Free a string of an entry if it is `address`. -/
def freeIfSame (address : Bytes) (slot : Option Bytes) : Option Bytes :=
  if slot = some address then none else slot

/-- Remove `address` (which must map to `ent`) from the virtual address map. -/
def addressmapVirtaddressRemove (address : Bytes) (ent : AddressmapEntry) (m : State) : State :=
  match ent.newAddress with
  | none => m
  | some target =>
    if isVirtual target then
      match m.reversemap target with
      | none => m
      | some ve =>
        let absent := ve.ipv4Address.isNone || ve.ipv6Address.isNone || ve.hostnameAddress.isNone
        let ve : VirtaddressEntry :=
          { ipv4Address := freeIfSame address ve.ipv4Address
            ipv6Address := freeIfSame address ve.ipv6Address
            hostnameAddress := freeIfSame address ve.hostnameAddress }
        { m with
          reversemap := Function.update m.reversemap target
            (if ve = virtaddressEntryNew then none else some ve)
          absentCompared := m.absentCompared || absent }
    else m

/-- Remove `address`, which maps to `ent`, from both maps. -/
def addressmapEntRemove (address : Bytes) (ent : AddressmapEntry) (m : State) : State :=
  let m := addressmapVirtaddressRemove isVirtual address ent m
  { m with addressmap := Function.update m.addressmap address none }

/-- One entry of a walk over the address map that removes what it selects. -/
def visitEntry (remove : Bytes → AddressmapEntry → Bool) (m : State) (address : Bytes) : State :=
  match m.addressmap address with
  | none => m
  | some ent => if remove address ent then addressmapEntRemove isVirtual address ent m else m

def removeMappings (remove : Bytes → AddressmapEntry → Bool) (order : List Bytes) (m : State) :
    State :=
  order.foldl (visitEntry isVirtual remove) m

/-- `!strcmpend(s, suffix)` -/
def endsWith (suffix s : Bytes) : Bool := decide (suffix <:+ s)

def isTrackexitTo (exitname : Bytes) (_ : Bytes) (ent : AddressmapEntry) : Bool :=
  decide (ent.source = .trackexit) &&
    (ent.newAddress.map (endsWith ((ascii "." ++ exitname ++ ascii ".exit").map torTolower))).getD false

def clearTrackexithostMappings (exitname : Bytes) : List Bytes → State → State :=
  removeMappings isVirtual (isTrackexitTo exitname)

/-- `allowed` says of an address and its `.exit` target whether the mapping may stay. -/
def isExcludedTrackexit (allowed : Bytes → Bytes → Bool) (address : Bytes) (ent : AddressmapEntry) :
    Bool :=
  match ent.newAddress with
  | none => false
  | some target =>
    endsWith (ascii ".exit") target && decide (ent.source = .trackexit) &&
      decide (6 ≤ target.length) && !allowed address target

def addressmapClearExcludedTrackexithosts (allowed : Bytes → Bytes → Bool) :
    List Bytes → State → State :=
  removeMappings isVirtual (isExcludedTrackexit allowed)

/-- `shouldAutomap` is `addressmap_address_should_automap`. -/
def isInvalidAutomap (clearAll : Bool) (shouldAutomap : Bytes → Bool) (address : Bytes)
    (ent : AddressmapEntry) : Bool :=
  decide (ent.source = .automap) &&
    (clearAll || !shouldAutomap address || !(ent.newAddress.map isVirtual).getD true)

def addressmapClearInvalidAutomaps (clearAll : Bool) (shouldAutomap : Bytes → Bool) :
    List Bytes → State → State :=
  removeMappings isVirtual (isInvalidAutomap isVirtual clearAll shouldAutomap)

def expiresBetween (minExpires maxExpires : ℕ) (_ : Bytes) (ent : AddressmapEntry) : Bool :=
  decide (minExpires ≤ ent.expires) && decide (ent.expires ≤ maxExpires)

def addressmapGetMappings (minExpires maxExpires : ℕ) : List Bytes → State → State :=
  removeMappings isVirtual (expiresBetween minExpires maxExpires)

def timeMax : ℕ := 2 ^ 63 - 1

def addressmapClearConfigured : List Bytes → State → State := addressmapGetMappings isVirtual 0 0

def addressmapClearTransient : List Bytes → State → State :=
  addressmapGetMappings isVirtual 2 timeMax

def addressmapClean (now : ℕ) : List Bytes → State → State := addressmapGetMappings isVirtual 2 now

/-! ### Registering -/

def registered (newAddress : Bytes) (expires : ℕ) (source : EntrySource) (wildcardAddr
    wildcardNewAddr : Bool) : AddressmapEntry where
  newAddress := some newAddress
  expires := if expires = 2 then 1 else expires
  source := source
  srcWildcard := wildcardAddr
  dstWildcard := wildcardNewAddr
  numResolveFailures := 0

/-- The mapping is to be removed: there is no new address, or it is the old one. -/
def unregisters (address : Bytes) (newAddress : Option Bytes) (wildcardAddr wildcardNewAddr : Bool) :
    Bool :=
  match newAddress with
  | none => true
  | some new => sameCase address new && wildcardAddr == wildcardNewAddr

def addressmapRegister (address : Bytes) (newAddress : Option Bytes) (expires : ℕ)
    (source : EntrySource) (wildcardAddr wildcardNewAddr : Bool) (m : State) : State :=
  let ent := m.addressmap address
  if unregisters address newAddress wildcardAddr wildcardNewAddr then
    match ent with
    | none => m
    | some ent => addressmapEntRemove isVirtual address ent m
  else
    match newAddress with
    | none => m
    | some new =>
      let set (m : State) : State :=
        { m with
          addressmap := Function.update m.addressmap address
            (some (registered new expires source wildcardAddr wildcardNewAddr)) }
      match ent with
      | none => set m
      | some ent =>
        match ent.newAddress with
        | none => set m
        | some old =>
          if expires > 1 then m
          else if isVirtual old && expires != 2 then
            set (addressmapVirtaddressRemove isVirtual address ent m)
          else set m

def stillMapped (type : ResolvedType) (newAddress : Bytes) (m : State) : Bool :=
  match ((m.reversemap newAddress).getD virtaddressEntryNew).addr type with
  | none => false
  | some addr =>
    match (m.addressmap addr).bind (·.newAddress) with
    | none => false
    | some old => sameCase newAddress old

/-- `drawn` is what `addressmap_get_virtual_address` found. -/
def addressmapRegisterVirtualAddress (type : ResolvedType) (newAddress : Bytes)
    (drawn : Option Bytes) (m : State) : State :=
  let vent := (m.reversemap newAddress).getD virtaddressEntryNew
  if stillMapped type newAddress m then m
  else
    match drawn with
    | none =>
      match m.reversemap newAddress with
      | none => m
      | some _ => { m with freed := Function.update m.freed newAddress true }
    | some addr =>
      addressmapRegister isVirtual addr (some newAddress) 2 .automap false false
        { m with
          reversemap := Function.update m.reversemap newAddress
            (some (vent.setAddr type (some addr))) }

/-- A resolve that failed is noted in a mapping that may have no address yet. -/
def clientDnsIncrFailures (address : Bytes) (now : ℕ) (m : State) : State :=
  let ent := (m.addressmap address).getD
    { newAddress := none, expires := now + 10800, source := .controller, srcWildcard := false
      dstWildcard := false, numResolveFailures := 0 }
  { m with
    addressmap := Function.update m.addressmap address
      (some { ent with numResolveFailures := min (ent.numResolveFailures + 1) 32767 }) }

/-- `addressmap_have_mapping`, which puts off when the mapping expires. -/
def addressmapHaveMapping (address : Bytes) (updateExpiry now : ℕ) (m : State) : State :=
  match m.addressmap address with
  | none => m
  | some ent =>
    if updateExpiry ≠ 0 ∧ ent.source = .trackexit then
      { m with
        addressmap := Function.update m.addressmap address
          (some { ent with expires := now + updateExpiry }) }
    else m

inductive Action
  | register (address : Bytes) (newAddress : Option Bytes) (expires : ℕ) (source : EntrySource)
      (wildcardAddr wildcardNewAddr : Bool)
  | registerVirtualAddress (type : ResolvedType) (newAddress : Bytes) (drawn : Option Bytes)
  | clearTrackexithostMappings (exitname : Bytes) (order : List Bytes)
  | clearExcludedTrackexithosts (allowed : Bytes → Bytes → Bool) (order : List Bytes)
  | clearInvalidAutomaps (clearAll : Bool) (shouldAutomap : Bytes → Bool) (order : List Bytes)
  | clearConfigured (order : List Bytes)
  | clearTransient (order : List Bytes)
  | clean (now : ℕ) (order : List Bytes)
  | incrFailures (address : Bytes) (now : ℕ)
  | haveMapping (address : Bytes) (updateExpiry now : ℕ)

def apply : Action → State → State
  | .register address newAddress expires source wildcardAddr wildcardNewAddr =>
    addressmapRegister isVirtual address newAddress expires source wildcardAddr wildcardNewAddr
  | .registerVirtualAddress type newAddress drawn =>
    addressmapRegisterVirtualAddress isVirtual type newAddress drawn
  | .clearTrackexithostMappings exitname order =>
    Addressmap.clearTrackexithostMappings isVirtual exitname order
  | .clearExcludedTrackexithosts allowed order =>
    addressmapClearExcludedTrackexithosts isVirtual allowed order
  | .clearInvalidAutomaps clearAll shouldAutomap order =>
    addressmapClearInvalidAutomaps isVirtual clearAll shouldAutomap order
  | .clearConfigured order => addressmapClearConfigured isVirtual order
  | .clearTransient order => addressmapClearTransient isVirtual order
  | .clean now order => addressmapClean isVirtual now order
  | .incrFailures address now => clientDnsIncrFailures address now
  | .haveMapping address updateExpiry now => addressmapHaveMapping address updateExpiry now

def Enumerates (order : List Bytes) (m : State) : Prop :=
  order.Nodup ∧ ∀ address, address ∈ order ↔ (m.addressmap address).isSome

/-- What callers and `addressmap_get_virtual_address` promise. -/
def Possible (m : State) : Action → Prop
  | .register _ _ _ _ wildcardAddr wildcardNewAddr => wildcardNewAddr = true → wildcardAddr = true
  | .registerVirtualAddress type _ drawn =>
    match drawn with
    | none => type ≠ .hostname
    | some addr => isVirtual addr = true ∧ m.addressmap addr = none
  | .clearTrackexithostMappings _ order => Enumerates order m
  | .clearExcludedTrackexithosts _ order => Enumerates order m
  | .clearInvalidAutomaps _ _ order => Enumerates order m
  | .clearConfigured order => Enumerates order m
  | .clearTransient order => Enumerates order m
  | .clean _ order => Enumerates order m
  | _ => True

def addressmapSystem : System State Action where
  init := fun m => m = addressmapInit
  step := fun m a m' => Possible isVirtual m a ∧ m' = apply isVirtual a m

/-! ### The invariant -/

/-- If `[A, B]` is in the reverse map, `B` is a virtual address and `[B, A]` is in the address map. -/
structure Recorded (m : State) : Prop where
  mapped : ∀ target ve, m.reversemap target = some ve → ∀ type addr, ve.addr type = some addr →
    isVirtual addr = true ∧ ∃ ent, m.addressmap addr = some ent ∧ ent.newAddress = some target
  notFreed : ∀ target, m.freed target = false
  present : m.absentCompared = false

def Unrecorded (m : State) (address : Bytes) : Prop :=
  ∀ target ve, m.reversemap target = some ve → ∀ type, ve.addr type ≠ some address

/-- A target that is not virtual does not record the address; the entry of one that is has all of
its strings. -/
def RemovalSafe (m : State) (address : Bytes) (ent : AddressmapEntry) : Prop :=
  ∀ target ve, ent.newAddress = some target → m.reversemap target = some ve →
    if isVirtual target then ∀ type, ve.addr type ≠ none else ∀ type, ve.addr type ≠ some address

def RemovalsSafe (remove : Bytes → AddressmapEntry → Bool) : List Bytes → State → Prop
  | [], _ => True
  | address :: order, m =>
    (∀ ent, m.addressmap address = some ent → remove address ent = true →
      RemovalSafe isVirtual m address ent) ∧
      RemovalsSafe remove order (visitEntry isVirtual remove m address)

/-- What is taken out of the address map is out of the reverse map as well; an address is found, or
its target is new; the address found is not the target. -/
def Safe (m : State) : Action → Prop
  | .register address newAddress expires _ wildcardAddr wildcardNewAddr =>
    ∀ ent, m.addressmap address = some ent →
      if unregisters address newAddress wildcardAddr wildcardNewAddr then
        RemovalSafe isVirtual m address ent
      else
        expires > 1 ∨ RemovalSafe isVirtual m address ent ∨
          (ent.newAddress = newAddress ∧ (newAddress.map isVirtual).getD false = false)
  | .registerVirtualAddress type newAddress drawn =>
    stillMapped type newAddress m = true ∨
      match drawn with
      | none => m.reversemap newAddress = none
      | some addr => sameCase addr newAddress = false
  | .clearTrackexithostMappings exitname order =>
    RemovalsSafe isVirtual (isTrackexitTo exitname) order m
  | .clearExcludedTrackexithosts allowed order =>
    RemovalsSafe isVirtual (isExcludedTrackexit allowed) order m
  | .clearInvalidAutomaps clearAll shouldAutomap order =>
    RemovalsSafe isVirtual (isInvalidAutomap isVirtual clearAll shouldAutomap) order m
  | .clearConfigured order => RemovalsSafe isVirtual (expiresBetween 0 0) order m
  | .clearTransient order => RemovalsSafe isVirtual (expiresBetween 2 timeMax) order m
  | .clean now order => RemovalsSafe isVirtual (expiresBetween 2 now) order m
  | _ => True

variable {isVirtual} {m : State}

theorem unrecorded_of_target {address : Bytes} (h : Recorded isVirtual m)
    (hnone : (m.addressmap address).bind (·.newAddress) = none) : Unrecorded m address := by
  intro target ve hve type haddr
  obtain ⟨-, ent, hent, hnew⟩ := h.mapped target ve hve type address haddr
  simp [hent, hnew] at hnone

theorem recorded_update_of_unrecorded {address : Bytes} (h : Recorded isVirtual m)
    (hun : Unrecorded m address) (entry : Option AddressmapEntry) :
    Recorded isVirtual { m with addressmap := Function.update m.addressmap address entry } where
  mapped target ve hve type addr haddr := by
    have hne : addr ≠ address := fun heq => hun target ve hve type (heq ▸ haddr)
    simpa [Function.update_of_ne hne] using h.mapped target ve hve type addr haddr
  notFreed := h.notFreed
  present := h.present

theorem recorded_update {address : Bytes} {entry : AddressmapEntry} (h : Recorded isVirtual m)
    (hsame : ∀ target, (m.addressmap address).bind (·.newAddress) = some target →
      entry.newAddress = some target) :
    Recorded isVirtual
      { m with addressmap := Function.update m.addressmap address (some entry) } where
  mapped target ve hve type addr haddr := by
    obtain ⟨hvirtual, ent, hent, hnew⟩ := h.mapped target ve hve type addr haddr
    refine ⟨hvirtual, ?_⟩
    by_cases heq : addr = address
    · subst heq
      exact ⟨entry, Function.update_self .., hsame target (by simp [hent, hnew])⟩
    · exact ⟨ent, by simp [Function.update_of_ne heq, hent], hnew⟩
  notFreed := h.notFreed
  present := h.present

theorem freeIfSame_eq_some {address addr : Bytes} {slot : Option Bytes}
    (h : freeIfSame address slot = some addr) : slot = some addr ∧ addr ≠ address := by
  unfold freeIfSame at h
  split_ifs at h with hsame
  exact ⟨h, fun heq => hsame (heq ▸ h)⟩

theorem recorded_addressmapVirtaddressRemove {address : Bytes} {ent : AddressmapEntry}
    (h : Recorded isVirtual m) (hent : m.addressmap address = some ent)
    (hsafe : RemovalSafe isVirtual m address ent) :
    Recorded isVirtual (addressmapVirtaddressRemove isVirtual address ent m) ∧
      Unrecorded (addressmapVirtaddressRemove isVirtual address ent m) address ∧
      (addressmapVirtaddressRemove isVirtual address ent m).addressmap = m.addressmap := by
  have hother : ∀ target ve, m.reversemap target = some ve → ∀ type, ve.addr type = some address →
      ent.newAddress = some target := by
    intro target ve hve type haddr
    obtain ⟨-, ent', hent', hnew⟩ := h.mapped target ve hve type address haddr
    rw [hent] at hent'
    rw [Option.some.inj hent', hnew]
  unfold addressmapVirtaddressRemove
  cases hnew : ent.newAddress with
  | none =>
    refine ⟨h, fun target ve hve type haddr => ?_, rfl⟩
    rw [hother target ve hve type haddr] at hnew
    cases hnew
  | some target =>
    have htarget : ∀ target' ve, m.reversemap target' = some ve → ∀ type,
        ve.addr type = some address → target' = target := by
      intro target' ve hve type haddr
      rw [hother target' ve hve type haddr] at hnew
      exact Option.some.inj hnew
    dsimp only
    by_cases hvirtual : isVirtual target = true
    · rw [if_pos hvirtual]
      cases hve : m.reversemap target with
      | none =>
        refine ⟨h, fun target' ve' hve' type haddr => ?_, rfl⟩
        rw [htarget target' ve' hve' type haddr, hve] at hve'
        cases hve'
      | some ve =>
        have hset := hsafe target ve hnew hve
        rw [if_pos hvirtual] at hset
        have hslot : ∀ ve', Function.update m.reversemap target
            (if (⟨freeIfSame address ve.ipv4Address, freeIfSame address ve.ipv6Address,
                freeIfSame address ve.hostnameAddress⟩ : VirtaddressEntry) = virtaddressEntryNew then none
              else some ⟨freeIfSame address ve.ipv4Address, freeIfSame address ve.ipv6Address,
                freeIfSame address ve.hostnameAddress⟩) target = some ve' →
            ∀ type addr, ve'.addr type = some addr → ve.addr type = some addr ∧ addr ≠ address := by
          intro ve' hve' type addr haddr
          rw [Function.update_self] at hve'
          split_ifs at hve'
          obtain rfl := Option.some.inj hve'
          cases type <;> exact freeIfSame_eq_some haddr
        refine ⟨⟨?_, h.notFreed, ?_⟩, ?_, rfl⟩
        · intro target' ve' hve' type addr haddr
          by_cases heq : target' = target
          · subst heq
            exact h.mapped target' ve hve type addr (hslot ve' hve' type addr haddr).1
          · dsimp only at hve'
            rw [Function.update_of_ne heq] at hve'
            exact h.mapped target' ve' hve' type addr haddr
        · have h4 := hset .ipv4
          have h6 := hset .ipv6
          have hh := hset .hostname
          simp only [VirtaddressEntry.addr] at h4 h6 hh
          simp [h.present, Option.isSome_iff_ne_none, h4, h6, hh]
        · intro target' ve' hve' type haddr
          by_cases heq : target' = target
          · subst heq
            exact (hslot ve' hve' type address haddr).2 rfl
          · dsimp only at hve'
            rw [Function.update_of_ne heq] at hve'
            exact heq (htarget target' ve' hve' type haddr)
    · rw [if_neg hvirtual]
      refine ⟨h, fun target' ve' hve' type haddr => ?_, rfl⟩
      have htt := htarget target' ve' hve' type haddr
      subst htt
      have hset := hsafe target' ve' hnew hve'
      rw [if_neg hvirtual] at hset
      exact hset type haddr

theorem recorded_addressmapEntRemove {address : Bytes} {ent : AddressmapEntry}
    (h : Recorded isVirtual m) (hent : m.addressmap address = some ent)
    (hsafe : RemovalSafe isVirtual m address ent) :
    Recorded isVirtual (addressmapEntRemove isVirtual address ent m) := by
  obtain ⟨hrecorded, hun, -⟩ := recorded_addressmapVirtaddressRemove h hent hsafe
  exact recorded_update_of_unrecorded hrecorded hun none

theorem recorded_removeMappings {remove : Bytes → AddressmapEntry → Bool} {order : List Bytes}
    (h : Recorded isVirtual m) (hsafe : RemovalsSafe isVirtual remove order m) :
    Recorded isVirtual (removeMappings isVirtual remove order m) := by
  induction order generalizing m with
  | nil => exact h
  | cons address order ih =>
    obtain ⟨hvisit, hrest⟩ := hsafe
    refine ih ?_ hrest
    unfold visitEntry
    cases hent : m.addressmap address with
    | none => exact h
    | some ent =>
      dsimp only
      split_ifs with hremove
      · exact recorded_addressmapEntRemove h hent (hvisit ent hent hremove)
      · exact h

theorem recorded_addressmapRegister {address : Bytes} {newAddress : Option Bytes} {expires : ℕ}
    {source : EntrySource} {wildcardAddr wildcardNewAddr : Bool} (h : Recorded isVirtual m)
    (hsafe : Safe isVirtual m
      (.register address newAddress expires source wildcardAddr wildcardNewAddr)) :
    Recorded isVirtual
      (addressmapRegister isVirtual address newAddress expires source wildcardAddr wildcardNewAddr
        m) := by
  unfold addressmapRegister
  dsimp only
  by_cases hun : unregisters address newAddress wildcardAddr wildcardNewAddr = true
  · rw [if_pos hun]
    cases hent : m.addressmap address with
    | none => exact h
    | some ent =>
      have hremoval := hsafe ent hent
      rw [if_pos hun] at hremoval
      exact recorded_addressmapEntRemove h hent hremoval
  · rw [if_neg hun]
    cases newAddress with
    | none => exact h
    | some new =>
      cases hent : m.addressmap address with
      | none =>
        exact recorded_update_of_unrecorded h (unrecorded_of_target h (by simp [hent])) _
      | some ent =>
        have hremoval := hsafe ent hent
        rw [if_neg hun] at hremoval
        dsimp only
        cases hold : ent.newAddress with
        | none =>
          exact recorded_update_of_unrecorded h (unrecorded_of_target h (by simp [hent, hold])) _
        | some old =>
          dsimp only
          by_cases htemporary : expires > 1
          · rw [if_pos htemporary]
            exact h
          · rw [if_neg htemporary]
            have hnotTwo : (expires != 2) = true := by
              simp only [bne_iff_ne, ne_eq]
              omega
            rw [hnotTwo, Bool.and_true]
            obtain htemp | hclear | ⟨hsame, hreal⟩ := hremoval
            · exact absurd htemp htemporary
            · obtain ⟨hrecorded, hunrec, -⟩ := recorded_addressmapVirtaddressRemove h hent hclear
              split_ifs with hvirtual
              · exact recorded_update_of_unrecorded hrecorded hunrec _
              · -- nothing was done, and nothing was to be done
                have hidle : addressmapVirtaddressRemove isVirtual address ent m = m := by
                  simp [addressmapVirtaddressRemove, hold, hvirtual]
                rw [hidle] at hunrec
                exact recorded_update_of_unrecorded h hunrec _
            · rw [hold] at hsame
              obtain rfl := Option.some.inj hsame
              have hnot : isVirtual old = false := by simpa using hreal
              rw [hnot]
              exact recorded_update h fun target htarget => by
                simpa [hent, hold, registered] using htarget

theorem recorded_addressmapRegisterVirtualAddress {type : ResolvedType} {newAddress : Bytes}
    {drawn : Option Bytes} (h : Recorded isVirtual m)
    (hpossible : Possible isVirtual m (.registerVirtualAddress type newAddress drawn))
    (hsafe : Safe isVirtual m (.registerVirtualAddress type newAddress drawn)) :
    Recorded isVirtual (addressmapRegisterVirtualAddress isVirtual type newAddress drawn m) := by
  unfold addressmapRegisterVirtualAddress
  dsimp only
  by_cases hmapped : stillMapped type newAddress m = true
  · rw [if_pos hmapped]
    exact h
  · rw [if_neg hmapped]
    have hsafe' := hsafe.resolve_left hmapped
    cases drawn with
    | none =>
      dsimp only at hsafe' ⊢
      rw [hsafe']
      exact h
    | some addr =>
      obtain ⟨hvirtual, hfresh⟩ := hpossible
      dsimp only at hsafe' ⊢
      have hregisters : unregisters addr (some newAddress) false false = false := by
        simp [unregisters, hsafe']
      unfold addressmapRegister
      rw [if_neg (by simp [hregisters])]
      simp only [hfresh]
      refine ⟨?_, h.notFreed, h.present⟩
      intro target ve hve type' addr' haddr
      have hold : ∀ {target ve}, m.reversemap target = some ve → ve.addr type' = some addr' →
          isVirtual addr' = true ∧ ∃ ent, Function.update m.addressmap addr
            (some (registered newAddress 2 .automap false false)) addr' = some ent ∧
            ent.newAddress = some target := by
        intro target ve hve haddr
        obtain ⟨hv, ent, hent, hnew⟩ := h.mapped target ve hve type' addr' haddr
        have hne : addr' ≠ addr := fun heq => by
          rw [heq, hfresh] at hent
          cases hent
        exact ⟨hv, ent, by rw [Function.update_of_ne hne, hent], hnew⟩
      by_cases heq : target = newAddress
      · subst heq
        dsimp only at hve
        rw [Function.update_self] at hve
        obtain rfl := Option.some.inj hve
        by_cases htype : type' = type
        · subst htype
          rw [addr_setAddr] at haddr
          obtain rfl := Option.some.inj haddr
          exact ⟨hvirtual, _, Function.update_self .., rfl⟩
        · rw [addr_setAddr_of_ne _ _ htype] at haddr
          cases hve' : m.reversemap target with
          | none => simp [hve'] at haddr
          | some ve' =>
            rw [hve', Option.getD_some] at haddr
            exact hold hve' haddr
      · dsimp only at hve
        rw [Function.update_of_ne heq] at hve
        exact hold hve haddr

theorem recorded_step {a : Action} (h : Recorded isVirtual m) (hpossible : Possible isVirtual m a)
    (hsafe : Safe isVirtual m a) : Recorded isVirtual (apply isVirtual a m) := by
  cases a with
  | register => exact recorded_addressmapRegister h hsafe
  | registerVirtualAddress => exact recorded_addressmapRegisterVirtualAddress h hpossible hsafe
  | clearTrackexithostMappings => exact recorded_removeMappings h hsafe
  | clearExcludedTrackexithosts => exact recorded_removeMappings h hsafe
  | clearInvalidAutomaps => exact recorded_removeMappings h hsafe
  | clearConfigured => exact recorded_removeMappings h hsafe
  | clearTransient => exact recorded_removeMappings h hsafe
  | clean => exact recorded_removeMappings h hsafe
  | incrFailures address now =>
    refine recorded_update h fun target htarget => ?_
    cases hent : m.addressmap address with
    | none => simp [hent] at htarget
    | some ent => simpa [hent] using htarget
  | haveMapping address updateExpiry now =>
    simp only [apply, addressmapHaveMapping]
    cases hent : m.addressmap address with
    | none => exact h
    | some ent =>
      dsimp only
      split_ifs
      · exact recorded_update h fun target htarget => by simpa [hent] using htarget
      · exact h

theorem recorded_init : Recorded isVirtual addressmapInit where
  mapped := by simp [addressmapInit]
  notFreed _ := rfl
  present := rfl

/-- What holds in every run of safe steps. -/
theorem reversemap_kept (hr : Reached (addressmapSystem isVirtual) (Safe isVirtual) m) :
    (∀ target ve, m.reversemap target = some ve → m.freed target = false ∧
      ∀ type addr, ve.addr type = some addr →
        isVirtual addr = true ∧ ∃ ent, m.addressmap addr = some ent ∧ ent.newAddress = some target) ∧
      m.absentCompared = false := by
  have h : Recorded isVirtual m := hr.invariant
    { init := by
        rintro _ rfl
        exact recorded_init
      step := by
        rintro m a _ h hsafe ⟨hpossible, rfl⟩
        exact recorded_step h hpossible hsafe }
  exact ⟨fun target ve hve => ⟨h.notFreed target, h.mapped target ve hve⟩, h.present⟩

/-! ### A record that is left -/

def onionAddress : Bytes := ascii "target.onion"

def virtualAddress : Bytes := ascii "127.192.0.1"

def inNetwork (address : Bytes) : Bool := address == virtualAddress

/-- A resolve of an onion address was answered with a virtual address. -/
def automapped : State :=
  apply inNetwork (.registerVirtualAddress .ipv4 onionAddress (some virtualAddress)) addressmapInit

theorem possible_automapped : Possible inNetwork addressmapInit
    (.registerVirtualAddress .ipv4 onionAddress (some virtualAddress)) := ⟨by decide, rfl⟩

theorem automapped_recorded :
    (automapped.reversemap onionAddress).isSome = true ∧ automapped.absentCompared = false := by
  have hsafe : Safe inNetwork addressmapInit
      (.registerVirtualAddress .ipv4 onionAddress (some virtualAddress)) :=
    .inr (by decide)
  have hreached : Reached (addressmapSystem inNetwork) (Safe inNetwork) automapped :=
    .step (.init rfl) hsafe ⟨possible_automapped, rfl⟩
  exact ⟨by decide, (reversemap_kept hreached).2⟩

/-- When automapping is turned off, the address is unmapped but stays recorded for its target. -/
theorem automap_left :
    ¬ ∀ m, Reached (addressmapSystem inNetwork) (fun _ _ => True) m →
      ∀ target ve, m.reversemap target = some ve → ∀ type addr, ve.addr type = some addr →
        ∃ ent, m.addressmap addr = some ent ∧ ent.newAddress = some target := by
  intro hall
  have henumerates : Enumerates [virtualAddress] automapped := by
    refine ⟨List.nodup_singleton _, fun address => ?_⟩
    by_cases heq : address = virtualAddress
    · subst heq
      decide
    · have hnone : automapped.addressmap address = none := Function.update_of_ne heq _ _
      simp [heq, hnone]
  have hmapped : Reached (addressmapSystem inNetwork) (fun _ _ => True) automapped :=
    .step (.init rfl) trivial ⟨possible_automapped, rfl⟩
  have hreached : Reached (addressmapSystem inNetwork) (fun _ _ => True)
      (apply inNetwork (.clearInvalidAutomaps true (fun _ => true) [virtualAddress]) automapped) :=
    .step (a := Action.clearInvalidAutomaps true (fun _ => true) [virtualAddress]) hmapped trivial
      ⟨henumerates, rfl⟩
  obtain ⟨ent, hent, -⟩ := hall _ hreached onionAddress
    ⟨some virtualAddress, none, none⟩ (by decide) .ipv4 virtualAddress rfl
  have hnone : ((apply inNetwork (.clearInvalidAutomaps true (fun _ => true) [virtualAddress])
      automapped).addressmap virtualAddress).isNone = true := by decide
  rw [hent] at hnone
  cases hnone

end Addressmap
