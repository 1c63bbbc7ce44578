/-
Concurrent connections of a client address (`core/or/dos.c`, `feature/stats/geoip_stats.c`).

A client connection is counted against the geoip entry of its address and of the transport it
came by, but when it is closed the entry without a transport is looked up; and when an entry
is freed every connection of its address is taken to have been counted against it.
-/
import Mathlib
import LibEltor.Transition

open Transition

namespace Dos

/-! ### Entries and connections -/

inductive GeoipClientAction
  | connect
  | networkstatus
  deriving DecidableEq

variable (α τ : Type*)

structure ClientKey where
  addr : α
  transportName : Option τ
  action : GeoipClientAction
  deriving DecidableEq

/-- `serial` tells an entry from those that had its key before. -/
structure ClientmapEntry where
  serial : ℕ
  concurrentCount : ℕ
  deriving DecidableEq

/-- An open OR connection; `counted` is the entry it was counted against. -/
structure OrConnection where
  id : ℕ
  addr : α
  trackedForDosMitigation : Bool
  counted : ℕ
  deriving DecidableEq

structure DosState where
  clientHistory : ClientKey α τ → Option ClientmapEntry
  nextSerial : ℕ
  connectionArray : List (OrConnection α)
  dosEnabled : Bool
  underflowed : Bool

variable {α τ}

def dosInit : DosState α τ where
  clientHistory := fun _ => none
  nextSerial := 0
  connectionArray := []
  dosEnabled := false
  underflowed := false

def intMax : ℕ := 2 ^ 31 - 1

def updateConn (id : ℕ) (f : OrConnection α → OrConnection α) (l : List (OrConnection α)) :
    List (OrConnection α) :=
  l.map fun c => if c.id = id then f c else c

def countedFor (serial : ℕ) (c : OrConnection α) : Bool :=
  c.trackedForDosMitigation && decide (c.counted = serial)

theorem split_of_mem {conn : OrConnection α} {l : List (OrConnection α)} (hmem : conn ∈ l)
    (hnodup : (l.map (·.id)).Nodup) :
    ∃ l₁ l₂, l = l₁ ++ conn :: l₂ ∧ (∀ c ∈ l₁, c.id ≠ conn.id) ∧ ∀ c ∈ l₂, c.id ≠ conn.id := by
  obtain ⟨l₁, l₂, rfl⟩ := List.append_of_mem hmem
  simp only [List.map_append, List.map_cons, List.nodup_append, List.nodup_cons, List.mem_cons,
    List.mem_map, forall_exists_index, and_imp] at hnodup
  obtain ⟨-, ⟨hnotmem, -⟩, hdisjoint⟩ := hnodup
  exact ⟨l₁, l₂, rfl, fun c hc => hdisjoint _ c hc rfl _ (.inl rfl),
    fun c hc heq => hnotmem ⟨c, hc, heq⟩⟩

theorem updateConn_eq {conn : OrConnection α} {f : OrConnection α → OrConnection α}
    {l₁ l₂ : List (OrConnection α)} (h₁ : ∀ c ∈ l₁, c.id ≠ conn.id) (h₂ : ∀ c ∈ l₂, c.id ≠ conn.id) :
    updateConn conn.id f (l₁ ++ conn :: l₂) = l₁ ++ f conn :: l₂ := by
  have hsame : ∀ l : List (OrConnection α), (∀ c ∈ l, c.id ≠ conn.id) →
      (l.map fun c => if c.id = conn.id then f c else c) = l := fun l hl => by
    rw [List.map_congr_left fun c hc => if_neg (hl c hc)]
    exact List.map_id l
  simp only [updateConn, List.map_append, List.map_cons, if_true, hsame l₁ h₁, hsame l₂ h₂]

theorem filter_ne_eq {conn : OrConnection α} {l₁ l₂ : List (OrConnection α)}
    (h₁ : ∀ c ∈ l₁, c.id ≠ conn.id) (h₂ : ∀ c ∈ l₂, c.id ≠ conn.id) :
    (l₁ ++ conn :: l₂).filter (fun c => c.id ≠ conn.id) = l₁ ++ l₂ := by
  have hsame : ∀ l : List (OrConnection α), (∀ c ∈ l, c.id ≠ conn.id) →
      l.filter (fun c => c.id ≠ conn.id) = l := fun l hl =>
    List.filter_eq_self.mpr fun c hc => by simpa using hl c hc
  rw [List.filter_append, List.filter_cons_of_neg (by simp), hsame l₁ h₁, hsame l₂ h₂]

variable [DecidableEq α] [DecidableEq τ]

/-! ### Operations -/

/-- `statistics`: the options ask for client statistics. -/
def geoipNoteClientSeen (key : ClientKey α τ) (statistics : Bool) (S : DosState α τ) : DosState α τ :=
  if !S.dosEnabled && !statistics then S
  else
    match S.clientHistory key with
    | some _ => S
    | none => { S with
        clientHistory := Function.update S.clientHistory key (some ⟨S.nextSerial, 0⟩)
        nextSerial := S.nextSerial + 1 }

def connUpdateOnConnect (ent : ClientmapEntry) : ClientmapEntry :=
  { ent with concurrentCount := (ent.concurrentCount + 1) % 2 ^ 32 }

def dosNewClientConn (conn : OrConnection α) (transportName : Option τ) (S : DosState α τ) :
    DosState α τ :=
  if !S.dosEnabled then S
  else
    let key : ClientKey α τ := ⟨conn.addr, transportName, .connect⟩
    match S.clientHistory key with
    | none => S
    | some ent => { S with
        clientHistory := Function.update S.clientHistory key (some (connUpdateOnConnect ent))
        connectionArray := updateConn conn.id
          (fun c => { c with trackedForDosMitigation := true, counted := ent.serial })
          S.connectionArray }

def dosCloseClientConn (conn : OrConnection α) (S : DosState α τ) : DosState α τ :=
  if !conn.trackedForDosMitigation then S
  else
    let key : ClientKey α τ := ⟨conn.addr, none, .connect⟩
    match S.clientHistory key with
    | none => S
    | some ent =>
      if ent.concurrentCount = 0 then { S with underflowed := true }
      else { S with
        clientHistory := Function.update S.clientHistory key
          (some { ent with concurrentCount := ent.concurrentCount - 1 }) }

def dosGeoipEntryAboutToFree (key : ClientKey α τ) (ent : ClientmapEntry) (S : DosState α τ) :
    DosState α τ :=
  if ent.concurrentCount = 0 then S
  else { S with
    connectionArray := S.connectionArray.map fun c =>
      if c.addr = key.addr then { c with trackedForDosMitigation := false } else c }

def clientmapEntryFree (key : ClientKey α τ) (ent : ClientmapEntry) (S : DosState α τ) :
    DosState α τ :=
  dosGeoipEntryAboutToFree key ent
    { S with clientHistory := Function.update S.clientHistory key none }

def connectionFree (conn : OrConnection α) (S : DosState α τ) : DosState α τ :=
  dosCloseClientConn conn
    { S with connectionArray := S.connectionArray.filter fun c => c.id ≠ conn.id }

variable (α τ) in
inductive DosAction
  | noteClientSeen (key : ClientKey α τ) (statistics : Bool)
  | accept (id : ℕ) (addr : α)
  | clientConn (conn : OrConnection α) (transportName : Option τ) (statistics : Bool)
  | close (conn : OrConnection α)
  | freeEntry (key : ClientKey α τ) (ent : ClientmapEntry)
  | consensusHasChanged (enabled : Bool)

inductive DosStep : DosState α τ → DosAction α τ → DosState α τ → Prop
  | noteClientSeen (S : DosState α τ) (key : ClientKey α τ) (statistics : Bool) :
      DosStep S (.noteClientSeen key statistics) (geoipNoteClientSeen key statistics S)
  | accept (S : DosState α τ) (id : ℕ) (addr : α)
      (hid : id ∉ S.connectionArray.map (·.id)) (hroom : S.connectionArray.length < intMax) :
      DosStep S (.accept id addr)
        { S with connectionArray := S.connectionArray ++ [⟨id, addr, false, 0⟩] }
  | clientConn (S : DosState α τ) (conn : OrConnection α) (transportName : Option τ)
      (statistics : Bool) (hconn : conn ∈ S.connectionArray)
      (huntracked : conn.trackedForDosMitigation = false) :
      DosStep S (.clientConn conn transportName statistics)
        (dosNewClientConn conn transportName
          (geoipNoteClientSeen ⟨conn.addr, transportName, .connect⟩ statistics S))
  | close (S : DosState α τ) (conn : OrConnection α) (hconn : conn ∈ S.connectionArray) :
      DosStep S (.close conn) (connectionFree conn S)
  | freeEntry (S : DosState α τ) (key : ClientKey α τ) (ent : ClientmapEntry)
      (hent : S.clientHistory key = some ent) :
      DosStep S (.freeEntry key ent) (clientmapEntryFree key ent S)
  | consensusHasChanged (S : DosState α τ) (enabled : Bool) :
      DosStep S (.consensusHasChanged enabled) { S with dosEnabled := enabled }

variable (α τ) in
def dosSystem : System (DosState α τ) (DosAction α τ) where
  init := fun S => S = dosInit
  step := DosStep

/-- A close finds the entry the connection was counted against; an entry that counts connections
is freed when those of its address are all counted against it. -/
def Matched (S : DosState α τ) : DosAction α τ → Prop
  | .close conn => conn.trackedForDosMitigation = true →
    ∃ ent, S.clientHistory ⟨conn.addr, none, .connect⟩ = some ent ∧ ent.serial = conn.counted
  | .freeEntry key ent => ent.concurrentCount ≠ 0 → ∀ c ∈ S.connectionArray, c.addr = key.addr →
    c.trackedForDosMitigation = true → c.counted = ent.serial
  | _ => True

/-! ### The invariant -/

structure CountInv (S : DosState α τ) : Prop where
  serial_inj : ∀ key ent key' ent', S.clientHistory key = some ent →
    S.clientHistory key' = some ent' → ent.serial = ent'.serial → key = key'
  serial_lt : ∀ key ent, S.clientHistory key = some ent → ent.serial < S.nextSerial
  nodup : (S.connectionArray.map (·.id)).Nodup
  room : S.connectionArray.length ≤ intMax
  tracked : ∀ c ∈ S.connectionArray, c.trackedForDosMitigation = true →
    ∃ key ent, S.clientHistory key = some ent ∧ ent.serial = c.counted ∧ key.addr = c.addr
  count : ∀ key ent, S.clientHistory key = some ent →
    ent.concurrentCount = S.connectionArray.countP (countedFor ent.serial)
  notUnderflowed : S.underflowed = false

variable {S S' : DosState α τ}

omit [DecidableEq α] [DecidableEq τ] in
theorem countInv_init : CountInv (dosInit : DosState α τ) where
  serial_inj := by simp [dosInit]
  serial_lt := by simp [dosInit]
  nodup := List.nodup_nil
  room := Nat.zero_le _
  tracked := by simp [dosInit]
  count := by simp [dosInit]
  notUnderflowed := rfl

theorem countInv_geoipNoteClientSeen {key : ClientKey α τ} {statistics : Bool} (h : CountInv S) :
    CountInv (geoipNoteClientSeen key statistics S) := by
  unfold geoipNoteClientSeen
  split_ifs
  · exact h
  cases hkey : S.clientHistory key with
  | some ent => exact h
  | none =>
    have hcases : ∀ key' ent', Function.update S.clientHistory key (some ⟨S.nextSerial, 0⟩) key' =
        some ent' → (key' = key ∧ ent' = ⟨S.nextSerial, 0⟩) ∨ S.clientHistory key' = some ent' := by
      intro key' ent' hent'
      by_cases heq : key' = key
      · subst heq
        rw [Function.update_self] at hent'
        exact .inl ⟨rfl, (Option.some.inj hent').symm⟩
      · rw [Function.update_of_ne heq] at hent'
        exact .inr hent'
    refine ⟨?_, ?_, h.nodup, h.room, ?_, ?_, h.notUnderflowed⟩
    · intro key₁ ent₁ key₂ ent₂ h₁ h₂ heq
      obtain ⟨rfl, rfl⟩ | hold₁ := hcases _ _ h₁ <;> obtain ⟨rfl, rfl⟩ | hold₂ := hcases _ _ h₂
      · rfl
      · exact absurd (h.serial_lt _ _ hold₂) (by rw [← heq]; exact lt_irrefl _)
      · exact absurd (h.serial_lt _ _ hold₁) (by rw [heq]; exact lt_irrefl _)
      · exact h.serial_inj _ _ _ _ hold₁ hold₂ heq
    · intro key' ent' hent'
      obtain ⟨rfl, rfl⟩ | hent' := hcases _ _ hent'
      · exact Nat.lt_succ_self _
      · exact Nat.lt_succ_of_lt (h.serial_lt _ _ hent')
    · intro c hc htracked
      obtain ⟨key', ent', hent', hserial, haddr⟩ := h.tracked c hc htracked
      have hne : key' ≠ key := fun heq => by
        rw [heq, hkey] at hent'
        cases hent'
      exact ⟨key', ent', by dsimp only; rw [Function.update_of_ne hne, hent'], hserial, haddr⟩
    · intro key' ent' hent'
      obtain ⟨rfl, rfl⟩ | hent' := hcases _ _ hent'
      · -- what is tracked is counted against older entries
        refine (List.countP_eq_zero.mpr fun c hc hcounted => ?_).symm
        simp only [countedFor, Bool.and_eq_true, decide_eq_true_eq] at hcounted
        obtain ⟨key₀, ent₀, hent₀, hserial, -⟩ := h.tracked c hc hcounted.1
        have hlt := h.serial_lt _ _ hent₀
        omega
      · exact h.count _ _ hent'

theorem update_entry {key : ClientKey α τ} {ent : ClientmapEntry} (ent' : ClientmapEntry)
    (hent : S.clientHistory key = some ent) (hserial : ent'.serial = ent.serial) :
    ∀ key₀ ent₀, Function.update S.clientHistory key (some ent') key₀ = some ent₀ →
      ∃ ent₁, S.clientHistory key₀ = some ent₁ ∧ ent₁.serial = ent₀.serial ∧
        (key₀ = key ∧ ent₀ = ent' ∨ key₀ ≠ key ∧ ent₀ = ent₁) := by
  intro key₀ ent₀ h₀
  by_cases heq : key₀ = key
  · subst heq
    rw [Function.update_self] at h₀
    obtain rfl := Option.some.inj h₀
    exact ⟨ent, hent, hserial.symm, .inl ⟨rfl, rfl⟩⟩
  · rw [Function.update_of_ne heq] at h₀
    exact ⟨ent₀, h₀, rfl, .inr ⟨heq, rfl⟩⟩

theorem exists_update_entry {key : ClientKey α τ} {ent : ClientmapEntry} (ent' : ClientmapEntry)
    (hent : S.clientHistory key = some ent) (hserial : ent'.serial = ent.serial)
    {key₀ : ClientKey α τ} {ent₀ : ClientmapEntry} (h₀ : S.clientHistory key₀ = some ent₀) :
    ∃ ent₁, Function.update S.clientHistory key (some ent') key₀ = some ent₁ ∧
      ent₁.serial = ent₀.serial := by
  by_cases heq : key₀ = key
  · subst heq
    rw [hent] at h₀
    obtain rfl := Option.some.inj h₀
    exact ⟨ent', Function.update_self .., hserial⟩
  · exact ⟨ent₀, by rw [Function.update_of_ne heq, h₀], rfl⟩

theorem countInv_dosNewClientConn {conn : OrConnection α} {transportName : Option τ}
    (h : CountInv S) (hconn : conn ∈ S.connectionArray)
    (huntracked : conn.trackedForDosMitigation = false) :
    CountInv (dosNewClientConn conn transportName S) := by
  unfold dosNewClientConn
  split_ifs
  · exact h
  dsimp only
  cases hent : S.clientHistory ⟨conn.addr, transportName, .connect⟩ with
  | none => exact h
  | some ent =>
    obtain ⟨l₁, l₂, hl, h₁, h₂⟩ := split_of_mem hconn h.nodup
    have hnodup := h.nodup
    have hroom := h.room
    have htracked := h.tracked
    have hcount := h.count
    rw [hl] at hnodup hroom htracked hcount
    have hserial : (connUpdateOnConnect ent).serial = ent.serial := rfl
    have hcases := update_entry (connUpdateOnConnect ent) hent hserial
    dsimp only
    rw [hl, updateConn_eq h₁ h₂]
    have hmem : ∀ {c}, c ∈ l₁ ++ { conn with trackedForDosMitigation := true, counted := ent.serial }
        :: l₂ → c = { conn with trackedForDosMitigation := true, counted := ent.serial } ∨
          c ∈ l₁ ++ conn :: l₂ := fun hc => by
      simp only [List.mem_append, List.mem_cons] at hc ⊢
      tauto
    refine ⟨?_, ?_, ?_, ?_, ?_, ?_, h.notUnderflowed⟩
    · intro key₁ ent₁ key₂ ent₂ hent₁ hent₂ heq
      obtain ⟨old₁, hold₁, hs₁, -⟩ := hcases _ _ hent₁
      obtain ⟨old₂, hold₂, hs₂, -⟩ := hcases _ _ hent₂
      exact h.serial_inj _ _ _ _ hold₁ hold₂ (by omega)
    · intro key₁ ent₁ hent₁
      obtain ⟨old₁, hold₁, hs₁, -⟩ := hcases _ _ hent₁
      exact hs₁ ▸ h.serial_lt _ _ hold₁
    · simpa using hnodup
    · simpa using hroom
    · intro c hc hct
      obtain rfl | hc := hmem hc
      · exact ⟨_, _, Function.update_self .., rfl, rfl⟩
      · obtain ⟨key₀, ent₀, hent₀, hs₀, haddr⟩ := htracked c hc hct
        obtain ⟨ent₁, hent₁, hs₁⟩ := exists_update_entry _ hent hserial hent₀
        exact ⟨key₀, ent₁, hent₁, hs₁.trans hs₀, haddr⟩
    · intro key₁ ent₁ hent₁
      obtain ⟨old₁, hold₁, hs₁, hwhich⟩ := hcases _ _ hent₁
      have hcount₁ := hcount _ _ hold₁
      have huncounted : countedFor old₁.serial conn = false := by simp [countedFor, huntracked]
      simp only [List.countP_append, List.countP_cons, huncounted, Bool.false_eq_true, if_false]
        at hcount₁
      obtain ⟨rfl, rfl⟩ | ⟨hne, rfl⟩ := hwhich
      · rw [hent] at hold₁
        obtain rfl := Option.some.inj hold₁
        have hcounted : countedFor ent.serial
            { conn with trackedForDosMitigation := true, counted := ent.serial } = true := by
          simp [countedFor]
        have hle₁ := List.countP_le_length (p := countedFor ent.serial) (l := l₁)
        have hle₂ := List.countP_le_length (p := countedFor ent.serial) (l := l₂)
        simp only [List.length_append, List.length_cons, intMax] at hroom
        simp only [connUpdateOnConnect, List.countP_append, List.countP_cons, hcounted, if_true]
        omega
      · have hdiff : countedFor ent₁.serial
            { conn with trackedForDosMitigation := true, counted := ent.serial } = false := by
          simp only [countedFor, Bool.true_and, decide_eq_false_iff_not]
          exact fun heq => hne (h.serial_inj _ _ _ _ hold₁ hent heq.symm)
        simp only [List.countP_append, List.countP_cons, hdiff, Bool.false_eq_true, if_false]
        exact hcount₁

theorem countInv_connectionFree {conn : OrConnection α} (h : CountInv S)
    (hconn : conn ∈ S.connectionArray) (hmatched : Matched S (.close conn)) :
    CountInv (connectionFree conn S) := by
  obtain ⟨l₁, l₂, hl, h₁, h₂⟩ := split_of_mem hconn h.nodup
  have hnodup := h.nodup
  have hroom := h.room
  have htracked := h.tracked
  have hcount := h.count
  rw [hl] at hnodup hroom htracked hcount
  have hsub : (l₁ ++ l₂).Sublist (l₁ ++ conn :: l₂) :=
    List.Sublist.append (List.Sublist.refl _) (List.sublist_cons_self _ _)
  unfold connectionFree
  rw [hl, filter_ne_eq h₁ h₂]
  unfold dosCloseClientConn
  by_cases hct : conn.trackedForDosMitigation = true
  · obtain ⟨ent, hent, hserial⟩ := hmatched hct
    have hcounted : countedFor ent.serial conn = true := by simp [countedFor, hct, hserial]
    have hpos := hcount _ _ hent
    simp only [List.countP_append, List.countP_cons, hcounted, if_true] at hpos
    have hne : ent.concurrentCount ≠ 0 := by omega
    have hcases := update_entry { ent with concurrentCount := ent.concurrentCount - 1 } hent rfl
    simp only [hct, hent, hne, Bool.not_true, Bool.false_eq_true, if_false]
    refine ⟨?_, ?_, ?_, ?_, ?_, ?_, h.notUnderflowed⟩
    · intro key₁ ent₁ key₂ ent₂ hent₁ hent₂ heq
      obtain ⟨old₁, hold₁, hs₁, -⟩ := hcases _ _ hent₁
      obtain ⟨old₂, hold₂, hs₂, -⟩ := hcases _ _ hent₂
      exact h.serial_inj _ _ _ _ hold₁ hold₂ (by omega)
    · intro key₁ ent₁ hent₁
      obtain ⟨old₁, hold₁, hs₁, -⟩ := hcases _ _ hent₁
      exact hs₁ ▸ h.serial_lt _ _ hold₁
    · exact (hsub.map _).nodup hnodup
    · exact hsub.length_le.trans hroom
    · intro c hc hct
      obtain ⟨key₀, ent₀, hent₀, hs₀, haddr⟩ := htracked c (hsub.subset hc) hct
      obtain ⟨ent₁, hent₁, hs₁⟩ := exists_update_entry
        { ent with concurrentCount := ent.concurrentCount - 1 } hent rfl hent₀
      exact ⟨key₀, ent₁, hent₁, hs₁.trans hs₀, haddr⟩
    · intro key₁ ent₁ hent₁
      obtain ⟨old₁, hold₁, hs₁, hwhich⟩ := hcases _ _ hent₁
      have hcount₁ := hcount _ _ hold₁
      simp only [List.countP_append, List.countP_cons] at hcount₁ ⊢
      obtain ⟨rfl, rfl⟩ | ⟨hne', rfl⟩ := hwhich
      · dsimp only
        omega
      · have hdiff : countedFor ent₁.serial conn = false := by
          simp only [countedFor, hct, Bool.true_and, decide_eq_false_iff_not]
          exact fun heq => hne' (h.serial_inj _ _ _ _ hold₁ hent (heq.symm.trans hserial.symm))
        simp only [hdiff, Bool.false_eq_true, if_false] at hcount₁
        exact hcount₁
  · have hct' : conn.trackedForDosMitigation = false := by simpa using hct
    simp only [hct', Bool.not_false, if_true]
    refine ⟨h.serial_inj, h.serial_lt, (hsub.map _).nodup hnodup, hsub.length_le.trans hroom,
      fun c hc => htracked c (hsub.subset hc), ?_, h.notUnderflowed⟩
    intro key₁ ent₁ hent₁
    have hcount₁ := hcount _ _ hent₁
    have huncounted : countedFor ent₁.serial conn = false := by simp [countedFor, hct']
    simp only [List.countP_append, List.countP_cons, huncounted, Bool.false_eq_true, if_false]
      at hcount₁ ⊢
    exact hcount₁

theorem countInv_clientmapEntryFree {key : ClientKey α τ} {ent : ClientmapEntry} (h : CountInv S)
    (hent : S.clientHistory key = some ent) (hmatched : Matched S (.freeEntry key ent)) :
    CountInv (clientmapEntryFree key ent S) := by
  have hother : ∀ key₀ ent₀, Function.update S.clientHistory key none key₀ = some ent₀ →
      key₀ ≠ key ∧ S.clientHistory key₀ = some ent₀ := by
    intro key₀ ent₀ h₀
    by_cases heq : key₀ = key
    · subst heq
      rw [Function.update_self] at h₀
      cases h₀
    · rw [Function.update_of_ne heq] at h₀
      exact ⟨heq, h₀⟩
  have hkept : ∀ key₀ ent₀, S.clientHistory key₀ = some ent₀ → ent₀.serial ≠ ent.serial →
      Function.update S.clientHistory key none key₀ = some ent₀ := by
    intro key₀ ent₀ h₀ hne
    have hkey : key₀ ≠ key := fun heq => by
      rw [heq, hent] at h₀
      exact hne (congrArg _ (Option.some.inj h₀)).symm
    rw [Function.update_of_ne hkey, h₀]
  have hserial : ∀ key₀ ent₀, Function.update S.clientHistory key none key₀ = some ent₀ →
      ent₀.serial ≠ ent.serial := fun key₀ ent₀ h₀ heq =>
    (hother _ _ h₀).1 (h.serial_inj _ _ _ _ (hother _ _ h₀).2 hent heq)
  unfold clientmapEntryFree dosGeoipEntryAboutToFree
  split_ifs with hzero
  · -- nothing was counted against the entry
    have hnone := h.count _ _ hent
    rw [hzero] at hnone
    have hnone' := List.countP_eq_zero.mp hnone.symm
    refine ⟨?_, ?_, h.nodup, h.room, ?_, ?_, h.notUnderflowed⟩
    · exact fun key₁ ent₁ key₂ ent₂ hent₁ hent₂ =>
        h.serial_inj _ _ _ _ (hother _ _ hent₁).2 (hother _ _ hent₂).2
    · exact fun key₁ ent₁ hent₁ => h.serial_lt _ _ (hother _ _ hent₁).2
    · intro c hc hct
      obtain ⟨key₀, ent₀, hent₀, hs₀, haddr⟩ := h.tracked c hc hct
      refine ⟨key₀, ent₀, hkept _ _ hent₀ fun heq => hnone' c hc ?_, hs₀, haddr⟩
      simp [countedFor, hct, ← hs₀, heq]
    · exact fun key₁ ent₁ hent₁ => h.count _ _ (hother _ _ hent₁).2
  · have hclear := hmatched hzero
    refine ⟨?_, ?_, ?_, ?_, ?_, ?_, h.notUnderflowed⟩
    · exact fun key₁ ent₁ key₂ ent₂ hent₁ hent₂ =>
        h.serial_inj _ _ _ _ (hother _ _ hent₁).2 (hother _ _ hent₂).2
    · exact fun key₁ ent₁ hent₁ => h.serial_lt _ _ (hother _ _ hent₁).2
    · have hids : (S.connectionArray.map fun c =>
          if c.addr = key.addr then { c with trackedForDosMitigation := false } else c).map (·.id) =
          S.connectionArray.map (·.id) := by
        rw [List.map_map]
        refine List.map_congr_left fun c _ => ?_
        simp only [Function.comp_apply]
        split_ifs <;> rfl
      dsimp only
      rw [hids]
      exact h.nodup
    · simpa using h.room
    · intro c hc hct
      obtain ⟨old, hold, rfl⟩ := List.mem_map.mp hc
      by_cases haddr : old.addr = key.addr
      · rw [if_pos haddr] at hct
        cases hct
      · rw [if_neg haddr] at hct ⊢
        obtain ⟨key₀, ent₀, hent₀, hs₀, haddr₀⟩ := h.tracked old hold hct
        refine ⟨key₀, ent₀, hkept _ _ hent₀ fun heq => ?_, hs₀, haddr₀⟩
        exact haddr (haddr₀ ▸ congrArg _ (h.serial_inj _ _ _ _ hent₀ hent heq))
    · intro key₁ ent₁ hent₁
      rw [h.count _ _ (hother _ _ hent₁).2]
      dsimp only
      rw [List.countP_map]
      refine List.countP_congr fun c hc => ?_
      simp only [Function.comp_apply]
      by_cases haddr : c.addr = key.addr
      · rw [if_pos haddr]
        simp only [countedFor, Bool.and_eq_true, decide_eq_true_eq, Bool.false_and,
          Bool.false_eq_true, iff_false, not_and]
        intro hct heq
        exact hserial _ _ hent₁ (heq.symm.trans (hclear c hc haddr hct))
      · rw [if_neg haddr]

theorem countInv_step {a : DosAction α τ} (h : CountInv S) (hmatched : Matched S a)
    (hstep : DosStep S a S') : CountInv S' := by
  cases hstep with
  | noteClientSeen => exact countInv_geoipNoteClientSeen h
  | accept id addr hid hroom =>
    refine ⟨h.serial_inj, h.serial_lt, ?_, ?_, ?_, ?_, h.notUnderflowed⟩
    · simp only [List.map_append, List.map_cons, List.map_nil]
      exact List.nodup_append.mpr ⟨h.nodup, List.nodup_singleton _, fun a ha b hb heq => by
        rw [List.mem_singleton] at hb
        exact hid (hb ▸ heq ▸ ha)⟩
    · simpa using hroom
    · intro c hc hct
      simp only [List.mem_append, List.mem_singleton] at hc
      obtain hc | rfl := hc
      · exact h.tracked c hc hct
      · cases hct
    · intro key ent hent
      simpa [countedFor] using h.count key ent hent
  | clientConn conn transportName statistics hconn huntracked =>
    refine countInv_dosNewClientConn (countInv_geoipNoteClientSeen h) ?_ huntracked
    unfold geoipNoteClientSeen
    split_ifs
    · exact hconn
    · split
      · exact hconn
      · exact hconn
  | close conn hconn => exact countInv_connectionFree h hconn hmatched
  | freeEntry key ent hent => exact countInv_clientmapEntryFree h hent hmatched
  | consensusHasChanged =>
    exact ⟨h.serial_inj, h.serial_lt, h.nodup, h.room, h.tracked, h.count, h.notUnderflowed⟩

theorem reached_transport (ok : DosState ℕ ℕ → DosAction ℕ ℕ → Prop) (hok : ∀ S a, (∀ c, a ≠ .close c) →
    (∀ key ent, a ≠ .freeEntry key ent) → ok S a) :
    Reached (dosSystem ℕ ℕ) ok
      (dosNewClientConn ⟨0, 1, false, 0⟩ (some 7)
        (geoipNoteClientSeen ⟨1, some 7, .connect⟩ false
          { dosInit with dosEnabled := true, connectionArray := [⟨0, 1, false, 0⟩] })) := by
  have henabled : Reached (dosSystem ℕ ℕ) ok { dosInit with dosEnabled := true } :=
    .step (.init rfl) (hok _ _ (by simp) (by simp)) (.consensusHasChanged _ true)
  have haccepted : Reached (dosSystem ℕ ℕ) ok
      { dosInit with dosEnabled := true, connectionArray := [⟨0, 1, false, 0⟩] } :=
    .step henabled (hok _ _ (by simp) (by simp)) (.accept _ 0 1 (by simp [dosInit]) (by decide))
  exact .step haccepted (hok _ _ (by simp) (by simp))
    (.clientConn _ ⟨0, 1, false, 0⟩ (some 7) false (by simp) rfl)

end Dos
