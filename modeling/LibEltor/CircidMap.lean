/-
Circuit ids on channels (`core/or/circuitlist.c`, `core/or/circuitmux.c`,
`core/or/channel.c`).

A circuit is attached to a channel on each of its two sides, under an id that is
its own on that channel.  The map from channel and id to circuit, the circuitmux of
the channel and the queue of DESTROY cells that wait to be written all know of it.
-/
import LibEltor.Transition
import Mathlib.Data.Finset.Card
import Mathlib.Data.Int.Notation
import Mathlib.Tactic.Ring

open Transition

namespace CircidMap

section UpdateAt

variable {α β γ : Type*} [DecidableEq α] [DecidableEq β]

def updateAt (f : α → β → γ) (a : α) (b : β) (v : γ) : α → β → γ :=
  fun x y => if x = a ∧ y = b then v else f x y

@[simp] theorem updateAt_self (f : α → β → γ) (a : α) (b : β) (v : γ) :
    updateAt f a b v a b = v := if_pos ⟨rfl, rfl⟩

theorem updateAt_of_ne (f : α → β → γ) {a x : α} {b y : β} (v : γ) (h : ¬ (x = a ∧ y = b)) :
    updateAt f a b v x y = f x y := if_neg h

theorem updateAt_eq_self {f : α → β → γ} {a : α} {b : β} {v : γ} (h : f a b = v) :
    updateAt f a b v = f := by
  funext x y
  by_cases hk : x = a ∧ y = b
  · rw [hk.1, hk.2, updateAt_self, h]
  · exact updateAt_of_ne f v hk

theorem updateAt_updateAt (f : α → β → γ) (a : α) (b : β) (v v' : γ) :
    updateAt (updateAt f a b v) a b v' = updateAt f a b v' := by
  funext x y
  by_cases hk : x = a ∧ y = b
  · rw [hk.1, hk.2, updateAt_self, updateAt_self]
  · rw [updateAt_of_ne _ _ hk, updateAt_of_ne _ _ hk, updateAt_of_ne _ _ hk]

theorem updateAt_comm (f : α → β → γ) {a a' : α} {b b' : β} (v v' : γ)
    (h : ¬ (a' = a ∧ b' = b)) :
    updateAt (updateAt f a b v) a' b' v' = updateAt (updateAt f a' b' v') a b v := by
  have h' : ¬ (a = a' ∧ b = b') := fun hk => h ⟨hk.1.symm, hk.2.symm⟩
  funext x y
  by_cases hk : x = a ∧ y = b
  · rw [hk.1, hk.2, updateAt_of_ne _ _ h', updateAt_self, updateAt_self]
  · rw [updateAt_of_ne _ _ hk]
    by_cases hk' : x = a' ∧ y = b'
    · rw [hk'.1, hk'.2, updateAt_self, updateAt_self]
    · rw [updateAt_of_ne _ _ hk', updateAt_of_ne _ _ hk, updateAt_of_ne _ _ hk']

end UpdateAt

/-! ### Links, and the tables of the channels -/

/-- `cell_direction_t`: `dirOut` is the side of `n_chan`, `dirIn` that of `p_chan`. -/
inductive CellDirection
  | dirIn
  | dirOut
  deriving DecidableEq

/-- `n_chan`, `n_circ_id` and `n_delete_pending` of a circuit, or the three fields
with `p_`.  A circuit that begins here has nothing on the side `dirIn`. -/
structure Link (Chan : Type*) where
  chan : Option Chan
  circId : UInt32
  deletePending : Bool

/-- What circuits and channels know of each other.  Circuits are numbers, in the
order of their allocation.  `chanCircidMap` has no entry, an entry without a
circuit, or an entry with one.  An entry of `cmux` has the circuit it was made
for.  `destroys` is no field of the source: it counts the DESTROY cells queued for
an id since it was last taken. -/
structure Wire (Chan : Type*) where
  link : ℕ → CellDirection → Link Chan
  chanCircidMap : Chan → UInt32 → Option (Option ℕ)
  cmux : Chan → UInt32 → Option ℕ
  destroyQueue : Chan → List UInt32
  condemned : Chan → Bool
  numCircuits : CellDirection → Chan → ℤ
  destroys : Chan → UInt32 → ℕ

namespace Wire

variable {Chan : Type*}

def initial : Wire Chan where
  link := fun _ _ => ⟨none, 0, false⟩
  chanCircidMap := fun _ _ => none
  cmux := fun _ _ => none
  destroyQueue := fun _ => []
  condemned := fun _ => false
  numCircuits := fun _ _ => 0
  destroys := fun _ _ => 0

def setLink (w : Wire Chan) (p : ℕ) (dir : CellDirection) (l : Link Chan) : Wire Chan :=
  { w with link := updateAt w.link p dir l }

def setDeletePending (w : Wire Chan) (p : ℕ) (dir : CellDirection) (pending : Bool) : Wire Chan :=
  w.setLink p dir { w.link p dir with deletePending := pending }

variable [DecidableEq Chan]

def setEntry (w : Wire Chan) (chan : Chan) (id : UInt32) (entry : Option (Option ℕ)) :
    Wire Chan :=
  { w with chanCircidMap := updateAt w.chanCircidMap chan id entry }

def addCircuits (w : Wire Chan) (dir : CellDirection) (chan : Chan) (n : ℤ) : Wire Chan :=
  { w with numCircuits := updateAt w.numCircuits dir chan (w.numCircuits dir chan + n) }

def take (w : Wire Chan) (chan : Chan) (id : UInt32) : Wire Chan :=
  { w with destroys := updateAt w.destroys chan id 0 }

end Wire

section Linked

variable {Chan : Type*}

def circuitGetByCircidChannel (w : Wire Chan) (chan : Chan) (id : UInt32) : Option ℕ :=
  (w.chanCircidMap chan id).join

def circuitIdInUseOnChannel (w : Wire Chan) (chan : Chan) (id : UInt32) : ℕ :=
  match w.chanCircidMap chan id with
  | some (some _) => 1
  | some none => 2
  | none => 0

/-! ### The map and the links agree -/

/-- `p` has `id` on `chan`, on the side `dir`. -/
def Attached (w : Wire Chan) (p : ℕ) (dir : CellDirection) (chan : Chan) (id : UInt32) : Prop :=
  (w.link p dir).chan = some chan ∧ (w.link p dir).circId = id

/-- A circuit is found under the ids it has, and under no others; no entry has the
id 0; a side without a channel has nothing set; and each channel knows how many
circuits it has. -/
structure Linked (w : Wire Chan) : Prop where
  entry : ∀ chan id p,
    circuitGetByCircidChannel w chan id = some p ↔ ∃ dir, Attached w p dir chan id
  side : ∀ {p dir dir' chan id},
    Attached w p dir chan id → Attached w p dir' chan id → dir = dir'
  entry_zero : ∀ chan, w.chanCircidMap chan 0 = none
  bare : ∀ {p dir}, (w.link p dir).chan = none → w.link p dir = ⟨none, 0, false⟩
  counted : ∀ dir chan, ∃ s : Finset ℕ, (∀ p, p ∈ s ↔ (w.link p dir).chan = some chan) ∧
    (s.card : ℤ) = w.numCircuits dir chan

/-- The same circuits have the same ids, and are found under them. -/
structure SameLinks (w w' : Wire Chan) : Prop where
  chan : ∀ p dir, (w'.link p dir).chan = (w.link p dir).chan
  circId : ∀ p dir, (w'.link p dir).circId = (w.link p dir).circId
  bare : ∀ p dir, (w.link p dir).chan = none → w'.link p dir = w.link p dir
  entry : ∀ chan id, circuitGetByCircidChannel w' chan id = circuitGetByCircidChannel w chan id
  entry_zero : ∀ chan, w.chanCircidMap chan 0 = none → w'.chanCircidMap chan 0 = none
  numCircuits : w'.numCircuits = w.numCircuits

theorem SameLinks.refl (w : Wire Chan) : SameLinks w w :=
  ⟨fun _ _ => rfl, fun _ _ => rfl, fun _ _ _ => rfl, fun _ _ => rfl, fun _ h => h, rfl⟩

theorem SameLinks.trans {w₁ w₂ w₃ : Wire Chan} (h : SameLinks w₁ w₂) (h' : SameLinks w₂ w₃) :
    SameLinks w₁ w₃ where
  chan p dir := (h'.chan p dir).trans (h.chan p dir)
  circId p dir := (h'.circId p dir).trans (h.circId p dir)
  bare p dir hn := (h'.bare p dir ((h.chan p dir).trans hn)).trans (h.bare p dir hn)
  entry chan id := (h'.entry chan id).trans (h.entry chan id)
  entry_zero chan hz := h'.entry_zero chan (h.entry_zero chan hz)
  numCircuits := h'.numCircuits.trans h.numCircuits

theorem SameLinks.attached {w w' : Wire Chan} (h : SameLinks w w') {p : ℕ} {dir : CellDirection}
    {chan : Chan} {id : UInt32} : Attached w' p dir chan id ↔ Attached w p dir chan id := by
  rw [Attached, Attached, h.chan, h.circId]

theorem Linked.congr {w w' : Wire Chan} (hw : Linked w) (h : SameLinks w w') : Linked w' where
  entry chan id p := by
    rw [h.entry, hw.entry]
    exact exists_congr fun dir => h.attached.symm
  side ha ha' := hw.side (h.attached.mp ha) (h.attached.mp ha')
  entry_zero chan := h.entry_zero chan (hw.entry_zero chan)
  bare {p dir} hn := by
    rw [h.chan] at hn
    rw [h.bare p dir hn]
    exact hw.bare hn
  counted dir chan := by
    obtain ⟨s, hs, hcard⟩ := hw.counted dir chan
    refine ⟨s, fun p => ?_, ?_⟩
    · rw [h.chan]
      exact hs p
    · rw [h.numCircuits]
      exact hcard

theorem Linked.initial : Linked (Wire.initial : Wire Chan) where
  entry chan id p := by
    constructor
    · intro h
      exact absurd h (by simp [circuitGetByCircidChannel, Wire.initial])
    · rintro ⟨dir, hchan, -⟩
      exact absurd hchan (by simp [Wire.initial])
  side ha := absurd ha.1 (by simp [Wire.initial])
  entry_zero _ := rfl
  bare _ := rfl
  counted dir chan := ⟨∅, by simp [Wire.initial], rfl⟩

theorem Linked.circId_ne_zero {w : Wire Chan} (hw : Linked w) {p : ℕ} {dir : CellDirection}
    {chan : Chan} {id : UInt32} (h : Attached w p dir chan id) : id ≠ 0 := by
  rintro rfl
  have hget := (hw.entry chan 0 p).mpr ⟨dir, h⟩
  rw [circuitGetByCircidChannel, hw.entry_zero] at hget
  exact absurd hget (by simp)

theorem Linked.get_eq {w : Wire Chan} (hw : Linked w) {p : ℕ} {dir : CellDirection} {chan : Chan}
    {id : UInt32} (h : Attached w p dir chan id) :
    circuitGetByCircidChannel w chan id = some p := (hw.entry chan id p).mpr ⟨dir, h⟩

theorem Linked.eq_of_attached {w : Wire Chan} (hw : Linked w) {p q : ℕ} {dir dir' : CellDirection}
    {chan : Chan} {id : UInt32} (h : Attached w p dir chan id) (h' : Attached w q dir' chan id) :
    q = p ∧ dir' = dir := by
  have hq : q = p := Option.some_inj.mp ((hw.get_eq h').symm.trans (hw.get_eq h))
  subst hq
  exact ⟨rfl, hw.side h' h⟩

theorem Attached.unique {w : Wire Chan} {p : ℕ} {dir : CellDirection} {chan chan' : Chan}
    {id id' : UInt32} (h : Attached w p dir chan id) (h' : Attached w p dir chan' id') :
    chan' = chan ∧ id' = id :=
  ⟨Option.some_inj.mp (h'.1.symm.trans h.1), h'.2.symm.trans h.2⟩

end Linked

variable {Chan : Type*} [DecidableEq Chan]

def circuitmuxAttachCircuit (chan : Chan) (id : UInt32) (p : ℕ) (w : Wire Chan) : Wire Chan :=
  { w with cmux :=
      if (w.cmux chan id).isSome then w.cmux else updateAt w.cmux chan id (some p) }

/-- The entry is looked for under `n_chan` and `n_circ_id` first. -/
def circuitmuxDetachCircuit (chan : Chan) (p : ℕ) (w : Wire Chan) : Wire Chan :=
  { w with cmux :=
      if (w.link p .dirOut).chan = some chan ∧
          (w.cmux chan (w.link p .dirOut).circId).isSome then
        updateAt w.cmux chan (w.link p .dirOut).circId none
      else if (w.link p .dirIn).chan = some chan then
        updateAt w.cmux chan (w.link p .dirIn).circId none
      else w.cmux }

/-! ### The map, and DESTROY cells -/

def channelMarkCircidUnusable (chan : Chan) (id : UInt32) (w : Wire Chan) : Wire Chan :=
  match w.chanCircidMap chan id with
  | some _ => w
  | none => w.setEntry chan id (some none)

def channelMarkCircidUsable (chan : Chan) (id : UInt32) (w : Wire Chan) : Wire Chan :=
  w.setEntry chan id none

def noteDelete (pending : Bool) (chan : Chan) (id : UInt32) (p : ℕ) (w : Wire Chan) : Wire Chan :=
  if (w.link p .dirOut).chan = some chan ∧ (w.link p .dirOut).circId = id then
    w.setDeletePending p .dirOut pending
  else if (w.link p .dirIn).chan = some chan ∧ (w.link p .dirIn).circId = id then
    w.setDeletePending p .dirIn pending
  else w

def channelNoteDestroyPending (chan : Chan) (id : UInt32) (w : Wire Chan) : Wire Chan :=
  match circuitGetByCircidChannel w chan id with
  | some p => noteDelete true chan id p w
  | none => channelMarkCircidUnusable chan id w

def channelNoteDestroyNotPending (chan : Chan) (id : UInt32) (w : Wire Chan) : Wire Chan :=
  match circuitGetByCircidChannel w chan id with
  | some p => noteDelete false chan id p w
  | none => channelMarkCircidUsable chan id w

def flushDestroy (chan : Chan) (w : Wire Chan) : Wire Chan :=
  match w.destroyQueue chan with
  | [] => w
  | id :: ids =>
    channelNoteDestroyNotPending chan id
      { w with destroyQueue := Function.update w.destroyQueue chan ids }

/-- `circuitmux_append_destroy_cell`.  `primed` says that the channel had nothing
to write, and that its circuitmux now picks the DESTROY queue. -/
def circuitmuxAppendDestroyCell (primed : Bool) (chan : Chan) (id : UInt32) (w : Wire Chan) :
    Wire Chan :=
  let w := { w with
    destroyQueue := Function.update w.destroyQueue chan (w.destroyQueue chan ++ [id])
    destroys := updateAt w.destroys chan id (w.destroys chan id + 1) }
  if primed then flushDestroy chan w else w

def channelSendDestroy (primed : Bool) (chan : Chan) (id : UInt32) (w : Wire Chan) : Wire Chan :=
  if id = 0 then w
  else if w.condemned chan then w
  else circuitmuxAppendDestroyCell primed chan id (channelNoteDestroyPending chan id w)

/-- What `circuit_set_circid_chan_helper` does about the channel the circuit had. -/
def leaveChan (markedForClose : Bool) (p : ℕ) (dir : CellDirection) (w : Wire Chan) : Wire Chan :=
  match (w.link p dir).chan with
  | none => w
  | some oldChan =>
    let oldId := (w.link p dir).circId
    let w := if oldId ≠ 0 ∧ !markedForClose then circuitmuxDetachCircuit oldChan p w else w
    let w := if (w.chanCircidMap oldChan oldId).isSome then w.addCircuits dir oldChan (-1) else w
    w.setEntry oldChan oldId none

def enterChan (markedForClose : Bool) (p : ℕ) (dir : CellDirection) (id : UInt32)
    (chan : Option Chan) (w : Wire Chan) : Wire Chan :=
  match chan with
  | none => w
  | some chan =>
    let w := w.setEntry chan id (some (some p))
    let w := if id ≠ 0 ∧ !markedForClose then circuitmuxAttachCircuit chan id p w else w
    w.addCircuits dir chan 1

def circuitSetCircidChanHelper (markedForClose : Bool) (p : ℕ) (dir : CellDirection) (id : UInt32)
    (chan : Option Chan) (w : Wire Chan) : Wire Chan :=
  let old := w.link p dir
  if id = old.circId ∧ chan = old.chan then w
  else
    enterChan markedForClose p dir id chan
      ((leaveChan markedForClose p dir w).setLink p dir { old with chan := chan, circId := id })

def circuitSetCircidChan (markedForClose : Bool) (p : ℕ) (dir : CellDirection) (id : UInt32)
    (chan : Option Chan) (w : Wire Chan) : Wire Chan :=
  let old := w.link p dir
  let w := circuitSetCircidChanHelper markedForClose p dir id chan w
  match old.chan with
  | none => w
  | some oldChan =>
    if (w.link p dir).deletePending then
      (channelMarkCircidUnusable oldChan old.circId w).setDeletePending p dir false
    else w

/-- `circ->n_chan = chan`, which the caller of `circuit_deliver_create_cell` does. -/
def setNChan (p : ℕ) (chan : Option Chan) (w : Wire Chan) : Wire Chan :=
  w.setLink p .dirOut { w.link p .dirOut with chan := chan }

/-! ### What the functions leave as it is -/

omit [DecidableEq Chan] in
theorem link_setDeletePending (w : Wire Chan) (p : ℕ) (dir : CellDirection) (pending : Bool)
    (q : ℕ) (dir' : CellDirection) :
    ((w.setDeletePending p dir pending).link q dir').chan = (w.link q dir').chan ∧
      ((w.setDeletePending p dir pending).link q dir').circId = (w.link q dir').circId := by
  by_cases h : q = p ∧ dir' = dir
  · obtain ⟨rfl, rfl⟩ := h
    simp [Wire.setDeletePending, Wire.setLink]
  · simp [Wire.setDeletePending, Wire.setLink, updateAt_of_ne _ _ h]

omit [DecidableEq Chan] in
theorem deletePending_setDeletePending (w : Wire Chan) (p : ℕ) (dir : CellDirection)
    (pending : Bool) :
    ((w.setDeletePending p dir pending).link p dir).deletePending = pending := by
  simp [Wire.setDeletePending, Wire.setLink]

omit [DecidableEq Chan] in
theorem sameLinks_setDeletePending (w : Wire Chan) {p : ℕ} {dir : CellDirection} {chan : Chan}
    {id : UInt32} (pending : Bool) (h : Attached w p dir chan id) :
    SameLinks w (w.setDeletePending p dir pending) where
  chan q dir' := (link_setDeletePending w p dir pending q dir').1
  circId q dir' := (link_setDeletePending w p dir pending q dir').2
  bare q dir' hn := by
    refine updateAt_of_ne _ _ ?_
    rintro ⟨rfl, rfl⟩
    exact absurd (hn.symm.trans h.1) (by simp)
  entry _ _ := rfl
  entry_zero _ hz := hz
  numCircuits := rfl

theorem noteDelete_eq (pending : Bool) (chan : Chan) (id : UInt32) (p : ℕ) (w : Wire Chan) :
    noteDelete pending chan id p w = w ∨
      ∃ dir, Attached w p dir chan id ∧
        noteDelete pending chan id p w = w.setDeletePending p dir pending := by
  rw [noteDelete]
  by_cases hout : (w.link p .dirOut).chan = some chan ∧ (w.link p .dirOut).circId = id
  · rw [if_pos hout]
    exact .inr ⟨_, hout, rfl⟩
  · rw [if_neg hout]
    by_cases hin : (w.link p .dirIn).chan = some chan ∧ (w.link p .dirIn).circId = id
    · rw [if_pos hin]
      exact .inr ⟨_, hin, rfl⟩
    · rw [if_neg hin]
      exact .inl rfl

theorem sameLinks_noteDelete (pending : Bool) (chan : Chan) (id : UInt32) (p : ℕ)
    (w : Wire Chan) : SameLinks w (noteDelete pending chan id p w) := by
  rcases noteDelete_eq pending chan id p w with h | ⟨dir, ha, h⟩
  · rw [h]
    exact .refl w
  · rw [h]
    exact sameLinks_setDeletePending w pending ha

theorem entry_setEntry_self (w : Wire Chan) (chan : Chan) (id : UInt32)
    (entry : Option (Option ℕ)) : (w.setEntry chan id entry).chanCircidMap chan id = entry :=
  updateAt_self ..

theorem entry_setEntry_of_ne (w : Wire Chan) {chan chan' : Chan} {id id' : UInt32}
    (entry : Option (Option ℕ)) (h : ¬ (chan' = chan ∧ id' = id)) :
    (w.setEntry chan id entry).chanCircidMap chan' id' = w.chanCircidMap chan' id' :=
  updateAt_of_ne _ _ h

theorem sameLinks_setEntry {w : Wire Chan} {chan : Chan} {id : UInt32}
    {entry : Option (Option ℕ)} (h : circuitGetByCircidChannel w chan id = entry.join)
    (hzero : id = 0 → entry = none) : SameLinks w (w.setEntry chan id entry) where
  chan _ _ := rfl
  circId _ _ := rfl
  bare _ _ _ := rfl
  entry chan' id' := by
    by_cases hk : chan' = chan ∧ id' = id
    · obtain ⟨rfl, rfl⟩ := hk
      rw [h, circuitGetByCircidChannel, entry_setEntry_self]
    · rw [circuitGetByCircidChannel, entry_setEntry_of_ne _ _ hk, circuitGetByCircidChannel]
  entry_zero chan' hz := by
    by_cases hk : chan' = chan ∧ 0 = id
    · rw [hk.1, hk.2, entry_setEntry_self]
      exact hzero hk.2.symm
    · rw [entry_setEntry_of_ne _ _ hk]
      exact hz
  numCircuits := rfl

theorem sameLinks_markCircidUnusable (chan : Chan) {id : UInt32} (hid : id ≠ 0) (w : Wire Chan) :
    SameLinks w (channelMarkCircidUnusable chan id w) := by
  rw [channelMarkCircidUnusable]
  split
  · exact .refl w
  · rename_i hnone
    exact sameLinks_setEntry (by rw [circuitGetByCircidChannel, hnone]; rfl) fun h => absurd h hid

theorem sameLinks_markCircidUsable {chan : Chan} {id : UInt32} {w : Wire Chan}
    (h : circuitGetByCircidChannel w chan id = none) :
    SameLinks w (channelMarkCircidUsable chan id w) := sameLinks_setEntry h fun _ => rfl

theorem sameLinks_noteDestroyPending (chan : Chan) {id : UInt32} (hid : id ≠ 0) (w : Wire Chan) :
    SameLinks w (channelNoteDestroyPending chan id w) := by
  rw [channelNoteDestroyPending]
  split
  · exact sameLinks_noteDelete ..
  · exact sameLinks_markCircidUnusable chan hid w

theorem sameLinks_noteDestroyNotPending (chan : Chan) (id : UInt32) (w : Wire Chan) :
    SameLinks w (channelNoteDestroyNotPending chan id w) := by
  rw [channelNoteDestroyNotPending]
  split
  · exact sameLinks_noteDelete ..
  · rename_i hnone
    exact sameLinks_markCircidUsable hnone

omit [DecidableEq Chan] in
theorem sameLinks_queue (w : Wire Chan) (queue : Chan → List UInt32)
    (destroys : Chan → UInt32 → ℕ) :
    SameLinks w { w with destroyQueue := queue, destroys := destroys } :=
  ⟨fun _ _ => rfl, fun _ _ => rfl, fun _ _ _ => rfl, fun _ _ => rfl, fun _ h => h, rfl⟩

omit [DecidableEq Chan] in
theorem sameLinks_cmux (w : Wire Chan) (cmux : Chan → UInt32 → Option ℕ) :
    SameLinks w { w with cmux := cmux } :=
  ⟨fun _ _ => rfl, fun _ _ => rfl, fun _ _ _ => rfl, fun _ _ => rfl, fun _ h => h, rfl⟩

theorem sameLinks_flushDestroy (chan : Chan) (w : Wire Chan) :
    SameLinks w (flushDestroy chan w) := by
  rw [flushDestroy]
  split
  · exact .refl w
  · rename_i id ids hqueue
    have hpop : SameLinks w { w with destroyQueue := Function.update w.destroyQueue chan ids } :=
      sameLinks_queue w (Function.update w.destroyQueue chan ids) w.destroys
    exact hpop.trans (sameLinks_noteDestroyNotPending chan id _)

theorem sameLinks_sendDestroy (primed : Bool) (chan : Chan) (id : UInt32) (w : Wire Chan) :
    SameLinks w (channelSendDestroy primed chan id w) := by
  rw [channelSendDestroy]
  by_cases hid : id = 0
  · rw [if_pos hid]
    exact .refl w
  · rw [if_neg hid]
    by_cases hcond : w.condemned chan = true
    · rw [if_pos hcond]
      exact .refl w
    · rw [if_neg hcond]
      refine (sameLinks_noteDestroyPending chan hid w).trans ?_
      generalize channelNoteDestroyPending chan id w = v
      rw [circuitmuxAppendDestroyCell]
      have happend : SameLinks v { v with
          destroyQueue := Function.update v.destroyQueue chan (v.destroyQueue chan ++ [id])
          destroys := updateAt v.destroys chan id (v.destroys chan id + 1) } :=
        sameLinks_queue v _ _
      cases primed with
      | false => exact happend
      | true => exact happend.trans (sameLinks_flushDestroy chan _)

/-! ### Detaching a circuit -/

/-- What it is to take `p` off the channel it has on the side `dir`, where it is
attached to `chan` as `id`. -/
structure Cleared (markedForClose : Bool) (p : ℕ) (dir : CellDirection) (chan : Chan)
    (id : UInt32) (w w' : Wire Chan) : Prop where
  link : w'.link = updateAt w.link p dir ⟨none, 0, false⟩
  chanCircidMap : w'.chanCircidMap = updateAt w.chanCircidMap chan id
    (if (w.link p dir).deletePending then some none else none)
  cmux : w'.cmux = if markedForClose then w.cmux else (circuitmuxDetachCircuit chan p w).cmux
  numCircuits : w'.numCircuits = updateAt w.numCircuits dir chan (w.numCircuits dir chan + -1)
  destroyQueue : w'.destroyQueue = w.destroyQueue
  condemned : w'.condemned = w.condemned
  destroys : w'.destroys = w.destroys

/-- What it is to give `p`, which has no channel on the side `dir`, the free `id` on `chan`. -/
structure Opened (markedForClose : Bool) (p : ℕ) (dir : CellDirection) (chan : Chan)
    (id : UInt32) (w w' : Wire Chan) : Prop where
  link : w'.link = updateAt w.link p dir ⟨some chan, id, false⟩
  chanCircidMap : w'.chanCircidMap = updateAt w.chanCircidMap chan id (some (some p))
  cmux : w'.cmux = if markedForClose then w.cmux else (circuitmuxAttachCircuit chan id p w).cmux
  numCircuits : w'.numCircuits = updateAt w.numCircuits dir chan (w.numCircuits dir chan + 1)
  destroyQueue : w'.destroyQueue = w.destroyQueue
  condemned : w'.condemned = w.condemned
  destroys : w'.destroys = w.destroys

theorem leaveChan_eq (markedForClose : Bool) {p : ℕ} {dir : CellDirection} {chan : Chan}
    {id : UInt32} {w : Wire Chan} (h : Attached w p dir chan id) :
    leaveChan markedForClose p dir w =
      ({ w with
          cmux := if id ≠ 0 ∧ !markedForClose then (circuitmuxDetachCircuit chan p w).cmux
            else w.cmux
          numCircuits := if (w.chanCircidMap chan id).isSome then
              updateAt w.numCircuits dir chan (w.numCircuits dir chan + -1)
            else w.numCircuits }).setEntry chan id none := by
  rw [leaveChan]
  simp only [h.1, h.2]
  have hcmux : (if id ≠ 0 ∧ !markedForClose then circuitmuxDetachCircuit chan p w else w) =
      { w with cmux := if id ≠ 0 ∧ !markedForClose then (circuitmuxDetachCircuit chan p w).cmux
          else w.cmux } := by
    by_cases hd : id ≠ 0 ∧ !markedForClose
    · rw [if_pos hd, if_pos hd]
      rfl
    · rw [if_neg hd, if_neg hd]
  rw [hcmux]
  generalize (if id ≠ 0 ∧ !markedForClose then (circuitmuxDetachCircuit chan p w).cmux
    else w.cmux) = f
  refine congrArg (fun v => Wire.setEntry v chan id none) ?_
  by_cases hfound : (w.chanCircidMap chan id).isSome = true
  · rw [if_pos hfound, if_pos hfound]
    rfl
  · rw [if_neg hfound, if_neg hfound]

theorem enterChan_eq (markedForClose : Bool) (p : ℕ) (dir : CellDirection) {chan : Chan}
    {id : UInt32} (hid : id ≠ 0) (w : Wire Chan) :
    enterChan markedForClose p dir id (some chan) w =
      ({ w with
          cmux := if markedForClose then w.cmux else (circuitmuxAttachCircuit chan id p w).cmux
          numCircuits := updateAt w.numCircuits dir chan (w.numCircuits dir chan + 1)
          }).setEntry chan id (some (some p)) := by
  rw [enterChan]
  cases markedForClose with
  | true =>
    rw [if_neg (by simp), if_pos rfl]
    rfl
  | false =>
    rw [if_pos ⟨hid, rfl⟩, if_neg (by simp)]
    rfl

theorem circuitSetCircidChan_of_none (markedForClose : Bool) {p : ℕ} {dir : CellDirection}
    {w : Wire Chan} (h : w.link p dir = ⟨none, 0, false⟩) :
    circuitSetCircidChan markedForClose p dir 0 none w = w := by
  rw [circuitSetCircidChan, circuitSetCircidChanHelper]
  simp only [h, and_self, if_true]

omit [DecidableEq Chan] in
theorem Linked.entry_isSome {w : Wire Chan} (hw : Linked w) {p : ℕ} {dir : CellDirection}
    {chan : Chan} {id : UInt32} (h : Attached w p dir chan id) :
    (w.chanCircidMap chan id).isSome = true := by
  have hget := hw.get_eq h
  rw [circuitGetByCircidChannel] at hget
  rcases hmap : w.chanCircidMap chan id with _ | e
  · rw [hmap] at hget
    exact absurd hget (by simp)
  · rfl

theorem cleared (markedForClose : Bool) {p : ℕ} {dir : CellDirection} {chan : Chan}
    {id : UInt32} {w : Wire Chan} (hw : Linked w) (h : Attached w p dir chan id) :
    Cleared markedForClose p dir chan id w
      (circuitSetCircidChan markedForClose p dir 0 none w) := by
  have hid := hw.circId_ne_zero h
  have hfound := hw.entry_isSome h
  have hcmux : (if id ≠ 0 ∧ !markedForClose then (circuitmuxDetachCircuit chan p w).cmux
      else w.cmux) = if markedForClose then w.cmux else (circuitmuxDetachCircuit chan p w).cmux := by
    cases markedForClose with
    | true => rw [if_neg (by simp), if_pos rfl]
    | false => rw [if_pos ⟨hid, rfl⟩, if_neg (by simp)]
  have hleave := leaveChan_eq markedForClose h
  rw [hcmux, if_pos hfound] at hleave
  -- there is no new channel to enter, so only the leaving is done
  have hhelper : circuitSetCircidChanHelper markedForClose p dir 0 none w =
      (leaveChan markedForClose p dir w).setLink p dir
        { w.link p dir with chan := none, circId := 0 } := by
    rw [circuitSetCircidChanHelper]
    dsimp only
    rw [if_neg (by rw [h.1]; simp)]
    rfl
  rw [circuitSetCircidChan]
  simp only [h.1, h.2]
  rw [hhelper, hleave]
  set v := ({ w with
      cmux := if markedForClose then w.cmux else (circuitmuxDetachCircuit chan p w).cmux
      numCircuits := updateAt w.numCircuits dir chan
        (w.numCircuits dir chan + -1) }).setEntry chan id none with hv
  set u := v.setLink p dir { w.link p dir with chan := none, circId := 0 } with hu
  have hlink : u.link p dir = { w.link p dir with chan := none, circId := 0 } := updateAt_self ..
  have hentry : u.chanCircidMap chan id = none := entry_setEntry_self ..
  rw [hlink]
  -- an identifier with a DESTROY pending stays unusable after the circuit has left
  by_cases hpending : (w.link p dir).deletePending = true
  · rw [if_pos hpending, channelMarkCircidUnusable, hentry]
    refine ⟨?_, ?_, rfl, rfl, rfl, rfl, rfl⟩
    · show updateAt u.link p dir { u.link p dir with deletePending := false } = _
      rw [hlink]
      exact updateAt_updateAt ..
    · rw [if_pos hpending]
      exact updateAt_updateAt ..
  · rw [if_neg hpending]
    refine ⟨?_, ?_, rfl, rfl, rfl, rfl, rfl⟩
    · show updateAt w.link p dir ⟨none, 0, (w.link p dir).deletePending⟩ = _
      rw [Bool.eq_false_iff.mpr hpending]
    · rw [if_neg hpending]
      rfl

theorem opened (markedForClose : Bool) {p : ℕ} {dir : CellDirection} {chan : Chan} {id : UInt32}
    {w : Wire Chan} (hid : id ≠ 0) (h : w.link p dir = ⟨none, 0, false⟩) :
    Opened markedForClose p dir chan id w
      (circuitSetCircidChan markedForClose p dir id (some chan) w) := by
  have hset : circuitSetCircidChan markedForClose p dir id (some chan) w =
      enterChan markedForClose p dir id (some chan)
        (w.setLink p dir ⟨some chan, id, false⟩) := by
    rw [circuitSetCircidChan, circuitSetCircidChanHelper, leaveChan]
    simp only [h]
    rw [if_neg (by simp [hid])]
  rw [hset, enterChan_eq markedForClose p dir hid]
  exact ⟨rfl, rfl, rfl, rfl, rfl, rfl, rfl⟩

theorem setEntry_eq_self {w : Wire Chan} {chan : Chan} {id : UInt32}
    {entry : Option (Option ℕ)} (h : w.chanCircidMap chan id = entry) :
    w.setEntry chan id entry = w := by
  rw [Wire.setEntry, updateAt_eq_self h]

theorem opened_deliver {p : ℕ} {chan : Chan} {id : UInt32} {w : Wire Chan} (hw : Linked w)
    (hid : id ≠ 0) (h : w.link p .dirOut = ⟨none, 0, false⟩) :
    Opened false p .dirOut chan id w
      (circuitSetCircidChan false p .dirOut id (some chan) (setNChan p (some chan) w)) := by
  have haim : setNChan p (some chan) w = w.setLink p .dirOut ⟨some chan, 0, false⟩ := by
    rw [setNChan, h]
  set v := setNChan p (some chan) w with hv
  have hlink : v.link p .dirOut = ⟨some chan, 0, false⟩ := by
    rw [haim]
    exact updateAt_self ..
  have ha : Attached v p .dirOut chan 0 := by
    rw [Attached, hlink]
    exact ⟨rfl, rfl⟩
  -- the circuit has no identifier yet, so there is nothing to leave
  have hzero : v.chanCircidMap chan 0 = none := hw.entry_zero chan
  have hleave : leaveChan false p .dirOut v = v := by
    rw [leaveChan_eq false ha, if_neg (by simp), hzero, if_neg (by simp)]
    exact setEntry_eq_self hzero
  have hset : circuitSetCircidChan false p .dirOut id (some chan) v =
      enterChan false p .dirOut id (some chan) (v.setLink p .dirOut ⟨some chan, id, false⟩) := by
    have hpending : ((enterChan false p .dirOut id (some chan)
        (v.setLink p .dirOut ⟨some chan, id, false⟩)).link p .dirOut).deletePending = false := by
      rw [enterChan_eq false p .dirOut hid]
      exact congrArg Link.deletePending (updateAt_self ..)
    have hhelper : circuitSetCircidChanHelper false p .dirOut id (some chan) v =
        enterChan false p .dirOut id (some chan)
          (v.setLink p .dirOut ⟨some chan, id, false⟩) := by
      rw [circuitSetCircidChanHelper, hleave, hlink]
      exact if_neg fun hk => hid hk.1
    rw [circuitSetCircidChan, hlink]
    simp only
    rw [hhelper, hpending, if_neg (by simp)]
  rw [hset, enterChan_eq false p .dirOut hid]
  refine ⟨?_, rfl, rfl, rfl, rfl, rfl, rfl⟩
  rw [haim]
  exact updateAt_updateAt ..

theorem cmux_attachCircuit_congr {w w' : Wire Chan} (h : w'.cmux = w.cmux) (chan : Chan)
    (id : UInt32) (p : ℕ) :
    (circuitmuxAttachCircuit chan id p w').cmux = (circuitmuxAttachCircuit chan id p w).cmux := by
  rw [circuitmuxAttachCircuit, circuitmuxAttachCircuit, h]

theorem moved (markedForClose : Bool) {p : ℕ} {dir : CellDirection} {chan chan' : Chan}
    {id id' : UInt32} {w : Wire Chan} (hw : Linked w) (h : Attached w p dir chan id)
    (hid : id' ≠ 0) (hne : ¬ (chan' = chan ∧ id' = id)) :
    Opened markedForClose p dir chan' id' (circuitSetCircidChan markedForClose p dir 0 none w)
      (circuitSetCircidChan markedForClose p dir id' (some chan') w) := by
  have hcleared := cleared markedForClose hw h
  generalize circuitSetCircidChan markedForClose p dir 0 none w = w₁ at hcleared ⊢
  obtain ⟨hlink₁, hmap₁, hcmux₁, hnum₁, hqueue₁, hcond₁, hdestroys₁⟩ := hcleared
  have hold : w.link p dir = ⟨some chan, id, (w.link p dir).deletePending⟩ := by
    rw [← h.1, ← h.2]
  set pending := (w.link p dir).deletePending with hpending
  set u := (leaveChan markedForClose p dir w).setLink p dir ⟨some chan', id', pending⟩ with hu
  set v := enterChan markedForClose p dir id' (some chan') u with hv
  have hhelper : circuitSetCircidChanHelper markedForClose p dir id' (some chan') w = v := by
    rw [circuitSetCircidChanHelper, hold]
    refine if_neg ?_
    rintro ⟨hid', hchan'⟩
    exact hne ⟨Option.some_inj.mp hchan', hid'⟩
  -- What the two halves of the helper do, field by field.
  have hleave := leaveChan_eq markedForClose h
  have hcmux : (if id ≠ 0 ∧ !markedForClose then (circuitmuxDetachCircuit chan p w).cmux
      else w.cmux) = if markedForClose then w.cmux else (circuitmuxDetachCircuit chan p w).cmux := by
    cases markedForClose with
    | true => rw [if_neg (by simp), if_pos rfl]
    | false => rw [if_pos ⟨hw.circId_ne_zero h, rfl⟩, if_neg (by simp)]
  rw [hcmux, if_pos (hw.entry_isSome h)] at hleave
  have hcmux_u : u.cmux = w₁.cmux := by
    rw [hcmux₁, hu, hleave]
    rfl
  have hnum_u : u.numCircuits = w₁.numCircuits := by
    rw [hnum₁, hu, hleave]
    rfl
  have hmap_u : u.chanCircidMap = updateAt w.chanCircidMap chan id none := by
    rw [hu, hleave]
    rfl
  have hlink_u : u.link = updateAt w.link p dir ⟨some chan', id', pending⟩ := by
    rw [hu, hleave]
    rfl
  have henter : v = ({ u with
      cmux := if markedForClose then u.cmux else (circuitmuxAttachCircuit chan' id' p u).cmux
      numCircuits := updateAt u.numCircuits dir chan' (u.numCircuits dir chan' + 1)
      }).setEntry chan' id' (some (some p)) := enterChan_eq markedForClose p dir hid u
  have hlink_v : v.link = updateAt w.link p dir ⟨some chan', id', pending⟩ := by
    rw [henter]
    exact hlink_u
  have hmap_v : v.chanCircidMap =
      updateAt (updateAt w.chanCircidMap chan id none) chan' id' (some (some p)) := by
    rw [henter, ← hmap_u]
    rfl
  have hcmux_v : v.cmux = if markedForClose then
      w₁.cmux else (circuitmuxAttachCircuit chan' id' p w₁).cmux := by
    rw [henter, ← hcmux_u, ← cmux_attachCircuit_congr hcmux_u]
    rfl
  have hnum_v : v.numCircuits =
      updateAt w₁.numCircuits dir chan'
        (w₁.numCircuits dir chan' + 1) := by
    rw [henter, ← hnum_u]
    rfl
  have hrest : v.destroyQueue = w.destroyQueue ∧ v.condemned = w.condemned ∧
      v.destroys = w.destroys := by
    rw [henter, hu, hleave]
    exact ⟨rfl, rfl, rfl⟩
  rw [circuitSetCircidChan, hold, hhelper]
  simp only
  rw [show (v.link p dir).deletePending = pending by rw [hlink_v, updateAt_self]]
  cases hp : pending with
  | false =>
    rw [if_neg (by simp)]
    refine ⟨?_, ?_, hcmux_v, hnum_v, hrest.1.trans hqueue₁.symm, hrest.2.1.trans hcond₁.symm,
      hrest.2.2.trans hdestroys₁.symm⟩
    · rw [hlink_v, hlink₁, updateAt_updateAt, hp]
    · rw [hmap_v, hmap₁, hp, if_neg (by simp)]
  | true =>
    have hgone : v.chanCircidMap chan id = none := by
      rw [hmap_v, updateAt_of_ne _ _ fun hk => hne ⟨hk.1.symm, hk.2.symm⟩, updateAt_self]
    rw [if_pos rfl, channelMarkCircidUnusable, hgone]
    refine ⟨?_, ?_, hcmux_v, hnum_v, hrest.1.trans hqueue₁.symm, hrest.2.1.trans hcond₁.symm,
      hrest.2.2.trans hdestroys₁.symm⟩
    · show updateAt v.link p dir { v.link p dir with deletePending := false } = _
      rw [hlink_v, updateAt_self, updateAt_updateAt, hlink₁, updateAt_updateAt]
    · show updateAt v.chanCircidMap chan id (some none) = _
      rw [hmap_v, updateAt_comm _ _ _ fun hk => hne ⟨hk.1.symm, hk.2.symm⟩, updateAt_updateAt,
        hmap₁, hp, if_pos rfl]

/-! ### The invariant is kept -/

omit [DecidableEq Chan] in
theorem attached_updateAt {w w' : Wire Chan} {p : ℕ} {dir : CellDirection} {l : Link Chan}
    (h : w'.link = updateAt w.link p dir l) {q : ℕ} {dir' : CellDirection} {chan : Chan}
    {id : UInt32} :
    Attached w' q dir' chan id ↔
      (if q = p ∧ dir' = dir then l.chan = some chan ∧ l.circId = id
        else Attached w q dir' chan id) := by
  rw [Attached, h]
  by_cases hq : q = p ∧ dir' = dir
  · rw [if_pos hq, hq.1, hq.2, updateAt_self]
  · rw [if_neg hq, updateAt_of_ne _ _ hq, Attached]

theorem get_updateAt {w w' : Wire Chan} {chan : Chan} {id : UInt32} {e : Option (Option ℕ)}
    (h : w'.chanCircidMap = updateAt w.chanCircidMap chan id e) (chan' : Chan) (id' : UInt32) :
    circuitGetByCircidChannel w' chan' id' =
      if chan' = chan ∧ id' = id then e.join else circuitGetByCircidChannel w chan' id' := by
  rw [circuitGetByCircidChannel, h]
  by_cases hk : chan' = chan ∧ id' = id
  · rw [if_pos hk, hk.1, hk.2, updateAt_self]
  · rw [if_neg hk, updateAt_of_ne _ _ hk, circuitGetByCircidChannel]

theorem Cleared.attached {markedForClose : Bool} {p : ℕ} {dir : CellDirection} {chan : Chan}
    {id : UInt32} {w w' : Wire Chan} (h : Cleared markedForClose p dir chan id w w') {q : ℕ}
    {dir' : CellDirection} {chan' : Chan} {id' : UInt32} :
    Attached w' q dir' chan' id' ↔ Attached w q dir' chan' id' ∧ ¬ (q = p ∧ dir' = dir) := by
  rw [attached_updateAt h.link]
  by_cases hq : q = p ∧ dir' = dir
  · simp [hq]
  · simp [hq]

theorem Cleared.get {markedForClose : Bool} {p : ℕ} {dir : CellDirection} {chan : Chan}
    {id : UInt32} {w w' : Wire Chan} (h : Cleared markedForClose p dir chan id w w')
    (chan' : Chan) (id' : UInt32) :
    circuitGetByCircidChannel w' chan' id' =
      if chan' = chan ∧ id' = id then none else circuitGetByCircidChannel w chan' id' := by
  rw [get_updateAt h.chanCircidMap]
  cases (w.link p dir).deletePending <;> rfl

theorem Cleared.linked {markedForClose : Bool} {p : ℕ} {dir : CellDirection} {chan : Chan}
    {id : UInt32} {w w' : Wire Chan} (h : Cleared markedForClose p dir chan id w w')
    (ha : Attached w p dir chan id) (hw : Linked w) : Linked w' where
  entry chan' id' q := by
    rw [h.get]
    by_cases hk : chan' = chan ∧ id' = id
    · rw [if_pos hk]
      obtain ⟨rfl, rfl⟩ := hk
      constructor
      · intro hq
        exact absurd hq (by simp)
      · -- the entry was that of `p` alone, by the invariant
        rintro ⟨dir', hq⟩
        have hq := h.attached.mp hq
        exact absurd (hw.eq_of_attached ha hq.1) hq.2
    · rw [if_neg hk, hw.entry]
      constructor
      · rintro ⟨dir', hq⟩
        refine ⟨dir', h.attached.mpr ⟨hq, ?_⟩⟩
        rintro ⟨rfl, rfl⟩
        exact hk (ha.unique hq)
      · rintro ⟨dir', hq⟩
        exact ⟨dir', (h.attached.mp hq).1⟩
  side hq hq' := hw.side (h.attached.mp hq).1 (h.attached.mp hq').1
  entry_zero chan' := by
    rw [h.chanCircidMap, updateAt_of_ne _ _ fun hk => hw.circId_ne_zero ha hk.2.symm]
    exact hw.entry_zero chan'
  bare {q dir'} hq := by
    rw [h.link] at hq ⊢
    by_cases hk : q = p ∧ dir' = dir
    · rw [hk.1, hk.2, updateAt_self]
    · rw [updateAt_of_ne _ _ hk] at hq ⊢
      exact hw.bare hq
  counted dir' chan' := by
    obtain ⟨s, hs, hcard⟩ := hw.counted dir' chan'
    rw [h.numCircuits, h.link]
    by_cases hk : dir' = dir ∧ chan' = chan
    · obtain ⟨rfl, rfl⟩ := hk
      -- one circuit fewer on this side of the channel
      have hp : p ∈ s := (hs p).mpr ha.1
      refine ⟨s.erase p, fun q => ?_, ?_⟩
      · rw [Finset.mem_erase, hs]
        by_cases hq : q = p
        · rw [hq, updateAt_self]
          simp
        · rw [updateAt_of_ne _ _ fun hk => hq hk.1]
          simp [hq]
      · rw [updateAt_self, ← hcard, ← Finset.card_erase_add_one hp]
        push_cast
        ring
    · rw [updateAt_of_ne _ _ hk]
      refine ⟨s, fun q => ?_, hcard⟩
      rw [hs]
      by_cases hq : q = p ∧ dir' = dir
      · obtain ⟨rfl, rfl⟩ := hq
        rw [updateAt_self, ha.1]
        simp only [reduceCtorEq, iff_false, Option.some_inj]
        rintro rfl
        exact hk ⟨rfl, rfl⟩
      · rw [updateAt_of_ne _ _ hq]

theorem Opened.attached {markedForClose : Bool} {p : ℕ} {dir : CellDirection} {chan : Chan}
    {id : UInt32} {w w' : Wire Chan} (h : Opened markedForClose p dir chan id w w')
    (hnone : (w.link p dir).chan = none) {q : ℕ} {dir' : CellDirection} {chan' : Chan}
    {id' : UInt32} :
    Attached w' q dir' chan' id' ↔
      Attached w q dir' chan' id' ∨ ((q = p ∧ dir' = dir) ∧ chan' = chan ∧ id' = id) := by
  rw [attached_updateAt h.link]
  by_cases hq : q = p ∧ dir' = dir
  · obtain ⟨rfl, rfl⟩ := hq
    have hno : ¬ Attached w q dir' chan' id' := fun ha => by simp [Attached, hnone] at ha
    simp [hno, eq_comm]
  · simp [hq]

theorem Opened.linked {markedForClose : Bool} {p : ℕ} {dir : CellDirection} {chan : Chan}
    {id : UInt32} {w w' : Wire Chan} (h : Opened markedForClose p dir chan id w w')
    (hw : Linked w) (hid : id ≠ 0) (hnone : (w.link p dir).chan = none)
    (hfree : circuitGetByCircidChannel w chan id = none) : Linked w' := by
  -- the identifier was free
  have hnew : ∀ {q dir'}, ¬ Attached w q dir' chan id := fun ha => by
    simpa [hfree] using hw.get_eq ha
  have hiff {q dir' chan' id'} : Attached w' q dir' chan' id' ↔
      Attached w q dir' chan' id' ∨ ((q = p ∧ dir' = dir) ∧ chan' = chan ∧ id' = id) :=
    h.attached hnone
  constructor
  · intro chan' id' q
    rw [get_updateAt h.chanCircidMap]
    by_cases hk : chan' = chan ∧ id' = id
    · rw [if_pos hk]
      obtain ⟨rfl, rfl⟩ := hk
      constructor
      · intro hq
        rw [← Option.some_inj.mp hq]
        exact ⟨dir, hiff.mpr (.inr ⟨⟨rfl, rfl⟩, rfl, rfl⟩)⟩
      · rintro ⟨dir', ha⟩
        rcases hiff.mp ha with ha | ⟨⟨rfl, -⟩, -⟩
        · exact absurd ha hnew
        · rfl
    · rw [if_neg hk, hw.entry]
      constructor
      · rintro ⟨dir', ha⟩
        exact ⟨dir', hiff.mpr (.inl ha)⟩
      · rintro ⟨dir', ha⟩
        rcases hiff.mp ha with ha | ⟨-, hk'⟩
        · exact ⟨dir', ha⟩
        · exact absurd hk' hk
  · intro q dir₁ dir₂ chan' id' h₁ h₂
    rcases hiff.mp h₁ with h₁ | ⟨⟨rfl, rfl⟩, rfl, rfl⟩
    · rcases hiff.mp h₂ with h₂ | ⟨⟨rfl, rfl⟩, rfl, rfl⟩
      · exact hw.side h₁ h₂
      · exact absurd h₁ hnew
    · rcases hiff.mp h₂ with h₂ | ⟨⟨-, rfl⟩, -, -⟩
      · exact absurd h₂ hnew
      · rfl
  · intro chan'
    rw [h.chanCircidMap, updateAt_of_ne _ _ fun hk => hid hk.2.symm]
    exact hw.entry_zero chan'
  · intro q dir' hq
    rw [h.link] at hq ⊢
    by_cases hk : q = p ∧ dir' = dir
    · rw [hk.1, hk.2, updateAt_self] at hq
      exact absurd hq (by simp)
    · rw [updateAt_of_ne _ _ hk] at hq ⊢
      exact hw.bare hq
  · intro dir' chan'
    obtain ⟨s, hs, hcard⟩ := hw.counted dir' chan'
    rw [h.numCircuits, h.link]
    by_cases hk : dir' = dir ∧ chan' = chan
    · obtain ⟨rfl, rfl⟩ := hk
      -- one circuit more on this side of the channel
      have hp : p ∉ s := fun hp => by simpa [hnone] using (hs p).mp hp
      refine ⟨insert p s, fun q => ?_, ?_⟩
      · rw [Finset.mem_insert, hs]
        by_cases hq : q = p
        · rw [hq, updateAt_self]
          simp
        · rw [updateAt_of_ne _ _ fun hk => hq hk.1]
          simp [hq]
      · rw [updateAt_self, Finset.card_insert_of_notMem hp, ← hcard]
        push_cast
        rfl
    · rw [updateAt_of_ne _ _ hk]
      refine ⟨s, fun q => ?_, hcard⟩
      rw [hs]
      by_cases hq : q = p ∧ dir' = dir
      · obtain ⟨rfl, rfl⟩ := hq
        rw [updateAt_self, hnone]
        simp only [reduceCtorEq, false_iff, Option.some_inj]
        rintro rfl
        exact hk ⟨rfl, rfl⟩
      · rw [updateAt_of_ne _ _ hq]

theorem Linked.clear {w : Wire Chan} (hw : Linked w) (markedForClose : Bool) (p : ℕ)
    (dir : CellDirection) : Linked (circuitSetCircidChan markedForClose p dir 0 none w) := by
  rcases hchan : (w.link p dir).chan with _ | chan
  · rw [circuitSetCircidChan_of_none markedForClose (hw.bare hchan)]
    exact hw
  · have ha : Attached w p dir chan (w.link p dir).circId := ⟨hchan, rfl⟩
    exact (cleared markedForClose hw ha).linked ha hw

omit [DecidableEq Chan] in
theorem get_eq_none_of_free {w : Wire Chan} {chan : Chan} {id : UInt32}
    (h : circuitIdInUseOnChannel w chan id = 0) : w.chanCircidMap chan id = none := by
  rw [circuitIdInUseOnChannel] at h
  split at h
  · exact absurd h (by simp)
  · exact absurd h (by simp)
  · assumption

theorem Linked.set {w : Wire Chan} (hw : Linked w) (markedForClose : Bool) (p : ℕ)
    (dir : CellDirection) {chan : Chan} {id : UInt32} (hid : id ≠ 0)
    (hfree : w.chanCircidMap chan id = none) :
    Linked (circuitSetCircidChan markedForClose p dir id (some chan) w) := by
  have hget : circuitGetByCircidChannel w chan id = none := by
    rw [circuitGetByCircidChannel, hfree]
    rfl
  rcases hchan : (w.link p dir).chan with _ | chan'
  · exact (opened markedForClose hid (hw.bare hchan)).linked hw hid hchan hget
  · have ha : Attached w p dir chan' (w.link p dir).circId := ⟨hchan, rfl⟩
    have hne : ¬ (chan = chan' ∧ id = (w.link p dir).circId) := by
      rintro ⟨rfl, rfl⟩
      simpa [hget] using hw.get_eq ha
    have hclear := cleared markedForClose hw ha
    refine (moved markedForClose hw ha hid hne).linked (hclear.linked ha hw) hid ?_ ?_
    · rw [hclear.link, updateAt_self]
    · rw [hclear.get, if_neg hne]
      exact hget

theorem Linked.deliver {w : Wire Chan} (hw : Linked w) {p : ℕ} {chan : Chan} {id : UInt32}
    (hid : id ≠ 0) (hchan : (w.link p .dirOut).chan = none)
    (hfree : w.chanCircidMap chan id = none) :
    Linked (circuitSetCircidChan false p .dirOut id (some chan) (setNChan p (some chan) w)) := by
  refine (opened_deliver hw hid (hw.bare hchan)).linked hw hid hchan ?_
  rw [circuitGetByCircidChannel, hfree]
  rfl

/-! ### Runs -/

/-- What is done to the map: an id for a circuit, whether it comes with a CREATE cell or
is moved (`setCircidChan`) or is picked for one (`deliver`); no id any more; an id marked;
a DESTROY queued, or written; a circuit freed. -/
inductive MapOp (Chan : Type*)
  | setCircidChan (markedForClose : Bool) (p : ℕ) (dir : CellDirection) (id : UInt32)
      (chan : Chan)
  | deliver (p : ℕ) (id : UInt32) (chan : Chan)
  | clearCircidChan (markedForClose : Bool) (p : ℕ) (dir : CellDirection)
  | markUnusable (chan : Chan) (id : UInt32)
  | markUsable (chan : Chan) (id : UInt32)
  | sendDestroy (primed : Bool) (chan : Chan) (id : UInt32)
  | flushDestroy (chan : Chan)
  | free (markedForClose : Bool) (p : ℕ)

/-- `circuit_free_`, as far as it concerns the map. -/
def circuitFree (markedForClose : Bool) (p : ℕ) (w : Wire Chan) : Wire Chan :=
  circuitSetCircidChan markedForClose p .dirOut 0 none
    (circuitSetCircidChan markedForClose p .dirIn 0 none w)

/-- What the callers see to: an id is asked about before it is given to a circuit, it is
not 0, and it is marked usable if no circuit has it. -/
def MapOp.enabled (w : Wire Chan) : MapOp Chan → Prop
  | .setCircidChan _ _ _ id chan => id ≠ 0 ∧ circuitIdInUseOnChannel w chan id = 0
  | .deliver p id chan =>
    id ≠ 0 ∧ (w.link p .dirOut).chan = none ∧ circuitIdInUseOnChannel w chan id = 0
  | .markUnusable _ id => id ≠ 0
  | .markUsable chan id => circuitGetByCircidChannel w chan id = none
  | _ => True

def MapOp.apply (w : Wire Chan) : MapOp Chan → Wire Chan
  | .setCircidChan markedForClose p dir id chan =>
    circuitSetCircidChan markedForClose p dir id (some chan) w
  | .deliver p id chan =>
    circuitSetCircidChan false p .dirOut id (some chan) (setNChan p (some chan) w)
  | .clearCircidChan markedForClose p dir => circuitSetCircidChan markedForClose p dir 0 none w
  | .markUnusable chan id => channelMarkCircidUnusable chan id w
  | .markUsable chan id => channelMarkCircidUsable chan id w
  | .sendDestroy primed chan id => channelSendDestroy primed chan id w
  | .flushDestroy chan => CircidMap.flushDestroy chan w
  | .free markedForClose p => circuitFree markedForClose p w

variable (Chan) in
def circidMap : System (Wire Chan) (MapOp Chan) where
  init w := w = .initial
  step w op w' := op.enabled w ∧ w' = op.apply w

theorem linked_apply {w : Wire Chan} (hw : Linked w) {op : MapOp Chan} (h : op.enabled w) :
    Linked (op.apply w) := by
  cases op with
  | setCircidChan markedForClose p dir id chan =>
    exact hw.set markedForClose p dir h.1 (get_eq_none_of_free h.2)
  | deliver p id chan => exact hw.deliver h.1 h.2.1 (get_eq_none_of_free h.2.2)
  | clearCircidChan markedForClose p dir => exact hw.clear markedForClose p dir
  | markUnusable chan id => exact hw.congr (sameLinks_markCircidUnusable chan h w)
  | markUsable chan id => exact hw.congr (sameLinks_markCircidUsable h)
  | sendDestroy primed chan id => exact hw.congr (sameLinks_sendDestroy primed chan id w)
  | flushDestroy chan => exact hw.congr (sameLinks_flushDestroy chan w)
  | free markedForClose p => exact (hw.clear markedForClose p .dirIn).clear markedForClose p .dirOut

theorem linked_inductive (ok : Wire Chan → MapOp Chan → Prop) :
    Inductive (circidMap Chan) ok Linked where
  init := by
    rintro w rfl
    exact .initial
  step := by
    rintro w op w' hw - ⟨hop, rfl⟩
    exact linked_apply hw hop

/-- In every run the map agrees with the circuits: each id a circuit has is found to be
its own and no other's, what is found is what the circuit has, and the counts of the
channels are those of the circuits attached on that side. -/
theorem circidMap_agrees {w : Wire Chan} (h : Reached (circidMap Chan) (fun _ _ => True) w) :
    (∀ p dir chan id, Attached w p dir chan id →
      circuitGetByCircidChannel w chan id = some p ∧
        ∀ q dir', Attached w q dir' chan id → q = p ∧ dir' = dir) ∧
    (∀ chan id p, circuitGetByCircidChannel w chan id = some p →
      ∃ dir, Attached w p dir chan id) ∧
    ∀ dir chan, ∃ s : Finset ℕ, (∀ p, p ∈ s ↔ ∃ id, Attached w p dir chan id) ∧
      (s.card : ℤ) = w.numCircuits dir chan := by
  have hw : Linked w := h.invariant (linked_inductive _)
  refine ⟨fun p dir chan id ha => ⟨hw.get_eq ha, fun q dir' ha' => hw.eq_of_attached ha ha'⟩,
    fun chan id p hget => (hw.entry chan id p).mp hget, fun dir chan => ?_⟩
  obtain ⟨s, hs, hcard⟩ := hw.counted dir chan
  refine ⟨s, fun p => ?_, hcard⟩
  rw [hs]
  constructor
  · intro hchan
    exact ⟨_, hchan, rfl⟩
  · rintro ⟨id, hchan, -⟩
    exact hchan

theorem circidMap_agrees_oneCircuit :
    circuitGetByCircidChannel
      (circuitSetCircidChan false 0 .dirIn 5 (some true) Wire.initial) true 5 = some 0 := by
  have hstep : (circidMap Bool).step Wire.initial (.setCircidChan false 0 .dirIn 5 true)
      (circuitSetCircidChan false 0 .dirIn 5 (some true) Wire.initial) :=
    ⟨⟨by decide, rfl⟩, rfl⟩
  have h : Reached (circidMap Bool) (fun _ _ => True)
      (circuitSetCircidChan false 0 .dirIn 5 (some true) Wire.initial) :=
    .step (.init rfl) trivial hstep
  exact ((circidMap_agrees h).1 0 .dirIn true 5 ⟨by decide, by decide⟩).1

end CircidMap
