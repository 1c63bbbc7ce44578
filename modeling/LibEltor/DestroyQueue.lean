/-
DESTROY cells and the ids they are for (`core/or/circuitlist.c`, `core/or/channel.c`,
`core/or/circuitmux.c`, `feature/control/control_teardowncircuit.c`).

A DESTROY cell waits in the queue of its channel.  Until it is written its id must not
go to another circuit: while a circuit still has the id a flag says so, and when the
circuit leaves the channel an entry without a circuit stays in the map.  There is room
for one such note, so there must be one DESTROY cell at most.
-/
import LibEltor.ControlTeardowncircuit

open CircidMap CircuitBuild Circuitlist ControlTeardowncircuit Transition

namespace DestroyQueue

variable {Chan : Type*} [DecidableEq Chan] {w w' : Wire Chan}

/-- It is noted that a DESTROY cell for `id` waits on `chan`, or that it does so no more. -/
structure Noted (pending : Bool) (chan : Chan) (id : UInt32) (w w' : Wire Chan) : Prop where
  destroyQueue : w'.destroyQueue = w.destroyQueue
  destroys : w'.destroys = w.destroys
  links : SameLinks w w'
  flag : ∀ {q dir' chan' id'}, Attached w q dir' chan' id' → (w'.link q dir').deletePending =
    if chan' = chan ∧ id' = id then pending else (w.link q dir').deletePending
  entry : ∀ {chan' id'}, ¬ (chan' = chan ∧ id' = id) →
    w'.chanCircidMap chan' id' = w.chanCircidMap chan' id'

theorem noteDelete_of_attached (hw : Linked w) (pending : Bool) {p : ℕ} {dir : CellDirection}
    {chan : Chan} {id : UInt32} (ha : Attached w p dir chan id) :
    noteDelete pending chan id p w = w.setDeletePending p dir pending := by
  rw [noteDelete]
  cases dir with
  | dirOut => exact if_pos ha
  | dirIn =>
    have hout : ¬ Attached w p .dirOut chan id := fun hout =>
      absurd (hw.side ha hout) (by decide)
    exact (if_neg hout).trans (if_pos ha)

theorem noted_setDeletePending (hw : Linked w) (pending : Bool) {p : ℕ} {dir : CellDirection}
    {chan : Chan} {id : UInt32} (ha : Attached w p dir chan id) :
    Noted pending chan id w (w.setDeletePending p dir pending) where
  destroyQueue := rfl
  destroys := rfl
  links := sameLinks_setDeletePending w pending ha
  flag {q dir' chan' id'} hq := by
    by_cases hk : chan' = chan ∧ id' = id
    · obtain ⟨rfl, rfl⟩ := hk
      obtain ⟨rfl, rfl⟩ := hw.eq_of_attached ha hq
      rw [if_pos ⟨rfl, rfl⟩, deletePending_setDeletePending]
    · rw [if_neg hk]
      have hne : ¬ (q = p ∧ dir' = dir) := by
        rintro ⟨rfl, rfl⟩
        exact hk (ha.unique hq)
      exact congrArg Link.deletePending (updateAt_of_ne _ _ hne)
  entry _ := rfl

theorem noted_setEntry (hw : Linked w) (pending : Bool) {chan : Chan} {id : UInt32}
    {entry : Option (Option ℕ)} (hget : circuitGetByCircidChannel w chan id = none)
    (hentry : entry.join = none) (hzero : id = 0 → entry = none) :
    Noted pending chan id w (w.setEntry chan id entry) where
  destroyQueue := rfl
  destroys := rfl
  links := sameLinks_setEntry (hget.trans hentry.symm) hzero
  flag {q dir' chan' id'} hq := by
    rw [if_neg]
    · rfl
    · rintro ⟨rfl, rfl⟩
      rw [hw.get_eq hq] at hget
      cases hget
  entry hk := entry_setEntry_of_ne _ _ hk

theorem noted_pending (hw : Linked w) {chan : Chan} {id : UInt32} (hid : id ≠ 0) :
    Noted true chan id w (channelNoteDestroyPending chan id w) ∧
      ((channelNoteDestroyPending chan id w).chanCircidMap chan id).isSome = true := by
  rw [channelNoteDestroyPending]
  rcases hget : circuitGetByCircidChannel w chan id with _ | p
  · dsimp only
    rw [channelMarkCircidUnusable]
    rcases hentry : w.chanCircidMap chan id with _ | entry
    · exact ⟨noted_setEntry hw true hget rfl fun hz => absurd hz hid,
        by rw [entry_setEntry_self]; rfl⟩
    · have hself : w.setEntry chan id (some entry) = w := setEntry_eq_self hentry
      have hjoin : (some entry).join = none := by
        rw [← hentry]
        exact hget
      have hnoted := noted_setEntry hw true hget hjoin fun hz => absurd hz hid
      rw [hself] at hnoted
      exact ⟨hnoted, by rw [hentry]; rfl⟩
  · obtain ⟨dir, ha⟩ := (hw.entry chan id p).mp hget
    dsimp only
    rw [noteDelete_of_attached hw true ha]
    exact ⟨noted_setDeletePending hw true ha, hw.entry_isSome ha⟩

theorem noted_notPending (hw : Linked w) (chan : Chan) (id : UInt32) :
    Noted false chan id w (channelNoteDestroyNotPending chan id w) := by
  rw [channelNoteDestroyNotPending]
  rcases hget : circuitGetByCircidChannel w chan id with _ | p
  · exact noted_setEntry hw false hget rfl fun _ => rfl
  · obtain ⟨dir, ha⟩ := (hw.entry chan id p).mp hget
    dsimp only
    rw [noteDelete_of_attached hw false ha]
    exact noted_setDeletePending hw false ha

/-! ### One DESTROY cell for each id -/

/-- A DESTROY cell that waits is noted with the circuit that has the id, if there is one,
and its id is in the map; it is the only one that was queued since the id was taken. -/
structure Queued (w : Wire Chan) : Prop where
  nodup : ∀ chan, (w.destroyQueue chan).Nodup
  flag : ∀ {p dir chan id}, Attached w p dir chan id →
    ((w.link p dir).deletePending = true ↔ id ∈ w.destroyQueue chan)
  entry : ∀ {chan id}, id ∈ w.destroyQueue chan → (w.chanCircidMap chan id).isSome = true
  counted : ∀ {chan id}, id ∈ w.destroyQueue chan → w.destroys chan id = 1
  once : ∀ chan id, w.destroys chan id ≤ 1

omit [DecidableEq Chan] in
theorem Queued.congr (h : Queued w) (hlink : w'.link = w.link)
    (hmap : w'.chanCircidMap = w.chanCircidMap) (hqueue : w'.destroyQueue = w.destroyQueue)
    (hdestroys : w'.destroys = w.destroys) : Queued w' := by
  refine ⟨?_, ?_, ?_, ?_, ?_⟩
  · rw [hqueue]
    exact h.nodup
  · intro p dir chan id ha
    rw [Attached, hlink] at ha
    rw [hlink, hqueue]
    exact h.flag ha
  · rw [hqueue, hmap]
    exact h.entry
  · rw [hqueue, hdestroys]
    exact h.counted
  · rw [hdestroys]
    exact h.once

theorem Queued.flushDestroy (h : Queued w) (hw : Linked w) (chan : Chan) :
    Queued (flushDestroy chan w) := by
  rw [CircidMap.flushDestroy]
  rcases hqueue : w.destroyQueue chan with _ | ⟨id, ids⟩
  · exact h
  · dsimp only
    set v := { w with destroyQueue := Function.update w.destroyQueue chan ids } with hv
    have hvw : Linked v := hw.congr (sameLinks_queue w _ _)
    have hnoted := noted_notPending hvw chan id
    have hnodup := h.nodup chan
    rw [hqueue] at hnodup
    obtain ⟨hgone, hids⟩ := List.nodup_cons.mp hnodup
    -- What waits now waited before, and is not the cell that was written.
    have hmem (chan' : Chan) (id' : UInt32) : id' ∈ v.destroyQueue chan' ↔
        id' ∈ w.destroyQueue chan' ∧ ¬ (chan' = chan ∧ id' = id) := by
      show id' ∈ Function.update w.destroyQueue chan ids chan' ↔ _
      by_cases hchan : chan' = chan
      · subst hchan
        rw [Function.update_self, hqueue, List.mem_cons]
        constructor
        · intro hid
          refine ⟨.inr hid, ?_⟩
          rintro ⟨-, rfl⟩
          exact hgone hid
        · rintro ⟨hid, hne⟩
          exact hid.resolve_left fun heq => hne ⟨rfl, heq⟩
      · rw [Function.update_of_ne hchan]
        simp [hchan]
    refine ⟨fun chan' => ?_, fun {p dir chan' id'} ha => ?_, fun {chan' id'} hid => ?_,
      fun {chan' id'} hid => ?_, ?_⟩
    · rw [hnoted.destroyQueue]
      show (Function.update w.destroyQueue chan ids chan').Nodup
      by_cases hchan : chan' = chan
      · subst hchan
        rwa [Function.update_self]
      · rw [Function.update_of_ne hchan]
        exact h.nodup chan'
    · have ha' := hnoted.links.attached.mp ha
      rw [hnoted.flag ha', hnoted.destroyQueue, hmem]
      split
      · rename_i hk
        simp [hk]
      · rename_i hk
        rw [and_iff_left hk]
        exact h.flag ha'
    · rw [hnoted.destroyQueue, hmem] at hid
      rw [hnoted.entry hid.2]
      exact h.entry hid.1
    · rw [hnoted.destroyQueue, hmem] at hid
      rw [hnoted.destroys]
      exact h.counted hid.1
    · rw [hnoted.destroys]
      exact h.once

theorem destroys_flushDestroy (hw : Linked w) (chan : Chan) :
    (flushDestroy chan w).destroys = w.destroys := by
  rw [flushDestroy]
  split
  · rfl
  · rename_i id ids _
    have hlinked := hw.congr
      (sameLinks_queue w (Function.update w.destroyQueue chan ids) w.destroys)
    exact (noted_notPending hlinked chan id).destroys

/-- What is known of the count of the DESTROY cells when one is sent. -/
structure Sent (chan : Chan) (id : UInt32) (w w' : Wire Chan) : Prop where
  links : SameLinks w w'
  destroys : ∀ {chan' id'}, ¬ (chan' = chan ∧ id' = id) → w'.destroys chan' id' = w.destroys chan' id'

theorem Queued.sendDestroy (h : Queued w) (hw : Linked w) (primed : Bool) {chan : Chan}
    {id : UInt32} (hfirst : w.destroys chan id = 0) :
    Queued (channelSendDestroy primed chan id w) ∧
      Sent chan id w (channelSendDestroy primed chan id w) := by
  have hlinks := sameLinks_sendDestroy primed chan id w
  rw [channelSendDestroy] at hlinks ⊢
  by_cases hid : id = 0
  · rw [if_pos hid]
    exact ⟨h, .refl w, fun _ => rfl⟩
  rw [if_neg hid] at hlinks ⊢
  by_cases hcond : w.condemned chan = true
  · rw [if_pos hcond]
    exact ⟨h, .refl w, fun _ => rfl⟩
  rw [if_neg hcond, circuitmuxAppendDestroyCell] at hlinks ⊢
  obtain ⟨hnoted, hsome⟩ := noted_pending hw hid
  generalize channelNoteDestroyPending chan id w = u at hnoted hsome hlinks ⊢
  set v : Wire Chan := { u with
    destroyQueue := Function.update u.destroyQueue chan (u.destroyQueue chan ++ [id])
    destroys := updateAt u.destroys chan id (u.destroys chan id + 1) } with hv
  -- A cell that waits has been counted, so none waits for this id.
  have habsent : id ∉ w.destroyQueue chan := by
    intro hin
    rw [h.counted hin] at hfirst
    exact absurd hfirst (by decide)
  have hmem (chan' : Chan) (id' : UInt32) : id' ∈ v.destroyQueue chan' ↔
      id' ∈ w.destroyQueue chan' ∨ (chan' = chan ∧ id' = id) := by
    show id' ∈ Function.update u.destroyQueue chan (u.destroyQueue chan ++ [id]) chan' ↔ _
    rw [hnoted.destroyQueue]
    by_cases hchan : chan' = chan
    · subst hchan
      simp
    · rw [Function.update_of_ne hchan]
      simp [hchan]
  have hdestroys (chan' : Chan) (id' : UInt32) : v.destroys chan' id' =
      if chan' = chan ∧ id' = id then 1 else w.destroys chan' id' := by
    show updateAt u.destroys chan id (u.destroys chan id + 1) chan' id' = _
    rw [hnoted.destroys, hfirst, updateAt]
  have huv : SameLinks u v := sameLinks_queue u _ _
  -- The cell is in the queue, and nothing has been written yet.
  have hqueued : Queued v := by
    refine ⟨fun chan' => ?_, fun {p dir chan' id'} ha => ?_, fun {chan' id'} hin => ?_,
      fun {chan' id'} hin => ?_, fun chan' id' => ?_⟩
    · show (Function.update u.destroyQueue chan (u.destroyQueue chan ++ [id]) chan').Nodup
      rw [hnoted.destroyQueue]
      by_cases hchan : chan' = chan
      · subst hchan
        rw [Function.update_self, List.nodup_append]
        refine ⟨h.nodup chan', List.nodup_singleton id, fun a ha b hb => ?_⟩
        rw [List.mem_singleton.mp hb]
        exact ne_of_mem_of_not_mem ha habsent
      · rw [Function.update_of_ne hchan]
        exact h.nodup chan'
    · have ha' := (hnoted.links.trans huv).attached.mp ha
      rw [hmem, show (v.link p dir).deletePending = (u.link p dir).deletePending from rfl,
        hnoted.flag ha']
      split
      · rename_i hk
        exact iff_of_true rfl (.inr hk)
      · rename_i hk
        rw [or_iff_left hk]
        exact h.flag ha'
    · show (u.chanCircidMap chan' id').isSome = true
      by_cases hk : chan' = chan ∧ id' = id
      · rw [hk.1, hk.2]
        exact hsome
      · rw [hnoted.entry hk]
        exact h.entry (((hmem chan' id').mp hin).resolve_right hk)
    · rw [hdestroys]
      split
      · rfl
      · rename_i hk
        exact h.counted (((hmem chan' id').mp hin).resolve_right hk)
    · rw [hdestroys]
      split
      · exact Nat.le_refl 1
      · exact h.once chan' id'
  have hsent : ∀ {chan' id'}, ¬ (chan' = chan ∧ id' = id) →
      v.destroys chan' id' = w.destroys chan' id' := fun hk => by rw [hdestroys, if_neg hk]
  cases primed with
  | false => exact ⟨hqueued, hlinks, hsent⟩
  | true =>
    -- The channel had nothing to write, so the first cell goes out at once.
    have hvw := hw.congr (hnoted.links.trans huv)
    refine ⟨hqueued.flushDestroy hvw chan, hlinks, fun hk => ?_⟩
    show (CircidMap.flushDestroy chan v).destroys _ _ = _
    rw [destroys_flushDestroy hvw, hsent hk]

theorem Queued.clear (h : Queued w) (hw : Linked w) (markedForClose : Bool) (p : ℕ)
    (dir : CellDirection) : Queued (circuitSetCircidChan markedForClose p dir 0 none w) := by
  rcases hchan : (w.link p dir).chan with _ | chan
  · rw [circuitSetCircidChan_of_none markedForClose (hw.bare hchan)]
    exact h
  · have ha : Attached w p dir chan (w.link p dir).circId := ⟨hchan, rfl⟩
    have hclear := cleared markedForClose hw ha
    refine ⟨?_, fun {q dir' chan' id'} hq => ?_, fun {chan' id'} hin => ?_, ?_, ?_⟩
    · rw [hclear.destroyQueue]
      exact h.nodup
    · obtain ⟨hq, hne⟩ := hclear.attached.mp hq
      rw [hclear.link, updateAt_of_ne _ _ hne, hclear.destroyQueue]
      exact h.flag hq
    · rw [hclear.destroyQueue] at hin
      rw [hclear.chanCircidMap, updateAt]
      split
      · rename_i hk
        obtain ⟨rfl, rfl⟩ := hk
        -- The flag of the circuit becomes a placeholder.
        rw [(h.flag ha).mpr hin]
        rfl
      · exact h.entry hin
    · rw [hclear.destroyQueue, hclear.destroys]
      exact h.counted
    · rw [hclear.destroys]
      exact h.once

theorem Queued.take (h : Queued w) {chan : Chan} {id : UInt32}
    (hfree : w.chanCircidMap chan id = none) :
    Queued (w.take chan id) ∧ (w.take chan id).destroys chan id = 0 := by
  have habsent : id ∉ w.destroyQueue chan := fun hin => by
    have hentry := h.entry hin
    rw [hfree] at hentry
    cases hentry
  refine ⟨⟨h.nodup, h.flag, h.entry, fun {chan' id'} hin => ?_, fun chan' id' => ?_⟩,
    updateAt_self ..⟩
  · have hne : ¬ (chan' = chan ∧ id' = id) := by
      rintro ⟨rfl, rfl⟩
      exact habsent hin
    exact (updateAt_of_ne _ _ hne).trans (h.counted hin)
  · show updateAt w.destroys chan id 0 chan' id' ≤ 1
    rw [updateAt]
    split
    · exact Nat.zero_le 1
    · exact h.once chan' id'

theorem Queued.opened {p : ℕ} {dir : CellDirection} {chan : Chan} {id : UInt32} (h : Queued w)
    (hopened : Opened false p dir chan id w w') (hnone : (w.link p dir).chan = none)
    (hfree : w.chanCircidMap chan id = none) : Queued w' := by
  have habsent : id ∉ w.destroyQueue chan := fun hin => by
    have hentry := h.entry hin
    rw [hfree] at hentry
    cases hentry
  refine ⟨?_, fun {q dir' chan' id'} hq => ?_, fun {chan' id'} hin => ?_, ?_, ?_⟩
  · rw [hopened.destroyQueue]
    exact h.nodup
  · rw [hopened.destroyQueue, hopened.link]
    rcases (hopened.attached hnone).mp hq with hq | ⟨⟨rfl, rfl⟩, rfl, rfl⟩
    · have hne : ¬ (q = p ∧ dir' = dir) := by
        rintro ⟨rfl, rfl⟩
        cases hnone.symm.trans hq.1
      rw [updateAt_of_ne _ _ hne]
      exact h.flag hq
    · rw [updateAt_self]
      exact iff_of_false (by simp) habsent
  · rw [hopened.destroyQueue] at hin
    rw [hopened.chanCircidMap, updateAt]
    split
    · rfl
    · exact h.entry hin
  · rw [hopened.destroyQueue, hopened.destroys]
    exact h.counted
  · rw [hopened.destroys]
    exact h.once

/-! ### Ids that circuits have -/

/-- And no DESTROY cell has been sent for an id that a circuit has. -/
structure Clean (w : Wire Chan) : Prop where
  queued : Queued w
  unsent : ∀ {p dir chan id}, Attached w p dir chan id → w.destroys chan id = 0

omit [DecidableEq Chan] in
theorem Clean.congr (h : Clean w) (hlink : w'.link = w.link)
    (hmap : w'.chanCircidMap = w.chanCircidMap) (hqueue : w'.destroyQueue = w.destroyQueue)
    (hdestroys : w'.destroys = w.destroys) : Clean w' := by
  refine ⟨h.queued.congr hlink hmap hqueue hdestroys, fun ha => ?_⟩
  rw [Attached, hlink] at ha
  rw [hdestroys]
  exact h.unsent ha

theorem destroys_clear (hw : Linked w) (markedForClose : Bool) (p : ℕ) (dir : CellDirection) :
    (circuitSetCircidChan markedForClose p dir 0 none w).destroys = w.destroys := by
  rcases hchan : (w.link p dir).chan with _ | chan
  · rw [circuitSetCircidChan_of_none markedForClose (hw.bare hchan)]
  · exact (cleared markedForClose hw ⟨hchan, rfl⟩).destroys

theorem Clean.clear (h : Clean w) (hw : Linked w) (markedForClose : Bool) (p : ℕ)
    (dir : CellDirection) : Clean (circuitSetCircidChan markedForClose p dir 0 none w) := by
  refine ⟨h.queued.clear hw markedForClose p dir, fun ha => ?_⟩
  rw [destroys_clear hw]
  exact h.unsent ((attached_clear hw).mp ha).1

theorem Clean.flushDestroy (h : Clean w) (hw : Linked w) (chan : Chan) :
    Clean (flushDestroy chan w) := by
  refine ⟨h.queued.flushDestroy hw chan, fun ha => ?_⟩
  rw [destroys_flushDestroy hw]
  exact h.unsent ((sameLinks_flushDestroy chan w).attached.mp ha)

theorem Clean.sendAndClear (h : Clean w) (hw : Linked w) (primed markedForClose : Bool) {p : ℕ}
    {dir : CellDirection} {chan : Chan} {id : UInt32} (ha : Attached w p dir chan id)
    (cmux : Chan → UInt32 → Option ℕ) :
    Clean (circuitSetCircidChan markedForClose p dir 0 none
      { channelSendDestroy primed chan id w with cmux := cmux }) := by
  obtain ⟨hqueued, hsent⟩ := h.queued.sendDestroy hw primed (h.unsent ha)
  set v : Wire Chan := { channelSendDestroy primed chan id w with cmux := cmux } with hv
  have hlinks : SameLinks w v := hsent.links.trans (sameLinks_cmux _ cmux)
  have hvw := hw.congr hlinks
  have hvq : Queued v := hqueued.congr rfl rfl rfl rfl
  refine ⟨hvq.clear hvw markedForClose p dir, fun {q dir' chan' id'} hq => ?_⟩
  rw [destroys_clear hvw]
  obtain ⟨hq, hne⟩ := (attached_clear hvw).mp hq
  have hq' := hlinks.attached.mp hq
  have hk : ¬ (chan' = chan ∧ id' = id) := by
    -- The one circuit that had the id has left the channel.
    rintro ⟨rfl, rfl⟩
    exact hne (hw.eq_of_attached ha hq')
  exact (hsent.destroys hk).trans (h.unsent hq')

theorem Clean.refuse (h : Clean w) (hw : Linked w) (primed : Bool) {chan : Chan} {id : UInt32}
    (hget : circuitGetByCircidChannel w chan id = none) (hfirst : w.destroys chan id = 0) :
    Clean (channelSendDestroy primed chan id w) := by
  obtain ⟨hqueued, hsent⟩ := h.queued.sendDestroy hw primed hfirst
  refine ⟨hqueued, fun {q dir chan' id'} hq => ?_⟩
  have hq' := hsent.links.attached.mp hq
  have hk : ¬ (chan' = chan ∧ id' = id) := by
    rintro ⟨rfl, rfl⟩
    cases hget.symm.trans (hw.get_eq hq')
  exact (hsent.destroys hk).trans (h.unsent hq')

theorem Clean.take (h : Clean w) {chan : Chan} {id : UInt32}
    (hfree : w.chanCircidMap chan id = none) : Clean (w.take chan id) := by
  refine ⟨(h.queued.take hfree).1, fun {p dir chan' id'} ha => ?_⟩
  show updateAt w.destroys chan id 0 chan' id' = 0
  rw [updateAt]
  split
  · rfl
  · exact h.unsent ha

theorem Clean.opened {p : ℕ} {dir : CellDirection} {chan : Chan} {id : UInt32} (h : Clean w)
    (hopened : Opened false p dir chan id w w') (hnone : (w.link p dir).chan = none)
    (hfree : w.chanCircidMap chan id = none) (hfirst : w.destroys chan id = 0) : Clean w' := by
  refine ⟨h.queued.opened hopened hnone hfree, fun {q dir' chan' id'} hq => ?_⟩
  rw [hopened.destroys]
  rcases (hopened.attached hnone).mp hq with hq | ⟨-, rfl, rfl⟩
  · exact h.unsent hq
  · exact hfirst

/-! ### The steps -/

section
variable {s : State Chan} {live isOrigin : ℕ → Bool}

theorem Clean.leaveChannel (h : Clean w) (hw : Linked w) (markedForClose primed : Bool) (p : ℕ)
    (dir : CellDirection) : Clean (leaveChannel markedForClose primed p dir w) := by
  rw [Circuitlist.leaveChannel]
  rcases hchan : (w.link p dir).chan with _ | chan
  · exact h
  · dsimp only
    have ha : Attached w p dir chan (w.link p dir).circId := ⟨hchan, rfl⟩
    split
    · have hdetach : Clean (circuitmuxDetachCircuit chan p w) := h.congr rfl rfl rfl rfl
      -- On a channel that is closing no cell is sent.
      exact hdetach.clear (hw.congr (sameLinks_cmux w _)) markedForClose p dir
    · exact h.sendAndClear hw primed markedForClose ha _

theorem Clean.closedWire {c : Circuit} {p : ℕ} (h : Clean w) (hw : Homed live isOrigin w)
    (primed : CellDirection → Bool) : Clean (closedWire c primed p w) := by
  have hout := h.leaveChannel hw.linked c.markedForClose (primed .dirOut) p .dirOut
  have hout' := (hw.leaveChannel c.markedForClose (primed .dirOut) p .dirOut).1
  rw [Circuitlist.closedWire]
  generalize Circuitlist.leaveChannel c.markedForClose (primed .dirOut) p .dirOut w = w₁
    at hout hout'
  cases c.isOrigin with
  | true =>
    simp only [if_true]
    exact hout.clear hout'.linked _ p .dirOut
  | false =>
    simp only [Bool.false_eq_true, if_false]
    have hin := hout.leaveChannel hout'.linked c.markedForClose (primed .dirIn) p .dirIn
    have hin' := (hout'.leaveChannel c.markedForClose (primed .dirIn) p .dirIn).1
    exact (hin.clear hin'.linked _ p .dirIn).clear (hin'.clear _ p .dirIn).linked _ p .dirOut

theorem Clean.circuitCloseAllMarked {lost : Prop} (h : Clean s.wire) (hs : Sound lost s)
    (primed : ℕ → CellDirection → Bool) : Clean (circuitCloseAllMarked primed s).wire := by
  obtain ⟨s', hs', heq, -⟩ := hs.waiting.listed.circuitCloseAllMarked primed
    (P := fun _ s' => Homed s'.live (fun p => (s'.circ p).isOrigin) s'.wire ∧ Clean s'.wire)
    (fun p _ i j s' _ ⟨hhomed, hclean⟩ =>
      ⟨hhomed.closedWire rfl (primed p), hclean.closedWire hhomed (primed p)⟩)
    ⟨hs.homed, h⟩
  rw [heq]
  exact hs'.2

theorem Clean.commandProcessCreateCell {lost : Prop} (h : Clean s.wire) (hs : Sound lost s)
    (refused primed : Bool) (id : UInt32) (chan : Chan) :
    Clean (commandProcessCreateCell refused primed id chan s).wire := by
  rw [ControlTeardowncircuit.commandProcessCreateCell]
  by_cases hid : id = 0
  · rw [if_pos hid]
    exact h
  rw [if_neg hid]
  by_cases hused : circuitIdInUseOnChannel s.wire chan id ≠ 0
  · rw [if_pos hused]
    exact h
  rw [if_neg hused]
  have hfree : s.wire.chanCircidMap chan id = none := get_eq_none_of_free (not_not.mp hused)
  have htake := h.take hfree
  have hlinked := hs.homed.linked.congr (sameLinks_take s.wire chan id)
  have hfirst := (h.queued.take hfree).2
  dsimp only
  cases refused with
  | true =>
    refine htake.refuse hlinked primed ?_ hfirst
    show (s.wire.chanCircidMap chan id).join = none
    rw [hfree]
    rfl
  | false =>
    rw [if_neg (by decide), orCircuitNew_eq, (sameWire_circuitSetState ..).wire]
    have hnone : (s.wire.link s.allocated .dirIn).chan = none := by
      by_contra hchan
      have hlive := hs.homed.live _ .dirIn hchan
      rw [hs.waiting.listed.fresh s.allocated (Nat.le_refl _)] at hlive
      exact absurd hlive (by decide)
    exact htake.opened (CircidMap.opened false hid (hlinked.bare hnone)) hnone hfree hfirst

theorem Clean.circuitDeliverCreateCell {lost : Prop} (h : Clean s.wire) (hs : Sound lost s)
    {p : ℕ} {id : UInt32} {chan : Chan} (henabled : (ControlTeardowncircuit.Op.deliverCreateCell p id chan).enabled s) :
    Clean (circuitDeliverCreateCell p id chan s).wire := by
  obtain ⟨-, -, hnone, -, hid, hused⟩ := henabled
  have hfree : s.wire.chanCircidMap chan id = none := get_eq_none_of_free hused
  have hlinked := hs.homed.linked.congr (sameLinks_take s.wire chan id)
  exact (h.take hfree).opened (opened_deliver hlinked hid (hlinked.bare hnone)) hnone hfree
    (h.queued.take hfree).2

theorem Clean.commandProcessDestroyCell {lost : Prop} (h : Clean s.wire) (hs : Sound lost s)
    (o : MarkOutcome) (reason : UInt8) (id : UInt32) (chan : Chan) :
    Clean (commandProcessDestroyCell o reason id chan s).wire := by
  rw [ControlTeardowncircuit.commandProcessDestroyCell]
  split
  · exact h
  · rename_i p _
    split
    · exact h
    · split
      · rw [(sameWire_circuitMarkForClose ..).wire]
        exact h.clear hs.homed.linked false p .dirIn
      · rw [(sameWire_circuitMarkForClose ..).wire]
        exact h.clear hs.homed.linked false p .dirOut

theorem Clean.processTruncate {lost : Prop} (h : Clean s.wire) (hs : Sound lost s)
    (nHop primed : Bool) (p : ℕ) : Clean (processTruncate nHop primed p s).wire := by
  have hset : (if nHop then Circuitlist.circuitSetState p .opened s else s).wire = s.wire := by
    split
    · exact (sameWire_circuitSetState ..).wire
    · rfl
  rw [ControlTeardowncircuit.processTruncate]
  dsimp only
  rcases hchan : (s.wire.link p .dirOut).chan with _ | chan
  · simp only [hset, hchan]
    exact h
  · simp only [hset, hchan]
    exact h.sendAndClear hs.homed.linked primed false ⟨hchan, rfl⟩ _

/-! ### The command -/

theorem sendDestroyTo_of_none {primed : Bool} {p : ℕ} {dir : CellDirection}
    (hnone : (w.link p dir).chan = none) : sendDestroyTo primed p dir w = w := by
  rw [sendDestroyTo, hnone]

/-- Each circuit that gets a DESTROY cell from the command leaves the channel at once:
only the next hop of a circuit that is forced to end is told. -/
def detachesWhatItDestroys (identityDigest : Chan → List UInt8) (s : State Chan) :
    ControlTeardowncircuit.Op Chan → Prop
  | .teardownAll _ _ => ∀ p, s.live p = true → (s.circ p).markedForClose = false →
    ∀ dir, (s.wire.link p dir).chan = none
  | .teardown args _ _ => ∀ p, findCircuitForTeardown identityDigest args s = some p →
    circuitIsOpenAndActive (s.circ p) = true → args.logOnly = false →
      (s.wire.link p .dirIn).chan = none ∧
        (args.forceImmediate = true ∨ (s.wire.link p .dirOut).chan = none)
  | _ => True

theorem sendDestroys_wire {primed : CellDirection → Bool} {p : ℕ}
    (hin : (s.wire.link p .dirIn).chan = none) :
    (sendDestroys primed p s).wire = sendDestroyTo (primed .dirOut) p .dirOut s.wire := by
  rw [sendDestroys, sendDestroyTo_of_none hin, ite_self]

omit [DecidableEq Chan] in
theorem unmarked_before {o : MarkOutcome} {reason : ℤ} {p q : ℕ}
    (hq : ((Circuitlist.circuitMarkForClose o reason p s).circ q).markedForClose = false) :
    (s.circ q).markedForClose = false := by
  rw [Circuitlist.circuitMarkForClose] at hq
  split_ifs at hq
  · exact hq
  · exact hq
  · exact hq
  · rw [circ_modify] at hq
    split at hq
    · cases hq
    · exact hq

theorem teardownAll_wire {primed : ℕ → CellDirection → Bool} {o : ℕ → MarkOutcome}
    (hnone : ∀ p ∈ s.globalCircuitlist, (s.circ p).markedForClose = false →
      ∀ dir, (s.wire.link p dir).chan = none) : (teardownAll primed o s).wire = s.wire := by
  have hfold {l : List ℕ} : ∀ {s : State Chan},
      (∀ p ∈ l, (s.circ p).markedForClose = false → ∀ dir, (s.wire.link p dir).chan = none) →
      (l.foldl (fun s p => if (s.circ p).markedForClose then s
        else Circuitlist.circuitMarkForClose (o p) endCircReasonRequested p
          (sendDestroys (primed p) p s)) s).wire = s.wire := by
    induction l with
    | nil => exact fun _ => rfl
    | cons p l ih =>
      intro s hnone
      rw [List.foldl_cons]
      split
      · exact ih fun q hq => hnone q (List.mem_cons_of_mem p hq)
      · rename_i hmarked
        have hp := hnone p List.mem_cons_self (Bool.eq_false_iff.mpr hmarked)
        have hsent : sendDestroys (primed p) p s = s := by
          rw [sendDestroys, sendDestroyTo_of_none (hp .dirIn), ite_self,
            sendDestroyTo_of_none (hp .dirOut)]
        have hmark := sameWire_circuitMarkForClose (o p) endCircReasonRequested p s
        rw [hsent, ih, hmark.wire]
        intro q hq hq'
        rw [hmark.wire]
        exact hnone q (List.mem_cons_of_mem p hq) (unmarked_before hq')
  exact hfold hnone

theorem Clean.teardownCircuit {lost : Prop} (h : Clean s.wire) (hs : Sound lost s)
    (args : TeardownArgs) (primed : CellDirection → Bool) (o : MarkOutcome) (p : ℕ)
    (hok : circuitIsOpenAndActive (s.circ p) = true → args.logOnly = false →
      (s.wire.link p .dirIn).chan = none ∧
        (args.forceImmediate = true ∨ (s.wire.link p .dirOut).chan = none)) :
    Clean (teardownCircuit args primed o p s).wire := by
  rw [(teardownCircuit_wire args primed o p s).2.2]
  by_cases hsends : circuitIsOpenAndActive (s.circ p) = true ∧ args.logOnly = false
  · obtain ⟨hin, hout⟩ := hok hsends.1 hsends.2
    rw [if_pos hsends, sendDestroys_wire hin]
    rcases hchan : (s.wire.link p .dirOut).chan with _ | chan
    · rw [sendDestroyTo_of_none hchan, hs.homed.linked.bare hchan, if_neg (by simp)]
      exact h
    · have ha : Attached s.wire p .dirOut chan (s.wire.link p .dirOut).circId := ⟨hchan, rfl⟩
      have hid := hs.homed.linked.circId_ne_zero ha
      -- The circuit is told to end, and leaves the channel in the same step.
      have hforce : args.forceImmediate = true := hout.resolve_right (by rw [hchan]; simp)
      have hsent : sendDestroyTo (primed .dirOut) p .dirOut s.wire =
          channelSendDestroy (primed .dirOut) chan (s.wire.link p .dirOut).circId s.wire := by
        rw [sendDestroyTo, hchan]
        exact if_pos hid
      rw [hsent, if_pos]
      · exact h.sendAndClear hs.homed.linked (primed .dirOut) true ha _
      · refine ⟨hforce, ?_⟩
        rw [(sameLinks_sendDestroy ..).circId]
        exact hid
  · rw [if_neg hsends]
    exact h

omit [DecidableEq Chan] in
theorem clean_initial : Clean (Wire.initial : Wire Chan) where
  queued :=
    { nodup _ := List.nodup_nil
      flag ha := by cases ha.1
      entry hin := by cases hin
      counted hin := by cases hin
      once _ _ := Nat.zero_le 1 }
  unsent _ := rfl

theorem clean_reached {identityDigest : Chan → List UInt8}
    (hr : Reached (circuits identityDigest) (detachesWhatItDestroys identityDigest) s) :
    Clean s.wire := by
  refine hr.strengthen (P := Sound True) (Q := fun s => Clean s.wire)
    (fun s hr => (hr.mono fun _ _ _ => .inl trivial).invariant (sound_inductive identityDigest))
    (fun s hs => by rw [hs]; exact clean_initial) ?_
  rintro s op s' hs h hok ⟨henabled, rfl⟩
  cases op with
  | originCircuitNew =>
    show Clean (Circuitlist.originCircuitNew s).wire
    rw [originCircuitNew_eq]
    exact h
  | createCell refused primed id chan => exact h.commandProcessCreateCell hs refused primed id chan
  | destroyCell o reason id chan => exact h.commandProcessDestroyCell hs o reason id chan
  | truncateCell nHop primed p => exact h.processTruncate hs nHop primed p
  | deliverCreateCell p id chan => exact h.circuitDeliverCreateCell hs henabled
  -- what does not touch the connections keeps them clean
  | circuitSetState p state =>
    show Clean (Circuitlist.circuitSetState p state s).wire
    rw [(sameWire_circuitSetState ..).wire]
    exact h
  | setPathState p state => exact h
  | onionPendingAdd p => exact h
  | onionNextTask p => exact h
  | circuitMarkForClose o reason p =>
    show Clean (Circuitlist.circuitMarkForClose o reason p s).wire
    rw [(sameWire_circuitMarkForClose ..).wire]
    exact h
  | circuitsHandleOom sorted n o =>
    obtain ⟨_, _, hlists⟩ := hs.waiting.listed
    show Clean (Circuitlist.circuitsHandleOom sorted n o s).wire
    rw [(sameWire_circuitsHandleOom (henabled.nodup_iff.mpr hlists.places.nodup) n o s).wire]
    exact h
  | circuitCloseAllMarked primed => exact h.circuitCloseAllMarked hs primed
  | flushDestroy chan => exact h.flushDestroy hs.homed.linked chan
  | teardownAll primed o =>
    show Clean (ControlTeardowncircuit.teardownAll primed o s).wire
    -- each of them detaches what it destroys, by the condition on the step
    rw [teardownAll_wire fun p hp => hok p ((hs.waiting.listed.mem_global p).mp hp)]
    exact h
  | teardown args primed o =>
    show Clean (handleControlTeardowncircuit identityDigest args primed o s).wire
    rw [handleControlTeardowncircuit]
    split
    · exact h
    · rename_i p hfind
      exact h.teardownCircuit hs args primed o p (hok p hfind)
  | eltorForceImmediateCircuitDestruction o reason p =>
    show Clean (forceImmediateCircuitDestruction o reason p s).wire
    rw [forceImmediateCircuitDestruction_eq]
    dsimp only
    split
    · exact h.clear hs.homed.linked true p .dirOut
    · exact h

/-- In every run in which the command sends no DESTROY cell for a circuit that stays on the
channel, an id gets one DESTROY cell at most from when it is taken; while that waits the
id is in use, and no circuit has it. -/
theorem destroys_once {identityDigest : Chan → List UInt8} {s : State Chan}
    (hr : Reached (circuits identityDigest) (detachesWhatItDestroys identityDigest) s)
    (chan : Chan) (id : UInt32) :
    s.wire.destroys chan id ≤ 1 ∧
      (id ∈ s.wire.destroyQueue chan → circuitIdInUseOnChannel s.wire chan id ≠ 0 ∧
        ∀ p dir, ¬ Attached s.wire p dir chan id) := by
  have h := clean_reached hr
  refine ⟨h.queued.once chan id, fun hin => ⟨fun hfree => ?_, fun p dir ha => ?_⟩⟩
  · -- While a cell waits the map has an entry, so the id is not free.
    have hentry := h.queued.entry hin
    rw [get_eq_none_of_free hfree] at hentry
    cases hentry
  · cases (h.queued.counted hin).symm.trans (h.unsent ha)

end

def sampleOpen : State ℕ := circuitDeliverCreateCell 0 5 7 (originCircuitNew .initial)

/-- `TEARDOWNCIRCUIT 1`, and the clean-up after it. -/
def sampleClosed (forceImmediate : Bool) : State ℕ :=
  circuitCloseAllMarked (fun _ _ => false)
    (handleControlTeardowncircuit (fun _ => []) ⟨some 1, none, false, forceImmediate⟩
      (fun _ => false) ⟨false, false⟩ sampleOpen)

theorem reached_sampleClosed (forceImmediate : Bool) (ok : State ℕ → ControlTeardowncircuit.Op ℕ → Prop)
    (hok : ∀ s, ok s .originCircuitNew ∧ ok s (.deliverCreateCell 0 5 7) ∧
      ok s (.circuitCloseAllMarked fun _ _ => false))
    (hteardown : ok sampleOpen
      (.teardown ⟨some 1, none, false, forceImmediate⟩ (fun _ => false) ⟨false, false⟩)) :
    Reached (circuits fun _ => []) ok (sampleClosed forceImmediate) := by
  have hnew : (circuits fun _ : ℕ => []).step .initial .originCircuitNew
      (originCircuitNew .initial) := ⟨trivial, rfl⟩
  have hdeliver : (circuits fun _ : ℕ => []).step (originCircuitNew .initial)
      (.deliverCreateCell 0 5 7) sampleOpen := ⟨⟨rfl, rfl, rfl, by decide, by decide, rfl⟩, rfl⟩
  have hcommand : (circuits fun _ : ℕ => []).step sampleOpen
      (.teardown ⟨some 1, none, false, forceImmediate⟩ (fun _ => false) ⟨false, false⟩)
      (handleControlTeardowncircuit (fun _ => []) ⟨some 1, none, false, forceImmediate⟩
        (fun _ => false) ⟨false, false⟩ sampleOpen) := ⟨trivial, rfl⟩
  have hclose : (circuits fun _ : ℕ => []).step
      (handleControlTeardowncircuit (fun _ => []) ⟨some 1, none, false, forceImmediate⟩
        (fun _ => false) ⟨false, false⟩ sampleOpen)
      (.circuitCloseAllMarked fun _ _ => false) (sampleClosed forceImmediate) := ⟨trivial, rfl⟩
  exact .step (.step (.step (.step (.init rfl) (hok _).1 hnew) (hok _).2.1 hdeliver)
    hteardown hcommand) (hok _).2.2 hclose

theorem destroys_once_sampleClosed : (sampleClosed true).wire.destroys 7 5 ≤ 1 := by
  refine (destroys_once (reached_sampleClosed true
    (detachesWhatItDestroys fun _ => []) (fun _ => ⟨trivial, trivial, trivial⟩) ?_) 7 5).1
  intro p hfind _ _
  cases hfind
  exact ⟨rfl, .inl rfl⟩

/-- The clean-up sends a second DESTROY cell; when the first is written the id is free. -/
theorem destroy_sent_twice :
    ¬ (∀ s, Reached (circuits fun _ : ℕ => []) (fun _ _ => True) s →
      ∀ chan id, s.wire.destroys chan id ≤ 1) ∧
    ¬ ∀ s, Reached (circuits fun _ : ℕ => []) (fun _ _ => True) s →
      ∀ chan id, id ∈ s.wire.destroyQueue chan → circuitIdInUseOnChannel s.wire chan id ≠ 0 := by
  have hr : Reached (circuits fun _ : ℕ => []) (fun _ _ => True) (sampleClosed false) :=
    reached_sampleClosed false (fun _ _ => True) (fun _ => ⟨trivial, trivial, trivial⟩) trivial
  have hflush : (circuits fun _ : ℕ => []).step (sampleClosed false) (.flushDestroy 7)
      { sampleClosed false with wire := flushDestroy 7 (sampleClosed false).wire } :=
    ⟨trivial, rfl⟩
  constructor
  · intro hall
    exact absurd (hall _ hr 7 5) (by decide)
  · intro hall
    exact hall _ (.step hr trivial hflush) 7 5 (by decide) (by decide)

end DestroyQueue
