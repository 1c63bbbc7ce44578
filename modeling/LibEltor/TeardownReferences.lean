/-
What still refers to a circuit after a forced end
(`feature/control/control_teardowncircuit.c`, `core/or/circuitlist.c`).

FORCE_IMMEDIATE marks the circuit, takes it off the channel of its next hop and writes its
state, and the next `circuitCloseAllMarked` frees it.  What is cleaned up then depends on
the state, and on the channels it is still attached to.
-/
import LibEltor.ControlTeardowncircuit

open CircidMap CircuitBuild Circuitlist Smartlist ControlTeardowncircuit Transition

namespace TeardownReferences

variable {Chan : Type*} [DecidableEq Chan] {w w' : Wire Chan}

theorem cmux_noteDelete (pending : Bool) (chan : Chan) (id : UInt32) (p : ℕ) (w : Wire Chan) :
    (noteDelete pending chan id p w).cmux = w.cmux := by
  rw [noteDelete]
  split
  · rfl
  · split <;> rfl

theorem cmux_flushDestroy (chan : Chan) (w : Wire Chan) :
    (flushDestroy chan w).cmux = w.cmux := by
  rw [flushDestroy]
  split
  · rfl
  · rw [channelNoteDestroyNotPending]
    split
    · exact cmux_noteDelete ..
    · rfl

theorem cmux_sendDestroy (primed : Bool) (chan : Chan) (id : UInt32) (w : Wire Chan) :
    (channelSendDestroy primed chan id w).cmux = w.cmux := by
  have hnote : (channelNoteDestroyPending chan id w).cmux = w.cmux := by
    rw [channelNoteDestroyPending]
    split
    · exact cmux_noteDelete ..
    · rw [channelMarkCircidUnusable]
      split <;> rfl
  rw [channelSendDestroy]
  split
  · rfl
  · split
    · rfl
    · rw [circuitmuxAppendDestroyCell]
      split
      · exact (cmux_flushDestroy ..).trans hnote
      · exact hnote

theorem cmux_sendDestroyTo (primed : Bool) (p : ℕ) (dir : CellDirection) (w : Wire Chan) :
    (sendDestroyTo primed p dir w).cmux = w.cmux := by
  rw [sendDestroyTo]
  split
  · rfl
  · split
    · exact cmux_sendDestroy ..
    · rfl

theorem cmux_sendDestroys (primed : CellDirection → Bool) (p : ℕ) (s : State Chan) :
    (sendDestroys primed p s).wire.cmux = s.wire.cmux := by
  rw [sendDestroys]
  dsimp only
  rw [cmux_sendDestroyTo]
  split
  · rfl
  · exact cmux_sendDestroyTo ..

/-! ### Leaving a circuitmux -/

/-- Entries are lost, and only where `p` is attached. -/
def Loses (p : ℕ) (w w' : Wire Chan) : Prop :=
  ∀ chan id, w'.cmux chan id = w.cmux chan id ∨
    w'.cmux chan id = none ∧ ∃ dir, Attached w p dir chan id

omit [DecidableEq Chan] in
theorem Loses.of_eq {p : ℕ} (h : w'.cmux = w.cmux) : Loses p w w' := fun _ _ => .inl (by rw [h])

omit [DecidableEq Chan] in
theorem Loses.trans {p : ℕ} {w₁ w₂ w₃ : Wire Chan} (h : Loses p w₁ w₂) (h' : Loses p w₂ w₃)
    (hattached : ∀ dir chan id, Attached w₂ p dir chan id → Attached w₁ p dir chan id) :
    Loses p w₁ w₃ := by
  intro chan id
  rcases h' chan id with heq | ⟨hnone, dir, ha⟩
  · rw [heq]
    exact h chan id
  · exact .inr ⟨hnone, dir, hattached dir chan id ha⟩

omit [DecidableEq Chan] in
theorem Loses.eq_some {p q : ℕ} (h : Loses p w w') {chan : Chan} {id : UInt32}
    (hq : w'.cmux chan id = some q) : w.cmux chan id = some q := by
  rcases h chan id with heq | ⟨hnone, -⟩
  · rwa [heq] at hq
  · rw [hnone] at hq
    cases hq

theorem loses_detachCircuit (chan : Chan) (p : ℕ) (w : Wire Chan) :
    Loses p w (circuitmuxDetachCircuit chan p w) := by
  intro chan' id'
  -- Whichever side is found, what is lost is the entry of that side.
  have hkey (dir : CellDirection) (hchan : (w.link p dir).chan = some chan) :
      updateAt w.cmux chan (w.link p dir).circId none chan' id' = w.cmux chan' id' ∨
        updateAt w.cmux chan (w.link p dir).circId none chan' id' = none ∧
          ∃ dir, Attached w p dir chan' id' := by
    rw [updateAt]
    split
    · rename_i hk
      exact .inr ⟨rfl, dir, hk.1 ▸ hchan, hk.2.symm⟩
    · exact .inl rfl
  rw [circuitmuxDetachCircuit]
  dsimp only
  split
  · rename_i hout
    exact hkey .dirOut hout.1
  · split
    · rename_i hin
      exact hkey .dirIn hin
    · exact .inl rfl

theorem cmux_detachCircuit {p : ℕ} {dir : CellDirection} {chan : Chan} {id : UInt32}
    (ha : Attached w p dir chan id)
    (hother : ∀ dir', dir' ≠ dir → (w.link p dir').chan ≠ some chan) :
    (circuitmuxDetachCircuit chan p w).cmux chan id = none := by
  rw [circuitmuxDetachCircuit]
  dsimp only
  cases dir with
  | dirOut =>
    have hin : (w.link p .dirIn).chan ≠ some chan := hother .dirIn (by decide)
    rw [if_neg hin, ha.2]
    -- Without an entry the other side is looked at, but that is on another channel.
    by_cases hsome : (w.cmux chan id).isSome = true
    · rw [if_pos ⟨ha.1, hsome⟩, updateAt_self]
    · rw [if_neg fun hout => hsome hout.2]
      exact Option.not_isSome_iff_eq_none.mp hsome
  | dirIn =>
    have hout : (w.link p .dirOut).chan ≠ some chan := hother .dirOut (by decide)
    rw [if_neg fun h => hout h.1, if_pos ha.1, ha.2, updateAt_self]

theorem loses_clear (hw : Linked w) (markedForClose : Bool) (p : ℕ) (dir : CellDirection) :
    Loses p w (circuitSetCircidChan markedForClose p dir 0 none w) := by
  rcases hchan : (w.link p dir).chan with _ | chan
  · rw [circuitSetCircidChan_of_none markedForClose (hw.bare hchan)]
    exact .of_eq rfl
  · have hcmux := (cleared markedForClose hw ⟨hchan, rfl⟩).cmux
    cases markedForClose with
    | true => exact .of_eq hcmux
    | false =>
      intro chan' id'
      rw [hcmux]
      exact loses_detachCircuit chan p w chan' id'

theorem leaveChannel_loses (hw : Linked w) (markedForClose primed : Bool) (p : ℕ)
    (dir : CellDirection) :
    Loses p w (leaveChannel markedForClose primed p dir w) ∧
      ∀ q dir' chan id, Attached (leaveChannel markedForClose primed p dir w) q dir' chan id ↔
        Attached w q dir' chan id ∧ ¬ (q = p ∧ dir' = dir) := by
  rw [leaveChannel]
  rcases hchan : (w.link p dir).chan with _ | chan
  · refine ⟨.of_eq rfl, fun q dir' chan id => ⟨fun ha => ⟨ha, ?_⟩, fun ha => ha.1⟩⟩
    rintro ⟨rfl, rfl⟩
    cases hchan.symm.trans ha.1
  · dsimp only
    -- The DESTROY cell changes neither the links nor the circuitmux.
    set u := if w.condemned chan then w
      else channelSendDestroy primed chan (w.link p dir).circId w with hu
    have hsame : SameLinks w u := by
      rw [hu]
      split
      · exact .refl w
      · exact sameLinks_sendDestroy ..
    have hcmux : u.cmux = w.cmux := by
      rw [hu]
      split
      · rfl
      · exact cmux_sendDestroy ..
    have hdetach : SameLinks u (circuitmuxDetachCircuit chan p u) := sameLinks_cmux u _
    have hlinked := (hw.congr hsame).congr hdetach
    refine ⟨?_, fun q dir' chan' id' => ?_⟩
    · refine Loses.trans (Loses.trans (.of_eq hcmux) (loses_detachCircuit chan p u) ?_)
        (loses_clear hlinked markedForClose p dir) ?_
      · exact fun _ _ _ => hsame.attached.mp
      · exact fun _ _ _ => (hsame.trans hdetach).attached.mp
    · rw [attached_clear hlinked, (hsame.trans hdetach).attached]

theorem sides_ne {p q : ℕ} {dir : CellDirection} :
    (¬(q = p ∧ dir = .dirOut) ∧ ¬(q = p ∧ dir = .dirIn)) ↔ q ≠ p := by
  constructor
  · rintro ⟨hout, hin⟩ rfl
    cases dir with
    | dirOut => exact hout ⟨rfl, rfl⟩
    | dirIn => exact hin ⟨rfl, rfl⟩
  · intro hne
    exact ⟨fun heq => hne heq.1, fun heq => hne heq.1⟩

theorem closedWire_loses {live isOrigin : ℕ → Bool} {c : Circuit} {p : ℕ}
    (h : Homed live isOrigin w) (hc : isOrigin p = c.isOrigin)
    (primed : CellDirection → Bool) :
    Loses p w (closedWire c primed p w) ∧
      ∀ q dir chan id, Attached (closedWire c primed p w) q dir chan id ↔
        Attached w q dir chan id ∧ q ≠ p := by
  -- an origin circuit has no side towards a client
  have hin : c.isOrigin = true → ∀ chan id, ¬ Attached w p .dirIn chan id := fun ho chan id ha => by
    cases (h.origin p (hc.trans ho)).symm.trans ha.1
  obtain ⟨hloses, hattached⟩ :=
    leaveChannel_loses h.linked c.markedForClose (primed .dirOut) p .dirOut
  have hout := (h.leaveChannel c.markedForClose (primed .dirOut) p .dirOut).1
  rw [closedWire]
  generalize leaveChannel c.markedForClose (primed .dirOut) p .dirOut w = w₁
    at hloses hattached hout
  cases ho : c.isOrigin with
  | true =>
    simp only [if_true]
    refine ⟨hloses.trans (loses_clear hout.linked _ p .dirOut) fun dir chan id ha =>
      ((hattached p dir chan id).mp ha).1, fun q dir chan id => ?_⟩
    rw [attached_clear hout.linked, hattached]
    constructor
    · rintro ⟨⟨ha, hne⟩, -⟩
      refine ⟨ha, sides_ne.mp ⟨hne, ?_⟩⟩
      rintro ⟨rfl, rfl⟩
      exact hin ho chan id ha
    · rintro ⟨ha, hne⟩
      exact ⟨⟨ha, (sides_ne.mpr hne).1⟩, (sides_ne.mpr hne).1⟩
  | false =>
    simp only [Bool.false_eq_true, if_false]
    obtain ⟨hloses', hattached'⟩ :=
      leaveChannel_loses hout.linked c.markedForClose (primed .dirIn) p .dirIn
    have hboth := (hout.leaveChannel c.markedForClose (primed .dirIn) p .dirIn).1
    generalize leaveChannel c.markedForClose (primed .dirIn) p .dirIn w₁ = w₂
      at hloses' hattached' hboth
    have hclear := hboth.clear c.markedForClose p .dirIn
    -- once both sides are left, clearing them finds nothing to do
    have hgone (q : ℕ) (dir : CellDirection) (chan : Chan) (id : UInt32) :
        Attached w₂ q dir chan id ↔ Attached w q dir chan id ∧ q ≠ p := by
      rw [hattached', hattached, and_assoc, sides_ne]
    refine ⟨?_, fun q dir chan id => ?_⟩
    · refine Loses.trans (Loses.trans (hloses.trans hloses' fun dir chan id ha =>
        ((hattached p dir chan id).mp ha).1) (loses_clear hboth.linked _ p .dirIn) ?_)
        (loses_clear hclear.linked _ p .dirOut) ?_
      · exact fun dir chan id ha => ((hgone p dir chan id).mp ha).1
      · intro dir chan id ha
        exact ((hgone p dir chan id).mp ((attached_clear hboth.linked).mp ha).1).1
    · rw [attached_clear hclear.linked, attached_clear hboth.linked, hgone]
      constructor
      · exact fun ha => ha.1.1
      · exact fun ha => ⟨⟨ha, fun heq => ha.2 heq.1⟩, fun heq => ha.2 heq.1⟩

/-! ### Circuits that are not marked -/

section
variable {s s' : State Chan}

def Unmarked (s : State Chan) (p : ℕ) : Prop :=
  s.live p = true ∧ (s.circ p).markedForClose = false

/-- The circuitmuxes have the circuits that are not marked where these are attached. -/
structure Muxed (unmarked : ℕ → Prop) (allocated : ℕ) (w : Wire Chan) : Prop where
  attached : ∀ {p chan id}, unmarked p → w.cmux chan id = some p → ∃ dir, Attached w p dir chan id
  lt : ∀ {p chan id}, w.cmux chan id = some p → p < allocated

/-- The circuits that are not marked wait where their state says. -/
structure Lined (s : State Chan) : Prop where
  chans : ∀ {p}, Unmarked s p → (p ∈ s.circuitsPendingChans ↔ (s.circ p).state = .chanWait)
  guards : ∀ {p}, Unmarked s p →
    (p ∈ s.circuitsPendingOtherGuards ↔ (s.circ p).state = .guardWait)
  lt : ∀ {p}, p ∈ s.circuitsPendingChans ∨ p ∈ s.circuitsPendingOtherGuards → p < s.allocated

structure Refs (s : State Chan) : Prop where
  muxed : Muxed (Unmarked s) s.allocated s.wire
  lined : Lined s

/-- Circuits are marked, and DESTROY cells come and go; nothing else changes. -/
structure Marks (s s' : State Chan) : Prop where
  allocated : s'.allocated = s.allocated
  chans : s'.circuitsPendingChans = s.circuitsPendingChans
  guards : s'.circuitsPendingOtherGuards = s.circuitsPendingOtherGuards
  onionQueue : s'.onionQueue = s.onionQueue
  state : ∀ p, (s'.circ p).state = (s.circ p).state
  unmarked : ∀ p, Unmarked s' p → Unmarked s p
  links : SameLinks s.wire s'.wire
  cmux : s'.wire.cmux = s.wire.cmux

omit [DecidableEq Chan] in
theorem Marks.refl (s : State Chan) : Marks s s :=
  ⟨rfl, rfl, rfl, rfl, fun _ => rfl, fun _ => id, .refl _, rfl⟩

omit [DecidableEq Chan] in
theorem Marks.trans {s₁ s₂ s₃ : State Chan} (h : Marks s₁ s₂) (h' : Marks s₂ s₃) : Marks s₁ s₃ where
  allocated := h'.allocated.trans h.allocated
  chans := h'.chans.trans h.chans
  guards := h'.guards.trans h.guards
  onionQueue := h'.onionQueue.trans h.onionQueue
  state p := (h'.state p).trans (h.state p)
  unmarked p hp := h.unmarked p (h'.unmarked p hp)
  links := h.links.trans h'.links
  cmux := h'.cmux.trans h.cmux

omit [DecidableEq Chan] in
theorem Refs.marks (h : Refs s) (hm : Marks s s') : Refs s' where
  muxed :=
    { attached {p chan id} hp hmux := by
        rw [hm.cmux] at hmux
        obtain ⟨dir, ha⟩ := h.muxed.attached (hm.unmarked p hp) hmux
        exact ⟨dir, hm.links.attached.mpr ha⟩
      lt {p chan id} hmux := by
        rw [hm.cmux] at hmux
        rw [hm.allocated]
        exact h.muxed.lt hmux }
  lined :=
    { chans {p} hp := by
        rw [hm.chans, hm.state]
        exact h.lined.chans (hm.unmarked p hp)
      guards {p} hp := by
        rw [hm.guards, hm.state]
        exact h.lined.guards (hm.unmarked p hp)
      lt {p} hp := by
        rw [hm.chans, hm.guards] at hp
        rw [hm.allocated]
        exact h.lined.lt hp }

omit [DecidableEq Chan] in
theorem marks_modify (s : State Chan) (p : ℕ) {f : Circuit → Circuit}
    (hstate : ∀ c, (f c).state = c.state)
    (hmarked : ∀ c, (f c).markedForClose = false → c.markedForClose = false) :
    Marks s (s.modify p f) := by
  have hcirc (q : ℕ) : ((s.modify p f).circ q).state = (s.circ q).state ∧
      (((s.modify p f).circ q).markedForClose = false → (s.circ q).markedForClose = false) := by
    rw [circ_modify]
    split
    · rename_i hq
      rw [hq]
      exact ⟨hstate _, hmarked _⟩
    · exact ⟨rfl, id⟩
  exact ⟨rfl, rfl, rfl, rfl, fun q => (hcirc q).1, fun q hq => ⟨hq.1, (hcirc q).2 hq.2⟩, .refl _, rfl⟩

omit [DecidableEq Chan] in
theorem marks_circuitMarkForClose (o : MarkOutcome) (reason : ℤ) (p : ℕ) (s : State Chan) :
    Marks s (Circuitlist.circuitMarkForClose o reason p s) := by
  have hm := marks_modify s p (f := fun c => { c with markedForClose := true }) (fun _ => rfl)
    fun _ hfalse => by cases hfalse
  rw [Circuitlist.circuitMarkForClose]
  split_ifs
  · exact .refl s
  · exact .refl s
  · exact .refl s
  · exact ⟨hm.allocated, hm.chans, hm.guards, hm.onionQueue, hm.state, hm.unmarked, hm.links, hm.cmux⟩

omit [DecidableEq Chan] in
theorem marks_circuitsHandleOom {sorted : List ℕ} (hnodup : sorted.Nodup) (n : ℕ)
    (o : ℕ → MarkOutcome) (s : State Chan) : Marks s (circuitsHandleOom sorted n o s) := by
  have hmark {l : List ℕ} : ∀ {s : State Chan}, Marks s
      (l.foldl (fun s p => Circuitlist.circuitMarkForClose (o p) endCircReasonResourcelimit p s)
        s) := by
    induction l with
    | nil => exact .refl _
    | cons p l ih => exact (marks_circuitMarkForClose _ _ p _).trans ih
  refine Marks.trans ?_ hmark
  rw [fixIndices_eq hnodup]
  refine ⟨rfl, rfl, rfl, rfl, fun p => ?_, fun p hp => ⟨hp.1, ?_⟩, .refl _, rfl⟩
  · dsimp only
    split <;> rfl
  · have hmarked := hp.2
    dsimp only at hmarked
    split at hmarked <;> exact hmarked

theorem marks_sendDestroys (primed : CellDirection → Bool) (p : ℕ) (s : State Chan) :
    Marks s (sendDestroys primed p s) :=
  ⟨rfl, rfl, rfl, rfl, fun _ => rfl, fun _ => id, sameLinks_sendDestroys primed p s,
    cmux_sendDestroys primed p s⟩

theorem marks_teardownAll (primed : ℕ → CellDirection → Bool) (o : ℕ → MarkOutcome)
    (s : State Chan) : Marks s (teardownAll primed o s) := by
  have hfold {l : List ℕ} : ∀ {s : State Chan}, Marks s
      (l.foldl (fun s p => if (s.circ p).markedForClose then s
        else Circuitlist.circuitMarkForClose (o p) endCircReasonRequested p
          (sendDestroys (primed p) p s)) s) := by
    induction l with
    | nil => exact .refl _
    | cons p l ih =>
      intro s
      have hstep : Marks s (if (s.circ p).markedForClose then s
          else Circuitlist.circuitMarkForClose (o p) endCircReasonRequested p
            (sendDestroys (primed p) p s)) := by
        split
        · exact .refl s
        · exact (marks_sendDestroys (primed p) p s).trans (marks_circuitMarkForClose ..)
      exact hstep.trans ih
  exact hfold

theorem mem_follow {here fromState toState : CircuitState} {p q : ℕ} {l : List ℕ} :
    q ∈ follow here fromState toState p l ↔
      if q = p then toState = here ∨ fromState ≠ here ∧ p ∈ l else q ∈ l := by
  -- First `p` leaves the list, then it may enter it.
  have hleft : q ∈ (if fromState = here then smartlistRemove l p else l) ↔
      if q = p then fromState ≠ here ∧ p ∈ l else q ∈ l := by
    by_cases hfrom : fromState = here
    · rw [if_pos hfrom, mem_smartlistRemove]
      by_cases hq : q = p
      · simp [hq, hfrom]
      · simp [hq]
    · rw [if_neg hfrom]
      by_cases hq : q = p
      · simp [hq, hfrom]
      · simp [hq]
  rw [follow]
  by_cases hto : toState = here
  · rw [if_pos hto, List.mem_append, List.mem_singleton, hleft]
    by_cases hq : q = p
    · simp [hq, hto]
    · simp [hq]
  · rw [if_neg hto, hleft]
    by_cases hq : q = p
    · simp [hq, hto]
    · simp [hq]

omit [DecidableEq Chan] in
theorem Refs.circuitSetState (h : Refs s) (hlt : ∀ q, s.live q = true → q < s.allocated) {p : ℕ}
    (hp : s.live p = true) (state : CircuitState) : Refs (circuitSetState p state s) := by
  rw [Circuitlist.circuitSetState]
  by_cases hstate : state = (s.circ p).state
  · rw [if_pos hstate]
    exact h
  rw [if_neg hstate]
  have hcirc (q : ℕ) : ((s.modify p fun c => { c with state := state }).circ q).state =
        (if q = p then state else (s.circ q).state) ∧
      ((s.modify p fun c => { c with state := state }).circ q).markedForClose =
        (s.circ q).markedForClose := by
    rw [circ_modify]
    split
    · rename_i hq
      rw [hq]
      exact ⟨rfl, rfl⟩
    · exact ⟨rfl, rfl⟩
  have hunmarked {q : ℕ} (hq : Unmarked (s.modify p fun c => { c with state := state }) q) :
      Unmarked s q := ⟨hq.1, (hcirc q).2.symm.trans hq.2⟩
  refine ⟨⟨fun hq => h.muxed.attached (hunmarked hq), h.muxed.lt⟩, ⟨fun {q} hq => ?_,
    fun {q} hq => ?_, fun {q} hq => ?_⟩⟩
  · have hold := h.lined.chans (hunmarked hq)
    rw [mem_follow, (hcirc q).1]
    by_cases hqp : q = p
    · subst hqp
      rw [if_pos rfl, if_pos rfl, hold]
      tauto
    · rw [if_neg hqp, if_neg hqp, hold]
  · have hold := h.lined.guards (hunmarked hq)
    rw [mem_follow, (hcirc q).1]
    by_cases hqp : q = p
    · subst hqp
      rw [if_pos rfl, if_pos rfl, hold]
      tauto
    · rw [if_neg hqp, if_neg hqp, hold]
  · rw [mem_follow, mem_follow] at hq
    by_cases hqp : q = p
    · rw [hqp]
      exact hlt p hp
    · rw [if_neg hqp, if_neg hqp] at hq
      exact h.lined.lt hq

omit [DecidableEq Chan] in
theorem Refs.created (h : Refs s) {c : Circuit} (hstate : c.state = .building) :
    Refs (created c s) := by
  have hunmarked {q : ℕ} (hq : Unmarked (Circuitlist.created c s) q) (hne : q ≠ s.allocated) :
      Unmarked s q := by
    obtain ⟨hlive, hcirc⟩ := created_of_ne c hne
    exact ⟨hlive ▸ hq.1, hcirc ▸ hq.2⟩
  refine ⟨⟨fun {p chan id} hp hmux => ?_, fun hmux => Nat.lt_succ_of_lt (h.muxed.lt hmux)⟩,
    ⟨fun {q} hq => ?_, fun {q} hq => ?_, fun hq => Nat.lt_succ_of_lt (h.lined.lt hq)⟩⟩
  · -- An entry is older than the new circuit, so it is another's.
    exact h.muxed.attached (hunmarked hp (Nat.ne_of_lt (h.muxed.lt hmux))) hmux
  · by_cases hne : q = s.allocated
    · subst hne
      rw [(created_self c s).2.1, hstate]
      refine iff_of_false (fun hin => ?_) (by decide)
      exact absurd (h.lined.lt (.inl hin)) (Nat.lt_irrefl _)
    · rw [(created_of_ne c hne).2]
      exact h.lined.chans (hunmarked hq hne)
  · by_cases hne : q = s.allocated
    · subst hne
      rw [(created_self c s).2.1, hstate]
      refine iff_of_false (fun hin => ?_) (by decide)
      exact absurd (h.lined.lt (.inr hin)) (Nat.lt_irrefl _)
    · rw [(created_of_ne c hne).2]
      exact h.lined.guards (hunmarked hq hne)

theorem Muxed.opened {unmarked : ℕ → Prop} {n p : ℕ} {dir : CellDirection} {chan : Chan}
    {id : UInt32} (h : Muxed unmarked n w) (hopened : Opened false p dir chan id w w')
    (hnone : (w.link p dir).chan = none) (hp : p < n) : Muxed unmarked n w' := by
  have hcmux {q : ℕ} {chan' : Chan} {id' : UInt32} (hq : w'.cmux chan' id' = some q) :
      w.cmux chan' id' = some q ∨ q = p ∧ chan' = chan ∧ id' = id := by
    rw [hopened.cmux, if_neg (by decide), circuitmuxAttachCircuit] at hq
    dsimp only at hq
    split at hq
    · exact .inl hq
    · rw [updateAt] at hq
      split at hq
      · rename_i hk
        exact .inr ⟨(Option.some.inj hq).symm, hk⟩
      · exact .inl hq
  refine ⟨fun {q chan' id'} hq hmux => ?_, fun {q chan' id'} hmux => ?_⟩
  · rcases hcmux hmux with hold | ⟨rfl, rfl, rfl⟩
    · obtain ⟨dir', ha⟩ := h.attached hq hold
      exact ⟨dir', (hopened.attached hnone).mpr (.inl ha)⟩
    · exact ⟨dir, (hopened.attached hnone).mpr (.inr ⟨⟨rfl, rfl⟩, rfl, rfl⟩)⟩
  · rcases hcmux hmux with hold | ⟨rfl, -, -⟩
    · exact h.lt hold
    · exact hp

theorem Muxed.clear {unmarked : ℕ → Prop} {n : ℕ} {live isOrigin : ℕ → Bool}
    (h : Muxed unmarked n w) (hw : Homed live isOrigin w) (markedForClose : Bool) (p : ℕ)
    (dir : CellDirection) (hmarked : markedForClose = true → ¬ unmarked p) :
    Muxed unmarked n (circuitSetCircidChan markedForClose p dir 0 none w) := by
  have hloses := loses_clear hw.linked markedForClose p dir
  refine ⟨fun {q chan id} hq hmux => ?_, fun hmux => h.lt (hloses.eq_some hmux)⟩
  obtain ⟨dir', ha⟩ := h.attached hq (hloses.eq_some hmux)
  refine ⟨dir', (attached_clear hw.linked).mpr ⟨ha, ?_⟩⟩
  rintro ⟨rfl, rfl⟩
  -- It has left the circuitmux of the channel.
  cases markedForClose with
  | true => exact hmarked rfl hq
  | false =>
    rw [(cleared false hw.linked ha).cmux, if_neg (by decide), cmux_detachCircuit ha] at hmux
    · cases hmux
    · intro dir'' hdir hchan
      cases dir' with
      | dirOut =>
        cases dir'' with
        | dirOut => exact hdir rfl
        | dirIn => exact hw.distinct q chan hchan ha.1
      | dirIn =>
        cases dir'' with
        | dirOut => exact hw.distinct q chan ha.1 hchan
        | dirIn => exact hdir rfl

theorem Refs.closed {p i j : ℕ} (h : Refs s)
    (hw : Homed s.live (fun p => (s.circ p).isOrigin) s.wire) (primed : CellDirection → Bool) :
    Refs (closed primed p i j s) := by
  obtain ⟨hloses, hattached⟩ := closedWire_loses hw (c := s.circ p) (p := p) rfl primed
  have hunmarked {q : ℕ} (hq : Unmarked (Circuitlist.closed primed p i j s) q) :
      q ≠ p ∧ Unmarked s q := by
    obtain ⟨hne, hlive⟩ := live_closed.mp hq.1
    exact ⟨hne, hlive, hq.2⟩
  have hchans (q : ℕ) (hne : q ≠ p) :
      q ∈ (Circuitlist.closed primed p i j s).circuitsPendingChans ↔
        q ∈ s.circuitsPendingChans := by
    show q ∈ (if (s.circ p).state = .chanWait then smartlistRemove s.circuitsPendingChans p
      else s.circuitsPendingChans) ↔ _
    split
    · rw [mem_smartlistRemove, and_iff_left hne]
    · exact Iff.rfl
  have hguards (q : ℕ) : q ∈ (Circuitlist.closed primed p i j s).circuitsPendingOtherGuards ↔
      q ∈ s.circuitsPendingOtherGuards ∧ q ≠ p := mem_smartlistRemove
  refine ⟨⟨fun {q chan id} hq hmux => ?_, fun hmux => h.muxed.lt (hloses.eq_some hmux)⟩,
    ⟨fun {q} hq => ?_, fun {q} hq => ?_, fun {q} hq => ?_⟩⟩
  · obtain ⟨hne, hq⟩ := hunmarked hq
    obtain ⟨dir, ha⟩ := h.muxed.attached hq (hloses.eq_some hmux)
    exact ⟨dir, (hattached q dir chan id).mpr ⟨ha, hne⟩⟩
  · obtain ⟨hne, hq⟩ := hunmarked hq
    rw [hchans q hne]
    exact h.lined.chans hq
  · obtain ⟨hne, hq⟩ := hunmarked hq
    rw [hguards, and_iff_left hne]
    exact h.lined.guards hq
  · rcases hq with hq | hq
    · refine h.lined.lt (.inl ?_)
      change q ∈ (if (s.circ p).state = .chanWait then smartlistRemove s.circuitsPendingChans p
        else s.circuitsPendingChans) at hq
      split at hq
      · exact (mem_smartlistRemove.mp hq).1
      · exact hq
    · exact h.lined.lt (.inr ((hguards q).mp hq).1)

/-! ### Runs -/

omit [DecidableEq Chan] in
theorem Refs.setWire (h : Refs s) (hmuxed : Muxed (Unmarked s) s.allocated w) :
    Refs { s with wire := w } :=
  ⟨⟨hmuxed.attached, hmuxed.lt⟩, ⟨h.lined.chans, h.lined.guards, h.lined.lt⟩⟩

omit [DecidableEq Chan] in
theorem Refs.setOnionQueue (h : Refs s) (onionQueue : List ℕ) :
    Refs { s with onionQueue := onionQueue } :=
  ⟨⟨h.muxed.attached, h.muxed.lt⟩, ⟨h.lined.chans, h.lined.guards, h.lined.lt⟩⟩

omit [DecidableEq Chan] in
theorem marks_wire (hlinks : SameLinks s.wire w) (hcmux : w.cmux = s.wire.cmux) :
    Marks s { s with wire := w } :=
  ⟨rfl, rfl, rfl, rfl, fun _ => rfl, fun _ => id, hlinks, hcmux⟩

omit [DecidableEq Chan] in
theorem live_lt {lost : Prop} (hs : Sound lost s) {p : ℕ} (hp : s.live p = true) :
    p < s.allocated := by
  by_contra hle
  rw [hs.waiting.listed.fresh p (Nat.le_of_not_lt hle)] at hp
  exact absurd hp (by decide)

theorem Refs.commandProcessCreateCell {lost : Prop} (h : Refs s) (hs : Sound lost s)
    (refused primed : Bool) (id : UInt32) (chan : Chan) :
    Refs (commandProcessCreateCell refused primed id chan s) := by
  rw [ControlTeardowncircuit.commandProcessCreateCell]
  by_cases hid : id = 0
  · rw [if_pos hid]
    exact h
  rw [if_neg hid]
  by_cases hused : circuitIdInUseOnChannel s.wire chan id ≠ 0
  · rw [if_pos hused]
    exact h
  rw [if_neg hused]
  have htake : Marks s { s with wire := s.wire.take chan id } :=
    marks_wire (sameLinks_take s.wire chan id) rfl
  dsimp only
  cases refused with
  | true =>
    exact (h.marks htake).marks (marks_wire (sameLinks_sendDestroy ..) (cmux_sendDestroy ..))
  | false =>
    rw [if_neg (by decide), orCircuitNew_eq]
    have hcreated := (h.marks htake).created (c := .zero false 0) rfl
    have hnone : (s.wire.link s.allocated .dirIn).chan = none := by
      by_contra hchan
      exact absurd (live_lt hs (hs.homed.live _ .dirIn hchan)) (Nat.lt_irrefl _)
    have hlinked := hs.homed.linked.congr (sameLinks_take s.wire chan id)
    -- The previous hop is the first channel the circuit has.
    have hopen : Opened false s.allocated .dirIn chan id (s.wire.take chan id)
        (circuitSetCircidChan false s.allocated .dirIn id (some chan) (s.wire.take chan id)) :=
      CircidMap.opened false hid (hlinked.bare hnone)
    have hopened := hcreated.setWire (hcreated.muxed.opened hopen hnone (Nat.lt_succ_self _))
    have hlive := (created_self (.zero false 0) { s with wire := s.wire.take chan id }).1
    refine hopened.circuitSetState (fun q hq => ?_) hlive .onionskinPending
    change Function.update s.live s.allocated true q = true at hq
    by_cases hne : q = s.allocated
    · rw [hne]
      exact Nat.lt_succ_self _
    · rw [Function.update_of_ne hne] at hq
      exact Nat.lt_succ_of_lt (live_lt hs hq)

theorem Refs.commandProcessDestroyCell {lost : Prop} (h : Refs s) (hs : Sound lost s)
    (o : MarkOutcome) (reason : UInt8) (id : UInt32) (chan : Chan) :
    Refs (commandProcessDestroyCell o reason id chan s) := by
  rw [ControlTeardowncircuit.commandProcessDestroyCell]
  split
  · exact h
  · rename_i p _
    have hclear (dir : CellDirection) := h.setWire
      (h.muxed.clear hs.homed false p dir fun hfalse => by cases hfalse)
    split
    · exact h
    · split
      · exact (hclear .dirIn).marks (marks_circuitMarkForClose ..)
      · exact (hclear .dirOut).marks (marks_circuitMarkForClose ..)

theorem Refs.processTruncate {lost : Prop} (h : Refs s) (hs : Sound lost s) {p : ℕ}
    (hp : s.live p = true) (nHop primed : Bool) : Refs (processTruncate nHop primed p s) := by
  have hset : Refs (if nHop then Circuitlist.circuitSetState p .opened s else s) ∧
      (if nHop then Circuitlist.circuitSetState p .opened s else s).wire = s.wire := by
    split
    · exact ⟨h.circuitSetState (fun q => live_lt hs) hp _, (sameWire_circuitSetState ..).wire⟩
    · exact ⟨h, rfl⟩
  obtain ⟨hset, hwire⟩ := hset
  rw [ControlTeardowncircuit.processTruncate]
  generalize (if nHop then Circuitlist.circuitSetState p .opened s else s) = s₁ at hset hwire
  dsimp only
  split
  · exact hset
  · rename_i chan _
    have hsent := hset.marks (marks_wire
      (sameLinks_sendDestroy primed chan (s₁.wire.link p .dirOut).circId s₁.wire)
      (cmux_sendDestroy ..))
    have hhomed : Homed s.live (fun p => (s.circ p).isOrigin)
        (channelSendDestroy primed chan (s₁.wire.link p .dirOut).circId s₁.wire) := by
      rw [hwire]
      exact hs.homed.congr (sameLinks_sendDestroy ..)
    exact hsent.setWire (hsent.muxed.clear hhomed false p .dirOut fun hfalse => by cases hfalse)

theorem Refs.circuitDeliverCreateCell {lost : Prop} (h : Refs s) (hs : Sound lost s) {p : ℕ}
    {id : UInt32} {chan : Chan}
    (henabled : (ControlTeardowncircuit.Op.deliverCreateCell p id chan).enabled s) :
    Refs (circuitDeliverCreateCell p id chan s) := by
  obtain ⟨hp, -, hnone, -, hid, -⟩ := henabled
  have hlinked := hs.homed.linked.congr (sameLinks_take s.wire chan id)
  have htake := h.marks (marks_wire (sameLinks_take s.wire chan id) rfl)
  exact h.setWire (htake.muxed.opened (opened_deliver hlinked hid (hlinked.bare hnone)) hnone
    (live_lt hs hp))

theorem Refs.circuitCloseAllMarked {lost : Prop} (h : Refs s) (hs : Sound lost s)
    (primed : ℕ → CellDirection → Bool) : Refs (circuitCloseAllMarked primed s) := by
  obtain ⟨s', hs', heq, -⟩ := hs.waiting.listed.circuitCloseAllMarked primed
    (P := fun _ s' => Homed s'.live (fun p => (s'.circ p).isOrigin) s'.wire ∧ Refs s')
    (fun p _ i j s' _ ⟨hhomed, hrefs⟩ =>
      ⟨hhomed.closedWire rfl (primed p), hrefs.closed hhomed (primed p)⟩) ⟨hs.homed, h⟩
  rw [heq]
  exact hs'.2.marks ⟨rfl, rfl, rfl, rfl, fun _ => rfl, fun _ => id, .refl _, rfl⟩

omit [DecidableEq Chan] in
theorem Refs.forced (h : Refs s) (p : ℕ) :
    Refs (s.modify p Circuit.forced) ∧ ¬ Unmarked (s.modify p Circuit.forced) p := by
  have hself : ¬ Unmarked (s.modify p Circuit.forced) p := fun hp => by
    have hmarked := hp.2
    rw [circ_modify, if_pos rfl] at hmarked
    cases hmarked
  have hother {q : ℕ} (hq : Unmarked (s.modify p Circuit.forced) q) :
      Unmarked s q ∧ (s.modify p Circuit.forced).circ q = s.circ q := by
    have hne : q ≠ p := by
      rintro rfl
      exact hself hq
    have hcirc : (s.modify p Circuit.forced).circ q = s.circ q := by
      rw [circ_modify, if_neg hne]
    exact ⟨⟨hq.1, hcirc ▸ hq.2⟩, hcirc⟩
  refine ⟨⟨⟨fun hq => h.muxed.attached (hother hq).1, h.muxed.lt⟩, ⟨fun hq => ?_, fun hq => ?_,
    h.lined.lt⟩⟩, hself⟩
  · rw [(hother hq).2]
    exact h.lined.chans (hother hq).1
  · rw [(hother hq).2]
    exact h.lined.guards (hother hq).1

theorem Refs.force {live isOrigin : ℕ → Bool} (h : Refs s) (hw : Homed live isOrigin s.wire)
    (o : MarkOutcome) (reason : ℤ) (p : ℕ) :
    Refs (forceImmediateCircuitDestruction o reason p s) := by
  obtain ⟨hforced, hself⟩ := h.forced p
  rw [forceImmediateCircuitDestruction_eq]
  refine hforced.setWire ?_
  split
  · exact hforced.muxed.clear hw true p .dirOut fun _ => hself
  · exact hforced.muxed

theorem teardownCircuit_cases (args : TeardownArgs) (primed : CellDirection → Bool)
    (o : MarkOutcome) (p : ℕ) (s : State Chan) :
    ∃ s₁, Marks s s₁ ∧ (teardownCircuit args primed o p s = s₁ ∨
      teardownCircuit args primed o p s =
        forceImmediateCircuitDestruction o endCircReasonRequested p s₁) := by
  rw [teardownCircuit]
  split
  · split
    · exact ⟨s, .refl s, .inl rfl⟩
    · have hsent := marks_sendDestroys primed p s
      have hmark : Marks s (if ((sendDestroys primed p s).circ p).markedForClose then
          sendDestroys primed p s
        else Circuitlist.circuitMarkForClose o endCircReasonRequested p
          (sendDestroys primed p s)) := by
        split
        · exact hsent
        · exact hsent.trans (marks_circuitMarkForClose ..)
      dsimp only
      split
      · exact ⟨_, hmark, .inr rfl⟩
      · exact ⟨_, hmark, .inl rfl⟩
  · exact ⟨s, .refl s, .inl rfl⟩

omit [DecidableEq Chan] in
theorem refs_initial : Refs (State.initial : State Chan) where
  muxed :=
    { attached _ hmux := by cases hmux
      lt hmux := by cases hmux }
  lined :=
    { chans hp := by cases hp.1
      guards hp := by cases hp.1
      lt hp := by rcases hp with hp | hp <;> cases hp }

theorem sound_reached {identityDigest : Chan → List UInt8}
    (hr : Reached (circuits identityDigest) (fun _ _ => True) s) : Sound True s :=
  (hr.mono fun _ _ _ => .inl trivial).invariant (sound_inductive identityDigest)

theorem refs_reached {identityDigest : Chan → List UInt8}
    (hr : Reached (circuits identityDigest) (fun _ _ => True) s) : Refs s := by
  refine hr.strengthen (P := Sound True) (Q := Refs) (fun s => sound_reached)
    (fun s hs => hs ▸ refs_initial) ?_
  rintro s op s' hs h - ⟨henabled, rfl⟩
  cases op with
  | originCircuitNew =>
    show Refs (Circuitlist.originCircuitNew s)
    rw [originCircuitNew_eq]
    exact (h.created (c := .zero true s.nCircuitsAllocated) rfl).marks
      ⟨rfl, rfl, rfl, rfl, fun _ => rfl, fun _ => id, .refl _, rfl⟩
  | createCell refused primed id chan => exact h.commandProcessCreateCell hs refused primed id chan
  | destroyCell o reason id chan => exact h.commandProcessDestroyCell hs o reason id chan
  | truncateCell nHop primed p => exact h.processTruncate hs henabled.1 nHop primed
  | deliverCreateCell p id chan => exact h.circuitDeliverCreateCell hs henabled
  | circuitSetState p state => exact h.circuitSetState (fun q => live_lt hs) henabled state
  | setPathState p state =>
    exact h.marks (marks_modify s p (f := fun c => { c with pathState := state }) (fun _ => rfl)
      fun _ => id)
  | onionPendingAdd p => exact h.setOnionQueue _
  | onionNextTask p => exact h.setOnionQueue _
  | circuitMarkForClose o reason p => exact h.marks (marks_circuitMarkForClose ..)
  | circuitsHandleOom sorted n o =>
    obtain ⟨_, _, hlists⟩ := hs.waiting.listed
    exact h.marks (marks_circuitsHandleOom (henabled.nodup_iff.mpr hlists.places.nodup) n o s)
  | circuitCloseAllMarked primed => exact h.circuitCloseAllMarked hs primed
  | flushDestroy chan => exact h.marks (marks_wire (sameLinks_flushDestroy ..) (cmux_flushDestroy ..))
  | teardownAll primed o => exact h.marks (marks_teardownAll primed o s)
  | teardown args primed o =>
    show Refs (handleControlTeardowncircuit identityDigest args primed o s)
    rw [handleControlTeardowncircuit]
    split
    · exact h
    · rename_i p _
      obtain ⟨s₁, hmarks, heq | heq⟩ := teardownCircuit_cases args primed o p s
      · rw [heq]
        exact h.marks hmarks
      · rw [heq]
        exact (h.marks hmarks).force (hs.homed.congr hmarks.links) o _ p
  | eltorForceImmediateCircuitDestruction o reason p => exact h.force hs.homed o reason p

/-! ### After a forced end -/

structure Unreferenced (p : ℕ) (s : State Chan) : Prop where
  chans : p ∉ s.circuitsPendingChans
  guards : p ∉ s.circuitsPendingOtherGuards
  onionQueue : p ∉ s.onionQueue
  map : ∀ chan id, circuitGetByCircidChannel s.wire chan id ≠ some p
  mux : ∀ chan id, s.wire.cmux chan id ≠ some p

/-- What is left of `p`, which was as in `s` before it was forced to end, while circuits
are closed.  An entry in a circuitmux is `owned` if the circuit is attached there before
it, and `stale` if no circuit is attached there. -/
structure Torn (p : ℕ) (s s' : State Chan) : Prop where
  homed : Homed s'.live (fun p => (s'.circ p).isOrigin) s'.wire
  building : (s'.circ p).state = .building
  isOrigin : (s'.circ p).isOrigin = (s.circ p).isOrigin
  chans : p ∈ s'.circuitsPendingChans ↔ p ∈ s.circuitsPendingChans
  guards : p ∉ s'.circuitsPendingOtherGuards
  onionQueue : p ∈ s'.onionQueue ↔ p ∈ s.onionQueue
  out : ∀ chan id, ¬ Attached s'.wire p .dirOut chan id
  owned : (∀ chan id, s.wire.cmux chan id = some p → Attached s.wire p .dirIn chan id) →
    ∀ chan id, s'.wire.cmux chan id = some p → Attached s'.wire p .dirIn chan id
  stale : ∀ chan id, s.wire.cmux chan id = some p → ¬ Attached s.wire p .dirIn chan id →
    s'.wire.cmux chan id = some p ∧ ∀ q dir, ¬ Attached s'.wire q dir chan id

theorem cmux_closedWire {live isOrigin : ℕ → Bool} {c : Circuit} {p : ℕ} {chan : Chan}
    {id : UInt32} (h : Homed live isOrigin w) (hc : isOrigin p = c.isOrigin)
    (primed : CellDirection → Bool) (hout : (w.link p .dirOut).chan = none)
    (ha : Attached w p .dirIn chan id) : (closedWire c primed p w).cmux chan id = none := by
  have horigin : c.isOrigin = false := by
    rw [← hc, Bool.eq_false_iff]
    intro ho
    cases (h.origin p ho).symm.trans ha.1
  -- Whatever is done later, an entry that is gone does not come back.
  have hkeeps {w₁ w₂ : Wire Chan} (hl : Loses p w₁ w₂) (hnone : w₁.cmux chan id = none) :
      w₂.cmux chan id = none := by
    rcases hl chan id with heq | ⟨hnone', -⟩
    · rw [heq, hnone]
    · exact hnone'
  have hleaveOut : leaveChannel c.markedForClose (primed .dirOut) p .dirOut w = w := by
    rw [leaveChannel, hout]
  have hleaveIn : (leaveChannel c.markedForClose (primed .dirIn) p .dirIn w).cmux chan id =
      none := by
    rw [leaveChannel, ha.1]
    dsimp only
    set u := if w.condemned chan then w
      else channelSendDestroy (primed .dirIn) chan (w.link p .dirIn).circId w with hu
    have hsame : SameLinks w u := by
      rw [hu]
      split
      · exact .refl w
      · exact sameLinks_sendDestroy ..
    have hother : ∀ dir, dir ≠ .dirIn → (u.link p dir).chan ≠ some chan := by
      intro dir hdir
      cases dir with
      | dirIn => exact absurd rfl hdir
      | dirOut =>
        rw [hsame.chan, hout]
        simp
    have hlinked := (h.linked.congr hsame).congr (sameLinks_cmux u
      (circuitmuxDetachCircuit chan p u).cmux)
    exact hkeeps (loses_clear hlinked c.markedForClose p .dirIn)
      (cmux_detachCircuit (hsame.attached.mpr ha) hother)
  have hin := (h.leaveChannel c.markedForClose (primed .dirIn) p .dirIn).1
  rw [closedWire]
  simp only [horigin, Bool.false_eq_true, if_false, hleaveOut]
  exact hkeeps (loses_clear (hin.clear _ p .dirIn).linked _ p .dirOut)
    (hkeeps (loses_clear hin.linked _ p .dirIn) hleaveIn)

theorem Torn.closed {p q i j : ℕ} (h : Torn p s s') (primed : CellDirection → Bool) :
    Torn p s (closed primed q i j s') := by
  -- `q` may be `p` itself, whose state says that it waits nowhere.
  have hhomed := h.homed.closedWire (c := s'.circ q) (p := q) rfl primed
  obtain ⟨hloses, hattached⟩ := closedWire_loses h.homed (c := s'.circ q) (p := q) rfl primed
  refine ⟨hhomed, h.building, h.isOrigin, ?_, ?_, ?_, ?_, ?_, ?_⟩
  · rw [← h.chans]
    show p ∈ (if (s'.circ q).state = .chanWait then smartlistRemove s'.circuitsPendingChans q
      else s'.circuitsPendingChans) ↔ _
    split
    · rename_i hstate
      rw [mem_smartlistRemove, and_iff_left]
      rintro rfl
      rw [h.building] at hstate
      cases hstate
    · exact Iff.rfl
  · intro hin
    exact h.guards (mem_smartlistRemove.mp hin).1
  · rw [← h.onionQueue]
    show p ∈ (if (s'.circ q).state = .onionskinPending then s'.onionQueue.filter (· ≠ q)
      else s'.onionQueue) ↔ _
    split
    · rename_i hstate
      have hne : p ≠ q := by
        rintro rfl
        rw [h.building] at hstate
        cases hstate
      simp [hne]
    · exact Iff.rfl
  · intro chan id ha
    exact h.out chan id ((hattached p .dirOut chan id).mp ha).1
  · intro howned chan id hmux
    have ha := h.owned howned chan id (hloses.eq_some hmux)
    refine (hattached p .dirIn chan id).mpr ⟨ha, ?_⟩
    rintro rfl
    -- If `p` is the circuit that is closed, its last entry goes with it.
    have hout : (s'.wire.link p .dirOut).chan = none := by
      rcases hchan : (s'.wire.link p .dirOut).chan with _ | chan'
      · rfl
      · exact absurd ⟨hchan, rfl⟩ (h.out chan' _)
    cases hmux.symm.trans (cmux_closedWire h.homed rfl primed hout ha)
  · intro chan id hmux hnot
    obtain ⟨hkept, hnone⟩ := h.stale chan id hmux hnot
    refine ⟨?_, fun r dir ha => hnone r dir ((hattached r dir chan id).mp ha).1⟩
    -- No circuit is attached there, so no closing takes the entry away.
    rcases hloses chan id with heq | ⟨-, dir, ha⟩
    · exact heq.trans hkept
    · exact absurd ha (hnone q dir)

theorem forced_wire (hw : Linked w) (p : ℕ) :
    (if (w.link p .dirOut).circId ≠ 0 then circuitSetCircidChan true p .dirOut 0 none w
      else w).cmux = w.cmux ∧
    ∀ q dir chan id, Attached (if (w.link p .dirOut).circId ≠ 0 then
      circuitSetCircidChan true p .dirOut 0 none w else w) q dir chan id ↔
        Attached w q dir chan id ∧ ¬ (q = p ∧ dir = .dirOut) := by
  split
  · refine ⟨?_, fun q dir chan id => attached_clear hw⟩
    rcases hchan : (w.link p .dirOut).chan with _ | chan
    · rw [circuitSetCircidChan_of_none true (hw.bare hchan)]
    · exact (cleared true hw ⟨hchan, rfl⟩).cmux
  · rename_i hid
    refine ⟨rfl, fun q dir chan id => ⟨fun ha => ⟨ha, ?_⟩, fun ha => ha.1⟩⟩
    rintro ⟨rfl, rfl⟩
    exact hid (ha.2 ▸ hw.circId_ne_zero ha)

theorem Refs.torn {s₁ : State Chan} {p : ℕ} (h : Refs s) (hs : Sound True s) (hm : Marks s s₁)
    (hlive : s₁.live = s.live) (horigin : ∀ q, (s₁.circ q).isOrigin = (s.circ q).isOrigin)
    (hp : Unmarked s p) (hguard : (s.circ p).state ≠ .guardWait) (o : MarkOutcome) (reason : ℤ) :
    Torn p s (forceImmediateCircuitDestruction o reason p s₁) := by
  have hlinked := hs.homed.linked
  obtain ⟨hcmux, hattached⟩ := forced_wire (hlinked.congr hm.links) p
  have hforced := sameWire_modify s₁ p (f := Circuit.forced) fun _ => rfl
  rw [forceImmediateCircuitDestruction_eq]
  set v := if (s₁.wire.link p .dirOut).circId ≠ 0 then
    circuitSetCircidChan true p .dirOut 0 none s₁.wire else s₁.wire with hv
  have hhomed : Homed s₁.live (fun q => ((s₁.modify p Circuit.forced).circ q).isOrigin) v := by
    have hsent := hs.homed.congr hm.links
    rw [hlive, funext hforced.isOrigin, funext horigin, hv]
    split
    · exact hsent.clear true p .dirOut
    · exact hsent
  refine ⟨hhomed, ?_, ?_, ?_, ?_, ?_, ?_, ?_, ?_⟩
  · show ((s₁.modify p Circuit.forced).circ p).state = .building
    rw [circ_modify, if_pos rfl]
    rfl
  · exact (hforced.isOrigin p).trans (horigin p)
  · show p ∈ s₁.circuitsPendingChans ↔ _
    rw [hm.chans]
  · show p ∉ s₁.circuitsPendingOtherGuards
    rw [hm.guards, h.lined.guards hp]
    exact hguard
  · show p ∈ s₁.onionQueue ↔ _
    rw [hm.onionQueue]
  · intro chan id ha
    exact ((hattached p .dirOut chan id).mp ha).2 ⟨rfl, rfl⟩
  · intro howned chan id hmux
    have hold : s.wire.cmux chan id = some p := by
      rw [← hm.cmux, ← hcmux]
      exact hmux
    refine (hattached p .dirIn chan id).mpr ⟨hm.links.attached.mpr (howned chan id hold), ?_⟩
    rintro ⟨-, hdir⟩
    cases hdir
  · intro chan id hmux hnot
    refine ⟨(congrFun (congrFun (hcmux.trans hm.cmux) chan) id).trans hmux, fun q dir ha => ?_⟩
    -- The circuit was attached there on the side of its next hop, and no other was.
    obtain ⟨ha, hne⟩ := (hattached q dir chan id).mp ha
    obtain ⟨dir', ha'⟩ := h.muxed.attached hp hmux
    have hsame := hlinked.eq_of_attached ha' (hm.links.attached.mp ha)
    cases dir' with
    | dirOut => exact hne hsame
    | dirIn => exact hnot ha'

theorem circuitIsOpenAndActive_iff {c : Circuit} (hc : c.markedForClose = false) :
    circuitIsOpenAndActive c = true ↔ c.state ≠ .guardWait := by
  rw [circuitIsOpenAndActive, hc, if_neg (by decide)]
  cases c.state <;> simp

theorem teardownCircuit_forced {args : TeardownArgs} (primed : CellDirection → Bool)
    (o : MarkOutcome) {p : ℕ} (hp : Unmarked s p) (hguard : (s.circ p).state ≠ .guardWait)
    (hlog : args.logOnly = false) (hforce : args.forceImmediate = true) :
    teardownCircuit args primed o p s =
      forceImmediateCircuitDestruction o endCircReasonRequested p
        (Circuitlist.circuitMarkForClose o endCircReasonRequested p (sendDestroys primed p s)) := by
  have hmarked : ((sendDestroys primed p s).circ p).markedForClose = false := hp.2
  rw [teardownCircuit, if_pos ((circuitIsOpenAndActive_iff hp.2).mpr hguard), hlog,
    if_neg (by decide)]
  simp only [hforce, hmarked, if_true, Bool.false_eq_true, if_false]

theorem Torn.unreferencedAfter {lost : Prop} {p : ℕ} (h : Torn p s s') (hs : Sound lost s')
    (hrefs : Refs s) (hp : Unmarked s p)
    (hwaits : (s'.circ p).isOrigin = false → p ∈ s'.circuitsPendingClose)
    (primed : ℕ → CellDirection → Bool) :
    Unreferenced p (circuitCloseAllMarked primed s') ↔
      (s.circ p).state ≠ .chanWait ∧ p ∉ s.onionQueue ∧
        ∀ chan id, s.wire.cmux chan id = some p → Attached s.wire p .dirIn chan id := by
  obtain ⟨s₂, h₂, heq, -⟩ := hs.waiting.listed.circuitCloseAllMarked primed
    (P := fun _ s₂ => Torn p s s₂) (fun q _ i j s₂ _ h₂ => h₂.closed (primed q)) h
  have hgone := (hs.waiting.circuitCloseAllMarked primed).2
  rw [heq] at hgone ⊢
  -- The circuit has been freed, or begins here and never had a channel before it.
  have hin (chan : Chan) (id : UInt32) : ¬ Attached s₂.wire p .dirIn chan id := by
    intro ha
    cases horigin : (s'.circ p).isOrigin with
    | true =>
      have horigin' : (s₂.circ p).isOrigin = true :=
        h₂.isOrigin.trans (h.isOrigin.symm.trans horigin)
      cases (h₂.homed.origin p horigin').symm.trans ha.1
    | false =>
      have hdead : s₂.live p = false := hgone p (hwaits horigin)
      have hlive := h₂.homed.live p .dirIn (by rw [ha.1]; simp)
      exact absurd (hdead.symm.trans hlive) (by decide)
  constructor
  · intro hun
    refine ⟨fun hstate => hun.chans ?_, fun hq => hun.onionQueue (h₂.onionQueue.mpr hq),
      fun chan id hmux => ?_⟩
    · exact h₂.chans.mpr ((hrefs.lined.chans hp).mpr hstate)
    · by_contra hnot
      exact hun.mux chan id (h₂.stale chan id hmux hnot).1
  · rintro ⟨hchans, hqueue, howned⟩
    refine ⟨fun hmem => hchans ?_, h₂.guards, fun hq => hqueue (h₂.onionQueue.mp hq),
      fun chan id hget => ?_, fun chan id hmux => ?_⟩
    · exact (hrefs.lined.chans hp).mp (h₂.chans.mp hmem)
    · obtain ⟨dir, ha⟩ := (h₂.homed.linked.entry chan id p).mp hget
      cases dir with
      | dirOut => exact h₂.out chan id ha
      | dirIn => exact hin chan id ha
    · exact hin chan id (h₂.owned howned chan id hmux)

omit [DecidableEq Chan] in
theorem mem_circuitMarkForClose {o : MarkOutcome} {p : ℕ}
    (hmarked : (s.circ p).markedForClose = false) (horigin : (s.circ p).isOrigin = false) :
    p ∈ (Circuitlist.circuitMarkForClose o endCircReasonRequested p s).circuitsPendingClose := by
  have hpadding : circpadMarkedCircuitForPadding o endCircReasonRequested = false := rfl
  have hkeeps : pathbiasKeeps o (s.circ p) = false := by
    rw [pathbiasKeeps, horigin]
    rfl
  rw [Circuitlist.circuitMarkForClose, hpadding, hmarked, hkeeps]
  simp

theorem guard_stays {lost : Prop} (hs : Sound lost s) {p : ℕ} (hp : Unmarked s p)
    (hguard : p ∈ s.circuitsPendingOtherGuards) (primed : ℕ → CellDirection → Bool) :
    p ∈ (circuitCloseAllMarked primed s).circuitsPendingOtherGuards := by
  have hnot : p ∉ s.circuitsPendingClose := fun hclose => by
    cases hp.2.symm.trans (hs.waiting.listed.mem_close p hclose).2
  obtain ⟨s', ⟨hmem, -⟩, heq, -⟩ := hs.waiting.listed.circuitCloseAllMarked primed
    (P := fun l s' => p ∈ s'.circuitsPendingOtherGuards ∧ p ∉ l)
    (fun q l i j s' _ ⟨hmem, hl⟩ =>
      ⟨mem_smartlistRemove.mpr ⟨hmem, fun hpq => hl (hpq ▸ List.mem_cons_self)⟩,
        fun hin => hl (List.mem_cons_of_mem q hin)⟩) ⟨hguard, hnot⟩
  rw [heq]
  exact hmem

end

def sampleArgs (id : UInt32) : TeardownArgs := ⟨some id, none, false, true⟩

/-- A circuit from the previous hop 7, whose handshake has not been queued. -/
def sampleRelayed : State ℕ := commandProcessCreateCell false false 5 7 .initial

theorem reached_sampleRelayed :
    Reached (circuits fun _ : ℕ => []) (fun _ _ => True) sampleRelayed := by
  have hcreate : (circuits fun _ : ℕ => []).step .initial (.createCell false false 5 7)
      sampleRelayed := ⟨trivial, rfl⟩
  exact .step (.init rfl) trivial hcreate

def sampleWaiting : State ℕ := circuitSetState 0 .chanWait (originCircuitNew .initial)

end TeardownReferences
