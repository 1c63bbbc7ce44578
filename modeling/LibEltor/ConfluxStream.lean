/-
One end of a conflux set as the end of a numbered stream (`core/or/conflux.c`,
`core/or/relay.c`; the stream is that of `LibEltor/Multipath.lean`).
-/
import LibEltor.ConfluxClose
import LibEltor.ConfluxSend

open Word CongestionControl Smartlist Transition Multipath

namespace Conflux

variable {κ : Type} {cfx cfx' : Conflux κ}

/-! ### The counters of a set -/

def sentOn (cfx : Conflux κ) (c : Circ) : Option ℕ := (confluxGetLeg cfx c).map ConfluxLeg.lastSeqSent

def receivedOn (cfx : Conflux κ) (c : Circ) : Option ℕ :=
  (confluxGetLeg cfx c).map ConfluxLeg.lastSeqRecv

theorem receivedOn_eq_none_iff {c : Circ} :
    receivedOn cfx c = none ↔ c ∉ cfx.legs.map ConfluxLeg.circ := by
  simp [receivedOn, confluxGetLeg]

theorem sentOn_eq_none_iff {c : Circ} :
    sentOn cfx c = none ↔ c ∉ cfx.legs.map ConfluxLeg.circ := by
  simp [sentOn, confluxGetLeg]

theorem sentOn_of_mem (hnodup : (cfx.legs.map ConfluxLeg.circ).Nodup) {leg : ConfluxLeg}
    (h : leg ∈ cfx.legs) : sentOn cfx leg.circ = some leg.lastSeqSent := by
  rw [sentOn, confluxGetLeg_of_mem hnodup h, Option.map_some]

theorem confluxGetMaxSeqSent_eq {n : ℕ} (hle : ∀ leg ∈ cfx.legs, leg.lastSeqSent ≤ n)
    (h : n = 0 ∨ ∃ leg ∈ cfx.legs, leg.lastSeqSent = n) : confluxGetMaxSeqSent cfx = n := by
  refine le_antisymm (confluxGetMaxSeqSent_le_iff.mpr hle) ?_
  rcases h with rfl | ⟨leg, hleg, rfl⟩
  · exact Nat.zero_le _
  · exact le_confluxGetMaxSeqSent hleg

theorem sentOn_updateLeg (cfx : Conflux κ) (c : Circ) {f : ConfluxLeg → ConfluxLeg}
    (hcirc : ∀ l, (f l).circ = l.circ) (hsent : ∀ l, (f l).lastSeqSent = l.lastSeqSent) :
    sentOn (cfx.updateLeg c f) = sentOn cfx := by
  funext d
  rw [sentOn, confluxGetLeg_updateLeg cfx c hcirc, Option.map_map, sentOn]
  cases confluxGetLeg cfx d with
  | none => rfl
  | some leg =>
    simp only [Option.map_some, Function.comp]
    split_ifs
    · rw [hsent]
    · rfl

theorem receivedOn_updateLeg (cfx : Conflux κ) (c : Circ) {f : ConfluxLeg → ConfluxLeg}
    (hcirc : ∀ l, (f l).circ = l.circ) (hrecv : ∀ l, (f l).lastSeqRecv = l.lastSeqRecv) :
    receivedOn (cfx.updateLeg c f) = receivedOn cfx := by
  funext d
  rw [receivedOn, confluxGetLeg_updateLeg cfx c hcirc, Option.map_map, receivedOn]
  cases confluxGetLeg cfx d with
  | none => rfl
  | some leg =>
    simp only [Option.map_some, Function.comp]
    split_ifs
    · rw [hrecv]
    · rfl

theorem map_confluxGetLeg_updateLeg {α : Type*} (g : ConfluxLeg → α) {c : Circ} {leg : ConfluxLeg}
    (hc : confluxGetLeg cfx c = some leg) {f : ConfluxLeg → ConfluxLeg}
    (hcirc : ∀ l, (f l).circ = l.circ) :
    (fun d => (confluxGetLeg (cfx.updateLeg c f) d).map g)
      = Function.update (fun d => (confluxGetLeg cfx d).map g) c (some (g (f leg))) := by
  funext d
  rw [confluxGetLeg_updateLeg cfx c hcirc, Option.map_map]
  by_cases hd : d = c
  · subst hd
    rw [Function.update_self, hc]
    simp [(mem_of_confluxGetLeg hc).2]
  · rw [Function.update_of_ne hd]
    cases hleg : confluxGetLeg cfx d with
    | none => rfl
    | some leg' =>
      have hne : leg'.circ ≠ c := fun h => hd ((mem_of_confluxGetLeg hleg).2.symm.trans h)
      simp [hne]

theorem sentOn_setSent (cfx : Conflux κ) {c : Circ} {n : ℕ} (hc : c ∈ cfx.legs.map ConfluxLeg.circ) :
    sentOn (cfx.updateLeg c ({ · with lastSeqSent := n })) = Function.update (sentOn cfx) c (some n) ∧
      receivedOn (cfx.updateLeg c ({ · with lastSeqSent := n })) = receivedOn cfx := by
  obtain ⟨l, hl, rfl⟩ := List.mem_map.mp hc
  obtain ⟨leg, hleg⟩ := confluxGetLeg_isSome hl
  exact ⟨map_confluxGetLeg_updateLeg ConfluxLeg.lastSeqSent hleg fun _ => rfl,
    receivedOn_updateLeg cfx _ (fun _ => rfl) fun _ => rfl⟩

/-! ### What sending puts on a leg -/

/-- What a command puts on the wire: the circuit, and the number of a SWITCH cell that
goes first. -/
structure Wire where
  circ : Circ
  switchCell : Option ℕ

/-- `relaySendCommandFromEdge` with what goes out.  DATA asks for a circuit first, and
without one nothing is sent. -/
def relaySendOnSet (drainPct : ℕ) (circs : Circ → Circuit) (cfx : Conflux κ) (origCirc : Circ)
    (relayCommand : RelayCommand) : Option (Conflux κ × Option Wire) :=
  if relayCommand = .data then do
    let (cfx, circ) ← confluxDecideNextCirc drainPct circs cfx
    if circ.isNone then some (cfx, none) else put cfx
  else put cfx
where
  put (cfx : Conflux κ) : Option (Conflux κ × Option Wire) :=
    (confluxDecideCircForSend drainPct circs cfx origCirc relayCommand).map fun d =>
      (confluxNoteCellSent d.cfx (d.circ.getD origCirc) relayCommand,
        some ⟨d.circ.getD origCirc, d.switchCell⟩)

theorem sendStep_sendCommand (maxLegsSet drainPct : ℕ) (circs : Circ → Circuit)
    (s : SendState κ) (origCirc : Circ) (relayCommand : RelayCommand) :
    sendStep maxLegsSet drainPct s (.sendCommand circs origCirc relayCommand)
      = (relaySendOnSet drainPct circs s.cfx origCirc relayCommand).map
          fun r => { s with cfx := r.1 } := by
  simp only [sendStep, relaySendOnSet, relaySendCommandFromEdge, relaySendOnSet.put]
  split_ifs
  · cases confluxDecideNextCirc drainPct circs s.cfx with
    | none => rfl
    | some r =>
      simp only [Option.bind_eq_bind, Option.bind_some]
      split_ifs
      · rfl
      · simp [Option.map_map, Function.comp_def]
  · simp [Option.map_map, Function.comp_def]

theorem confluxDecideNextCirc_frame {drainPct : ℕ} {circs : Circ → Circuit} {circ : Option Circ}
    (h : confluxDecideNextCirc drainPct circs cfx = some (cfx', circ)) :
    ∃ cells curr, cfx' = { cfx with cellsUntilSwitch := cells, currLeg := curr } := by
  have hpick : ∀ set, (if cfx.currLeg.isNone then confluxPickFirstLeg cfx else some cfx) = some set →
      ∃ cells curr, set = { cfx with cellsUntilSwitch := cells, currLeg := curr } := by
    intro set hset
    split_ifs at hset
    · obtain ⟨leg, -, rfl⟩ := confluxPickFirstLeg_eq_some hset
      exact ⟨_, _, rfl⟩
    · obtain rfl := Option.some.inj hset
      exact ⟨cfx.cellsUntilSwitch, cfx.currLeg, rfl⟩
  unfold confluxDecideNextCirc at h
  by_cases hdown : cfx.inFullTeardown = true
  · rw [if_pos hdown] at h
    obtain ⟨rfl, -⟩ := Prod.mk.inj (Option.some.inj h)
    exact ⟨cfx.cellsUntilSwitch, cfx.currLeg, rfl⟩
  rw [if_neg hdown] at h
  generalize (if cfx.currLeg.isNone then confluxPickFirstLeg cfx else some cfx) = picked at h hpick
  cases picked with
  | none =>
    obtain ⟨rfl, -⟩ := Prod.mk.inj (Option.some.inj h)
    exact ⟨cfx.cellsUntilSwitch, cfx.currLeg, rfl⟩
  | some set =>
    have hsame : cfx' = set := by
      simp only at h
      split at h
      · split at h
        · exact absurd h (by simp)
        · exact (Prod.mk.inj (Option.some.inj h)).1.symm
      · split at h
        all_goals
          obtain ⟨c, -, hc⟩ := Option.map_eq_some_iff.mp h
          exact (Prod.mk.inj hc).1.symm
    exact hsame ▸ hpick set rfl

/-- A send of a multiplexed command on a set in use: what it changes and what goes out.  The cell
goes out on a leg that has caught up with all that was sent, at once or by a SWITCH cell before
it. -/
structure SendSpec (cfx cfx' : Conflux κ) (wire : Option Wire) : Prop where
  inv : SendInv cfx'
  down : cfx'.inFullTeardown = cfx.inFullTeardown
  circs : cfx'.legs.map ConfluxLeg.circ = cfx.legs.map ConfluxLeg.circ
  received : receivedOn cfx' = receivedOn cfx
  oooQ : cfx'.oooQ = cfx.oooQ
  delivered : cfx'.lastSeqDelivered = cfx.lastSeqDelivered
  nothing : wire = none → sentOn cfx' = sentOn cfx ∧
    confluxGetMaxSeqSent cfx' = confluxGetMaxSeqSent cfx
  cell : ∀ w, wire = some w → ∃ n, sentOn cfx w.circ = some n ∧
    confluxGetMaxSeqSent cfx < uint64Max ∧
    sentOn cfx' = Function.update (sentOn cfx) w.circ (some (confluxGetMaxSeqSent cfx + 1)) ∧
    confluxGetMaxSeqSent cfx' = confluxGetMaxSeqSent cfx + 1 ∧
    ((w.switchCell = none ∧ n = confluxGetMaxSeqSent cfx) ∨
      ∃ k, w.switchCell = some k ∧ n + k = confluxGetMaxSeqSent cfx)

theorem confluxNoteCellSent_eq (hnodup : (cfx.legs.map ConfluxLeg.circ).Nodup)
    {leg : ConfluxLeg} (hleg : leg ∈ cfx.legs) (hmax : leg.lastSeqSent < uint64Max)
    {relayCommand : RelayCommand} (hmul : confluxShouldMultiplex relayCommand = true) :
    confluxNoteCellSent cfx leg.circ relayCommand
      = { cfx.updateLeg leg.circ ({ · with lastSeqSent := leg.lastSeqSent + 1 }) with
          cellsUntilSwitch := cfx.cellsUntilSwitch - 1 } := by
  simp only [confluxNoteCellSent, hmul, confluxGetLeg_of_mem hnodup hleg, Bool.not_true,
    Bool.false_eq_true, if_false, Conflux.updateLeg]
  congr 1
  refine List.map_congr_left fun l hl => ?_
  split_ifs with hsame
  · rw [List.inj_on_of_nodup_map hnodup hl hleg hsame, u64_succ hmax]
  · rfl

theorem confluxNoteCellSent_queue (cfx : Conflux κ) (circ : Circ) (relayCommand : RelayCommand) :
    (confluxNoteCellSent cfx circ relayCommand).oooQ = cfx.oooQ ∧
      (confluxNoteCellSent cfx circ relayCommand).lastSeqDelivered = cfx.lastSeqDelivered := by
  simp only [confluxNoteCellSent]
  split_ifs
  · exact ⟨rfl, rfl⟩
  · split
    · exact ⟨rfl, rfl⟩
    · exact ⟨rfl, rfl⟩

theorem sent_noteCellSent (hnodup : (cfx.legs.map ConfluxLeg.circ).Nodup) {leg : ConfluxLeg}
    (hleg : leg ∈ cfx.legs) (hmax : ∀ l ∈ cfx.legs, l.lastSeqSent ≤ leg.lastSeqSent)
    (hlt : leg.lastSeqSent < uint64Max) {relayCommand : RelayCommand}
    (hmul : confluxShouldMultiplex relayCommand = true) :
    sentOn (confluxNoteCellSent cfx leg.circ relayCommand)
        = Function.update (sentOn cfx) leg.circ (some (leg.lastSeqSent + 1)) ∧
      receivedOn (confluxNoteCellSent cfx leg.circ relayCommand) = receivedOn cfx ∧
      confluxGetMaxSeqSent (confluxNoteCellSent cfx leg.circ relayCommand)
        = leg.lastSeqSent + 1 := by
  rw [confluxNoteCellSent_eq hnodup hleg hlt hmul]
  obtain ⟨hsent, hrecv⟩ := sentOn_setSent cfx (n := leg.lastSeqSent + 1)
    (List.mem_map_of_mem hleg)
  refine ⟨hsent, hrecv, ?_⟩
  refine confluxGetMaxSeqSent_eq (fun l hl => ?_) (.inr ⟨_, List.mem_map_of_mem hleg, by simp⟩)
  obtain ⟨l', hl', rfl⟩ := List.mem_map.mp hl
  split_ifs
  · exact le_rfl
  · exact (hmax l' hl').trans (Nat.le_succ _)

theorem put_spec {drainPct : ℕ} {circs : Circ → Circuit} {origCirc : Circ}
    {relayCommand : RelayCommand} (h : SendInv cfx) (hwithin : WithinSwitch cfx)
    (hmul : confluxShouldMultiplex relayCommand = true) {circ : Option Circ}
    (hcurr : CurrLegIsMax cfx) (hlegs : ∀ c, circ = some c → c ∈ cfx.legs.map ConfluxLeg.circ)
    (hdata : relayCommand = .data → circ ≠ none) {start : Conflux κ}
    (hstart : confluxDecideNextCirc drainPct circs start = some (cfx, circ))
    {wire : Option Wire}
    (hput : relaySendOnSet.put drainPct circs origCirc relayCommand start = some (cfx', wire)) :
    cfx'.inFullTeardown = cfx.inFullTeardown ∧ receivedOn cfx' = receivedOn cfx ∧
      cfx'.oooQ = cfx.oooQ ∧ cfx'.lastSeqDelivered = cfx.lastSeqDelivered ∧
      ∃ w n, wire = some w ∧ sentOn cfx w.circ = some n ∧ confluxGetMaxSeqSent cfx < uint64Max ∧
        sentOn cfx' = Function.update (sentOn cfx) w.circ (some (confluxGetMaxSeqSent cfx + 1)) ∧
        confluxGetMaxSeqSent cfx' = confluxGetMaxSeqSent cfx + 1 ∧
        ((w.switchCell = none ∧ n = confluxGetMaxSeqSent cfx) ∨
          ∃ k, w.switchCell = some k ∧ n + k = confluxGetMaxSeqSent cfx) := by
  obtain ⟨curr, m, hc, hmem, hmax⟩ := hcurr
  obtain ⟨prev, hprev, rfl, rfl⟩ := exists_of_mem_sent hmem
  have hlt : prev.lastSeqSent < uint64Max := (hwithin prev hprev).2
  have hmaxeq := CurrLegIsMax.max_eq hmem hmax
  have hmax' : ∀ l ∈ cfx.legs, l.lastSeqSent ≤ prev.lastSeqSent := fun l hl =>
    hmax _ (mem_sent_of_mem hl)
  obtain ⟨d, hd, heq⟩ := Option.map_eq_some_iff.mp hput
  obtain ⟨rfl, rfl⟩ := Prod.mk.inj heq
  rw [hmaxeq]
  rcases confluxDecideCircForSend_cases origCirc h hwithin hmul hc hprev hmax hlegs hdata hstart with
    hcase | ⟨new, hnew, hle, hcase⟩
  · -- the current leg goes on
    obtain rfl := Option.some.inj (hd.symm.trans hcase)
    obtain ⟨hsent, hrecv, hnewmax⟩ := sent_noteCellSent h.nodup hprev hmax' hlt hmul
    simp only [Option.getD_some]
    exact ⟨(confluxNoteCellSent_frame _ _ _).2.1, hrecv, (confluxNoteCellSent_queue _ _ _).1,
      (confluxNoteCellSent_queue _ _ _).2, _, prev.lastSeqSent, rfl,
      sentOn_of_mem h.nodup hprev, hlt, hsent, hnewmax, .inl ⟨rfl, rfl⟩⟩
  · -- another leg skips what it has missed first
    obtain rfl := Option.some.inj (hd.symm.trans hcase)
    set caught : Conflux κ := { cfx with cellsUntilSwitch := 0, prevLeg := some prev.circ,
                                         currLeg := some new.circ }.updateLeg new.circ
      ({ · with lastSeqSent := prev.lastSeqSent }) with hcaught
    have hcircs : caught.legs.map ConfluxLeg.circ = cfx.legs.map ConfluxLeg.circ :=
      map_circ_updateLeg fun _ => rfl
    have hnodup : (caught.legs.map ConfluxLeg.circ).Nodup := hcircs ▸ h.nodup
    have hin : { new with lastSeqSent := prev.lastSeqSent } ∈ caught.legs :=
      List.mem_map.mpr ⟨new, hnew, by simp⟩
    have hmax₁ : ∀ l ∈ caught.legs, l.lastSeqSent ≤ prev.lastSeqSent := by
      intro l hl
      obtain ⟨l', hl', rfl⟩ := List.mem_map.mp hl
      split_ifs
      · exact le_rfl
      · exact hmax' l' hl'
    obtain ⟨hsent, hrecv, hnewmax⟩ := sent_noteCellSent hnodup hin hmax₁ hlt hmul
    obtain ⟨hsent₁, hrecv₁⟩ := sentOn_setSent
      { cfx with cellsUntilSwitch := 0, prevLeg := some prev.circ, currLeg := some new.circ }
      (n := prev.lastSeqSent) (List.mem_map_of_mem hnew)
    simp only [Option.getD_some] at hsent hrecv hnewmax ⊢
    refine ⟨(confluxNoteCellSent_frame _ _ _).2.1, hrecv.trans hrecv₁,
      (confluxNoteCellSent_queue _ _ _).1, (confluxNoteCellSent_queue _ _ _).2, _,
      new.lastSeqSent, rfl, sentOn_of_mem h.nodup hnew, hlt, ?_, hnewmax,
      .inr ⟨_, rfl, by omega⟩⟩
    rw [hsent]
    funext c
    by_cases hcn : c = new.circ
    · subst hcn
      simp only [Function.update_self]
    · rw [Function.update_of_ne hcn, Function.update_of_ne hcn]
      have hpoint := congrFun hsent₁ c
      rw [Function.update_of_ne hcn] at hpoint
      exact hpoint

theorem relaySendOnSet_spec {drainPct : ℕ} {circs : Circ → Circuit} {origCirc : Circ}
    {relayCommand : RelayCommand} (h : SendInv cfx) (hdown : cfx.inFullTeardown = false)
    (hlegs : cfx.legs ≠ []) (hwithin : WithinSwitch cfx)
    (hmul : confluxShouldMultiplex relayCommand = true) {wire : Option Wire}
    (hstep : relaySendOnSet drainPct circs cfx origCirc relayCommand = some (cfx', wire)) :
    SendSpec cfx cfx' wire := by
  obtain ⟨set, hsend, hinv, hcircs⟩ :=
    sendCommand_spec (s := (⟨cfx, [], true⟩ : SendState κ)) 0 drainPct circs origCirc relayCommand h hwithin
  rw [sendStep_sendCommand, hstep, Option.map_some] at hsend
  obtain rfl : cfx' = set := congrArg SendState.cfx (Option.some.inj hsend)
  obtain ⟨cfx₁, circ, hnext, h₁, -, hcase⟩ := confluxDecideNextCirc_spec drainPct circs h
  obtain ⟨cells, curr, rfl⟩ := confluxDecideNextCirc_frame hnext
  rcases hcase with ⟨-, hdown' | hnil⟩ | ⟨-, hcurr, hagain, hmem⟩
  · exact absurd (hdown.symm.trans hdown') (by simp)
  · exact absurd hnil hlegs
  by_cases hfound : relayCommand = .data ∧ circ = none
  · -- DATA and no circuit: nothing is sent
    obtain ⟨hd, rfl⟩ := hfound
    simp only [relaySendOnSet, if_pos hd, hnext, Option.bind_eq_bind, Option.bind_some,
      Option.isNone_none, if_true] at hstep
    obtain ⟨rfl, rfl⟩ := Prod.mk.inj (Option.some.inj hstep)
    exact ⟨hinv, rfl, rfl, rfl, rfl, rfl, fun _ => ⟨rfl, rfl⟩, by simp⟩
  · have hdata : relayCommand = .data → circ ≠ none := fun hd hc => hfound ⟨hd, hc⟩
    obtain ⟨start, hstart, hput⟩ : ∃ start,
        confluxDecideNextCirc drainPct circs start = some (_, circ) ∧
        relaySendOnSet.put drainPct circs origCirc relayCommand start = some (cfx', wire) := by
      by_cases hd : relayCommand = .data
      · refine ⟨_, hagain, ?_⟩
        obtain ⟨c, rfl⟩ := Option.ne_none_iff_exists'.mp (hdata hd)
        simpa only [relaySendOnSet, if_pos hd, hnext, Option.bind_eq_bind, Option.bind_some,
          Option.isNone_some, Bool.false_eq_true, if_false] using hstep
      · exact ⟨cfx, hnext, by simpa only [relaySendOnSet, if_neg hd] using hstep⟩
    obtain ⟨hdown₁, hrecv, hq, hdel, w, n, rfl, hspec⟩ :=
      put_spec h₁ hwithin hmul hcurr hmem hdata hstart hput
    refine ⟨hinv, hdown₁, hcircs, hrecv, hq, hdel, by simp, ?_⟩
    intro w' hw'
    obtain rfl := Option.some.inj hw'
    exact ⟨n, hspec⟩

/-! ### What receiving delivers -/

/-- The loop of `connection_edge_process_relay_cell` over `conflux_dequeue_cell`, for as many cells
as are queued. -/
def confluxDequeueAll : ℕ → Conflux κ → Conflux κ × List κ
  | 0, cfx => (cfx, [])
  | n + 1, cfx =>
    match confluxDequeueCell cfx with
    | none => (cfx, [])
    | some (top, cfx) => ((confluxDequeueAll n cfx).1, top.cell :: (confluxDequeueAll n cfx).2)

/-- The part of `connection_edge_process_relay_cell` that is about conflux, for a cell that is
multiplexed: what is delivered.  On a circuit that is in no set the cell is delivered as it
comes. -/
def processRelayCell (cfx : Conflux κ) (circ : Circ) (cell : κ) : Conflux κ × List κ :=
  match confluxGetLeg cfx circ with
  | none => (cfx, [cell])
  | some leg =>
    match confluxProcessCell cfx leg cell with
    | (cfx, .inOrder) =>
      ((confluxDequeueAll cfx.oooQ.length cfx).1, cell :: (confluxDequeueAll cfx.oooQ.length cfx).2)
    | (cfx, _) => (cfx, [])

def heldOf (oooQ : List (ConfluxCell κ)) : List (ℕ × κ) := oooQ.map fun c => (c.seq, c.cell)

theorem mem_heldOf {oooQ : List (ConfluxCell κ)} {e : ℕ × κ} :
    e ∈ heldOf oooQ ↔ (⟨e.1, e.2⟩ : ConfluxCell κ) ∈ oooQ := by
  rw [heldOf, List.mem_map]
  constructor
  · rintro ⟨c, hc, rfl⟩
    exact hc
  · exact fun h => ⟨_, h, rfl⟩

theorem pairwise_heldOf {oooQ : List (ConfluxCell κ)} :
    ((heldOf oooQ).Pairwise fun a b => a.1 < b.1) ↔ oooQ.Pairwise fun a b => a.seq < b.seq :=
  List.pairwise_map

theorem pairwise_smartlistPqueueAdd {oooQ : List (ConfluxCell κ)} {cell : ConfluxCell κ}
    (h : oooQ.Pairwise fun a b => a.seq < b.seq) (hnew : ∀ c ∈ oooQ, c.seq ≠ cell.seq) :
    (smartlistPqueueAdd oooQ cell).Pairwise fun a b => a.seq < b.seq := by
  induction oooQ with
  | nil => simp [smartlistPqueueAdd]
  | cons c oooQ ih =>
    obtain ⟨hc, hrest⟩ := List.pairwise_cons.mp h
    have hne : c.seq ≠ cell.seq := hnew c List.mem_cons_self
    rw [smartlistPqueueAdd, List.orderedInsert_cons]
    split_ifs with hle
    · refine List.pairwise_cons.mpr ⟨fun b hb => ?_, h⟩
      rcases List.mem_cons.mp hb with rfl | hb
      · omega
      · have hlt := hc b hb
        omega
    · refine List.pairwise_cons.mpr ⟨fun b hb => ?_, ih hrest fun b hb => hnew b (by simp [hb])⟩
      rcases List.mem_orderedInsert _ |>.mp hb with rfl | hb
      · omega
      · exact hc b hb

structure AtReceiver (ch : Chan Circ κ) (cfx : Conflux κ) : Prop where
  held : ch.held = heldOf cfx.oooQ
  delivered : ch.delivered = cfx.lastSeqDelivered

theorem confluxDequeueAll_spec {ch : Chan Circ κ} (n : ℕ) (hn : cfx.oooQ.length ≤ n) (h : ch.Inv)
    (hrecv : AtReceiver ch cfx) (hmax : ch.log.length ≤ uint64Max) :
    ∃ ch' oooQ delivered, ch'.Inv ∧ ch'.Settled ∧
      (confluxDequeueAll n cfx).1 = { cfx with oooQ := oooQ, lastSeqDelivered := delivered } ∧
      AtReceiver ch' (confluxDequeueAll n cfx).1 ∧
      ch' = { ch with held := ch'.held, delivered := ch'.delivered,
                      out := ch.out ++ (confluxDequeueAll n cfx).2 } := by
  induction n generalizing cfx ch with
  | zero =>
    have hnil : cfx.oooQ = [] := List.length_eq_zero_iff.mp (Nat.le_zero.mp hn)
    refine ⟨ch, cfx.oooQ, cfx.lastSeqDelivered, h, fun x => ?_, rfl, hrecv, ?_⟩
    · rw [hrecv.held, hnil]
      simp [heldOf]
    · simp [confluxDequeueAll]
  | succ n ih =>
    cases hq : cfx.oooQ with
    | nil =>
      have hnone : confluxDequeueCell cfx = none := by simp only [confluxDequeueCell, hq]
      refine ⟨ch, cfx.oooQ, cfx.lastSeqDelivered, h, fun x => ?_, ?_, ?_, ?_⟩
      · rw [hrecv.held, hq]
        simp [heldOf]
      · simp only [confluxDequeueAll, hnone]
      · simpa only [confluxDequeueAll, hnone] using hrecv
      · simp [confluxDequeueAll, hnone]
    | cons top rest =>
      have hheld : ch.held = (top.seq, top.cell) :: heldOf rest := by
        rw [hrecv.held, hq, heldOf, List.map_cons, heldOf]
      obtain ⟨hgt, c, r, hlog, -, hle⟩ := (h.held_iff top.seq top.cell).mp (hheld ▸ List.mem_cons_self)
      have hlen := (List.getElem?_eq_some_iff.mp hlog).1
      have hnext : u64 (cfx.lastSeqDelivered + 1) = cfx.lastSeqDelivered + 1 := by
        rw [← hrecv.delivered]
        exact u64_succ (by omega)
      by_cases htop : top.seq = cfx.lastSeqDelivered + 1
      · -- the first of the queue is next
        have hsome : confluxDequeueCell cfx
            = some (top, { cfx with oooQ := rest, lastSeqDelivered := cfx.lastSeqDelivered + 1 }) := by
          simp only [confluxDequeueCell, hq, hnext, if_pos htop]
        have hrel : (ch.release (heldOf rest) top.cell).Inv := h.release (by
          rw [hheld, htop, hrecv.delivered])
        have hat₀ : AtReceiver (ch.release (heldOf rest) top.cell)
            { cfx with oooQ := rest, lastSeqDelivered := cfx.lastSeqDelivered + 1 } :=
          ⟨rfl, congrArg (· + 1) hrecv.delivered⟩
        have hn₀ : rest.length ≤ n := by simpa [hq] using hn
        obtain ⟨ch', oooQ, delivered, hinv, hset, heq, hat, hch⟩ := ih hn₀ hrel hat₀ hmax
        refine ⟨ch', oooQ, delivered, hinv, hset, ?_, ?_, ?_⟩
        · simp only [confluxDequeueAll, hsome, heq]
        · simpa only [confluxDequeueAll, hsome] using hat
        · rw [hch]
          simp [confluxDequeueAll, hsome, Chan.release]
      · have hnone : confluxDequeueCell cfx = none := by
          simp only [confluxDequeueCell, hq, hnext, if_neg htop]
        refine ⟨ch, cfx.oooQ, cfx.lastSeqDelivered, h, fun x hx => ?_, ?_, ?_, ?_⟩
        · -- the queue is in order, so nothing behind its first cell is next either
          have hsorted := h.sorted
          rw [hheld, List.pairwise_cons] at hsorted
          rw [hheld] at hx
          have hdel := hrecv.delivered
          rcases List.mem_cons.mp hx with heq | hmem
          · have hseq := (Prod.mk.inj heq).1
            omega
          · have hlt : top.seq < ch.delivered + 1 := hsorted.1 _ hmem
            omega
        · simp only [confluxDequeueAll, hnone]
        · simpa only [confluxDequeueAll, hnone] using hrecv
        · simp [confluxDequeueAll, hnone]

/-- What an end's set is after a cell or a SWITCH cell has come in on a leg: one counter and what
is in order have moved. -/
structure ReceiveSpec (cfx cfx' : Conflux κ) (c : Circ) (r : ℕ) : Prop where
  received : receivedOn cfx' = Function.update (receivedOn cfx) c (some r)
  sentOn : sentOn cfx' = sentOn cfx
  sent : cfx'.sent = cfx.sent
  curr : cfx'.currLeg = cfx.currLeg
  alg : cfx'.alg = cfx.alg
  down : cfx'.inFullTeardown = cfx.inFullTeardown
  nonce : cfx'.nonce = cfx.nonce

theorem receiveSpec_of_updateLeg {c : Circ} {leg : ConfluxLeg} (hleg : confluxGetLeg cfx c = some leg)
    {f : ConfluxLeg → ConfluxLeg} (hcirc : ∀ l, (f l).circ = l.circ)
    (hsent : ∀ l, (f l).lastSeqSent = l.lastSeqSent) {r : ℕ} (hr : (f leg).lastSeqRecv = r)
    {oooQ : List (ConfluxCell κ)} {delivered : ℕ}
    (h : cfx' = { cfx.updateLeg c f with oooQ := oooQ, lastSeqDelivered := delivered }) :
    ReceiveSpec cfx cfx' c r := by
  have hrecv := map_confluxGetLeg_updateLeg ConfluxLeg.lastSeqRecv hleg hcirc
  subst h
  refine ⟨hr ▸ hrecv, sentOn_updateLeg cfx c hcirc hsent, sent_updateLeg fun l => ⟨hcirc l, hsent l⟩, rfl, rfl, rfl, rfl⟩

theorem processRelayCell_spec {ch : Chan Circ κ} {c : Circ} {r : ℕ} {x : κ}
    {q : List (LegCell κ)} (h : ch.Inv) (hset : ch.Settled) (hat : AtReceiver ch cfx)
    (hr : ch.recv c = some r) (hrecv : receivedOn cfx c = some r) (hq : ch.inq c = .item x :: q)
    (hmax : ch.log.length ≤ uint64Max) :
    ∃ ch', ch'.Inv ∧ ch'.Settled ∧ AtReceiver ch' (processRelayCell cfx c x).1 ∧
      ch' = { ch with recv := Function.update ch.recv c (some (r + 1))
                      inq := Function.update ch.inq c q
                      held := ch'.held
                      delivered := ch'.delivered
                      out := ch.out ++ (processRelayCell cfx c x).2 } ∧
      ReceiveSpec cfx (processRelayCell cfx c x).1 c (r + 1) := by
  obtain ⟨leg, hleg, rfl⟩ := Option.map_eq_some_iff.mp hrecv
  obtain rfl := (mem_of_confluxGetLeg hleg).2
  obtain ⟨hx, hge, hlt, -⟩ := h.entry hr hq
  have hnext : u64 (leg.lastSeqRecv + 1) = leg.lastSeqRecv + 1 := u64_succ (by omega)
  have hdel : u64 (cfx.lastSeqDelivered + 1) = cfx.lastSeqDelivered + 1 := by
    rw [← hat.delivered]
    exact u64_succ (by omega)
  rw [hat.delivered] at hge
  set moved : Conflux κ :=
    cfx.updateLeg leg.circ ({ · with lastSeqRecv := leg.lastSeqRecv + 1 }) with hmoved
  by_cases hturn : leg.lastSeqRecv = cfx.lastSeqDelivered
  · -- its turn: it is delivered, then what the queue has next
    have hproc : confluxProcessCell cfx leg x
        = ({ moved with lastSeqDelivered := cfx.lastSeqDelivered + 1 }, .inOrder) := by
      simp only [confluxProcessCell, updateLeg_lastSeqDelivered, hdel, hturn, if_true]
      rw [hmoved, hturn]
    have hinv := h.arriveNext hr hq (hturn.trans hat.delivered.symm)
    have hat₀ : AtReceiver (ch.arriveNext leg.circ (leg.lastSeqRecv + 1) q x)
        { moved with lastSeqDelivered := cfx.lastSeqDelivered + 1 } :=
      ⟨hat.held, congrArg (· + 1) hat.delivered⟩
    obtain ⟨ch', oooQ, delivered, hinv', hset', heq, hat', hch⟩ :=
      confluxDequeueAll_spec _ le_rfl hinv hat₀ hmax
    have hstep : processRelayCell cfx leg.circ x =
        ((confluxDequeueAll moved.oooQ.length
            { moved with lastSeqDelivered := cfx.lastSeqDelivered + 1 }).1,
          x :: (confluxDequeueAll moved.oooQ.length
            { moved with lastSeqDelivered := cfx.lastSeqDelivered + 1 }).2) := by
      simp only [processRelayCell, hleg, hproc]
    rw [hstep]
    refine ⟨ch', hinv', hset', hat', ?_, ?_⟩
    · rw [hch]
      simp [Chan.arriveNext]
    · exact receiveSpec_of_updateLeg hleg (f := ({ · with lastSeqRecv := leg.lastSeqRecv + 1 }))
        (fun _ => rfl) (fun _ => rfl) rfl heq
  · -- before its turn: it is queued
    have hearly : ¬ leg.lastSeqRecv + 1 = cfx.lastSeqDelivered + 1 := by omega
    have hlate : ¬ leg.lastSeqRecv + 1 ≤ cfx.lastSeqDelivered := by omega
    have hproc : confluxProcessCell cfx leg x
        = ({ moved with oooQ := smartlistPqueueAdd cfx.oooQ ⟨leg.lastSeqRecv + 1, x⟩ },
          .queued) := by
      simp only [confluxProcessCell, hnext, updateLeg_lastSeqDelivered, hdel, if_neg hearly,
        if_neg hlate, updateLeg_oooQ]
      rfl
    have hmem : ∀ e, e ∈ heldOf (smartlistPqueueAdd cfx.oooQ ⟨leg.lastSeqRecv + 1, x⟩) ↔
        e = (leg.lastSeqRecv + 1, x) ∨ e ∈ ch.held := by
      intro e
      rw [mem_heldOf, smartlistPqueueAdd, List.mem_orderedInsert, hat.held, mem_heldOf]
      refine or_congr_left ⟨fun he => ?_, fun he => by rw [he]⟩
      obtain ⟨h1, h2⟩ := ConfluxCell.mk.inj he
      exact Prod.ext h1 h2
    have hinv := h.arriveEarly hr hq hmem fun hnew => by
      refine pairwise_heldOf.mpr (pairwise_smartlistPqueueAdd ?_ ?_)
      · exact pairwise_heldOf.mp (hat.held ▸ h.sorted)
      · rintro ⟨seq, y⟩ hcell rfl
        exact hnew y (by rwa [hat.held, mem_heldOf])
    have hstep : processRelayCell cfx leg.circ x =
        ({ moved with oooQ := smartlistPqueueAdd cfx.oooQ ⟨leg.lastSeqRecv + 1, x⟩ }, []) := by
      simp only [processRelayCell, hleg, hproc]
    rw [hstep]
    refine ⟨_, hinv, ?_, ⟨rfl, hat.delivered⟩, ?_, ?_⟩
    · intro y hy
      rcases (hmem _).mp hy with heq | hold
      · have hnum := (Prod.mk.inj heq).1
        have hdelivered : ch.delivered + 1 = leg.lastSeqRecv + 1 := hnum
        rw [hat.delivered] at hdelivered
        omega
      · exact hset y hold
    · simp [Chan.arriveEarly]
    · exact receiveSpec_of_updateLeg hleg (f := ({ · with lastSeqRecv := leg.lastSeqRecv + 1 }))
        (fun _ => rfl) (fun _ => rfl) rfl rfl

end Conflux
