/-
The turns of relay cells and DESTROY cells (`core/or/circuitmux.c`).

`circuitmux_get_first_active_circuit` remembers in one bit whether it picked a DESTROY last.
No other operation writes the bit, so the picks take turns as long as both kinds wait
whenever one is made.
-/
import LibEltor.Circuitmux

open CircidMap Transition

namespace Circuitmux

variable {Chan : Type*} [DecidableEq Chan] {m m' : Mux Chan} {chan : Chan} {s s' : State Chan}

/-! ### The bit -/

theorem torAssert_bind_eq_some {α : Type*} {c : Prop} [Decidable c] {f : PUnit → Option α} {a : α}
    (h : (torAssert c).bind f = some a) : f ⟨⟩ = some a := by
  unfold torAssert at h
  split_ifs at h
  · exact h
  · exact absurd h (by simp)

theorem makeCircuitActive_last {sides : CellDirection → Link Chan}
    (h : circuitmuxMakeCircuitActive sides m = some m') :
    m'.lastCellWasDestroy = m.lastCellWasDestroy := by
  obtain ⟨found, -, h⟩ := Option.bind_eq_some_iff.mp h
  rcases found with _ | e
  · exact absurd h (by simp)
  · obtain rfl := Option.some_inj.mp (torAssert_bind_eq_some (f := fun _ => some _) h)
    rfl

theorem makeCircuitInactive_last {sides : CellDirection → Link Chan}
    (h : circuitmuxMakeCircuitInactive sides m = some m') :
    m'.lastCellWasDestroy = m.lastCellWasDestroy := by
  obtain ⟨found, -, h⟩ := Option.bind_eq_some_iff.mp h
  rcases found with _ | e
  · exact absurd h (by simp)
  · obtain rfl := Option.some_inj.mp (torAssert_bind_eq_some (f := fun _ => some _) h)
    rfl

theorem updateActive_last {sides : CellDirection → Link Chan} {old new : UInt32}
    (h : updateActive sides old new m = some m') :
    m'.lastCellWasDestroy = m.lastCellWasDestroy := by
  unfold updateActive at h
  split_ifs at h
  · exact (makeCircuitInactive_last h).trans rfl
  · exact (makeCircuitActive_last h).trans rfl
  · exact congrArg Mux.lastCellWasDestroy (Option.some_inj.mp h).symm

theorem setNumCells_last {sides : CellDirection → Link Chan} {n : UInt32}
    (h : circuitmuxSetNumCells sides n m = some m') :
    m'.lastCellWasDestroy = m.lastCellWasDestroy := by
  obtain ⟨found, -, h⟩ := Option.bind_eq_some_iff.mp h
  rcases found with _ | e
  · exact absurd h (by simp)
  · obtain ⟨mid, hmid, h⟩ := Option.bind_eq_some_iff.mp h
    obtain rfl := Option.some_inj.mp h
    exact (updateActive_last hmid).trans rfl

theorem notifyXmitCells_last {sides : CellDirection → Link Chan} {n : UInt32}
    (h : circuitmuxNotifyXmitCells sides n m = some m') :
    m'.lastCellWasDestroy = m.lastCellWasDestroy := by
  unfold circuitmuxNotifyXmitCells at h
  split_ifs at h
  · exact congrArg Mux.lastCellWasDestroy (Option.some_inj.mp h).symm
  · obtain ⟨found, -, h⟩ := Option.bind_eq_some_iff.mp h
    rcases found with _ | e
    · exact absurd h (by simp)
    · have h := torAssert_bind_eq_some h
      dsimp only at h
      split_ifs at h
      · exact (makeCircuitInactive_last h).trans rfl
      · obtain rfl := Option.some_inj.mp h
        rfl

theorem attachCircuit_last {p : ℕ} {sides : CellDirection → Link Chan} {dir : CellDirection}
    {n : UInt32} (h : circuitmuxAttachCircuit p sides dir n m = some m') :
    m'.lastCellWasDestroy = m.lastCellWasDestroy := by
  unfold circuitmuxAttachCircuit at h
  rcases hchan : (sides dir).chan with _ | c
  · rw [hchan] at h
    exact absurd h (by simp)
  · rw [hchan] at h
    have h := torAssert_bind_eq_some h
    dsimp only at h
    split at h
    · have h := torAssert_bind_eq_some h
      obtain ⟨mid, hmid, h⟩ := Option.bind_eq_some_iff.mp h
      obtain rfl := Option.some_inj.mp h
      exact (updateActive_last hmid).trans rfl
    · split_ifs at h
      · obtain ⟨mid, hmid, h⟩ := Option.bind_eq_some_iff.mp h
        obtain rfl := Option.some_inj.mp h
        exact (makeCircuitActive_last hmid).trans rfl
      · obtain rfl := Option.some_inj.mp h
        rfl

theorem detachCircuit_last {sides : CellDirection → Link Chan}
    (h : circuitmuxDetachCircuit sides m = some m') :
    m'.lastCellWasDestroy = m.lastCellWasDestroy := by
  unfold circuitmuxDetachCircuit at h
  have h := torAssert_bind_eq_some h
  dsimp only at h
  split at h
  · exact congrArg Mux.lastCellWasDestroy (Option.some_inj.mp h).symm
  · split_ifs at h
    · obtain ⟨mid, hmid, h⟩ := Option.bind_eq_some_iff.mp h
      obtain rfl := Option.some_inj.mp (torAssert_bind_eq_some (f := fun _ => some _) h)
      exact (makeCircuitInactive_last hmid).trans rfl
    · obtain rfl := Option.some_inj.mp (torAssert_bind_eq_some (f := fun _ => some _) h)
      rfl

theorem flushFirstActive_last {link : ℕ → CellDirection → Link Chan} {first : Key Chan} {o : Flushed}
    {choice : Choice} {picked : Mux Chan}
    (hget : circuitmuxGetFirstActiveCircuit first m = some (choice, picked))
    (h : flushFirstActive link first o m = some m') :
    m'.lastCellWasDestroy = picked.lastCellWasDestroy := by
  unfold flushFirstActive at h
  rw [hget] at h
  cases choice with
  | destroyQueue =>
    have h := torAssert_bind_eq_some h
    obtain rfl := Option.some_inj.mp h
    split_ifs <;> rfl
  | circuit p =>
    change (if o.queued = 0 then _ else _) = _ at h
    split_ifs at h
    · exact setNumCells_last h
    · obtain ⟨mid, hmid, h⟩ := Option.bind_eq_some_iff.mp h
      exact (setNumCells_last h).trans (notifyXmitCells_last hmid)
    · exact congrArg Mux.lastCellWasDestroy (Option.some_inj.mp h).symm
  | nothing => exact congrArg Mux.lastCellWasDestroy (Option.some_inj.mp h).symm

/-! ### Picks -/

def Op.picks : Op Chan → Option (Key Chan)
  | .getFirstActiveCircuit first => some first
  | .flushFirstActive first _ => some first
  | _ => none

theorem exec_lastCellWasDestroy {op : Op Chan} (h : exec s op = some m') :
    (op.picks = none → m'.lastCellWasDestroy = s.mux.lastCellWasDestroy) ∧
    ∀ first choice picked, op.picks = some first →
      circuitmuxGetFirstActiveCircuit first s.mux = some (choice, picked) →
        m'.lastCellWasDestroy = picked.lastCellWasDestroy := by
  cases op with
  | attachCircuit p dir n =>
    exact ⟨fun _ => attachCircuit_last h, fun _ _ _ hp => absurd hp (by simp [Op.picks])⟩
  | detachCircuit p =>
    exact ⟨fun _ => detachCircuit_last h, fun _ _ _ hp => absurd hp (by simp [Op.picks])⟩
  | setNumCells p n =>
    exact ⟨fun _ => setNumCells_last h, fun _ _ _ hp => absurd hp (by simp [Op.picks])⟩
  | notifyXmitCells p n =>
    exact ⟨fun _ => notifyXmitCells_last h, fun _ _ _ hp => absurd hp (by simp [Op.picks])⟩
  | appendDestroyCell circId reason =>
    obtain rfl := Option.some_inj.mp h
    exact ⟨fun _ => rfl, fun _ _ _ hp => absurd hp (by simp [Op.picks])⟩
  | getFirstActiveCircuit first =>
    refine ⟨fun hp => absurd hp (by simp [Op.picks]), fun first' choice picked hp hget => ?_⟩
    obtain rfl : first = first' := Option.some_inj.mp hp
    rw [exec, hget] at h
    exact congrArg Mux.lastCellWasDestroy (Option.some_inj.mp h).symm
  | flushFirstActive first o =>
    refine ⟨fun hp => absurd hp (by simp [Op.picks]), fun first' choice picked hp hget => ?_⟩
    obtain rfl : first = first' := Option.some_inj.mp hp
    exact flushFirstActive_last hget h
  | setLink p dir l =>
    obtain rfl := Option.some_inj.mp h
    exact ⟨fun _ => rfl, fun _ _ _ hp => absurd hp (by simp [Op.picks])⟩

def Busy (m : Mux Chan) : Prop := 0 < m.nActiveCircuits ∧ m.destroyCellQueue ≠ []

def Choice.isDestroy : Choice → Bool
  | .destroyQueue => true
  | _ => false

theorem Ok.pick_of_busy {link : ℕ → CellDirection → Link Chan} (h : Ok chan link m)
    (hbusy : Busy m) {first : Key Chan} (hfirst : m.active ≠ [] → first ∈ m.active)
    {choice : Choice} {picked : Mux Chan}
    (hget : circuitmuxGetFirstActiveCircuit first m = some (choice, picked)) :
    choice.isDestroy = !m.lastCellWasDestroy ∧ picked.lastCellWasDestroy = choice.isDestroy ∧
      (choice = .destroyQueue ∨ ∃ p, choice = .circuit p) := by
  obtain ⟨hactive, hqueue⟩ := hbusy
  have hne : m.nActiveCircuits ≠ 0 := by
    rintro hzero
    rw [hzero] at hactive
    exact absurd hactive (by decide)
  rw [circuitmuxGetFirstActiveCircuit] at hget
  cases hlast : m.lastCellWasDestroy with
  | false =>
    rw [if_pos ⟨hqueue, .inl hlast⟩] at hget
    obtain ⟨rfl, rfl⟩ := Prod.mk.inj (Option.some_inj.mp hget)
    exact ⟨rfl, rfl, .inl rfl⟩
  | true =>
    rw [if_neg (by simp [hlast, hne]), if_pos hactive] at hget
    obtain ⟨rfl, rfl⟩ := Prod.mk.inj (Option.some_inj.mp (torAssert_bind_eq_some hget))
    -- a circuit that is counted as active is in the policy's queue
    have hsome : m.active ≠ [] := by
      intro hnil
      have hcount := h.toNat_nActiveCircuits
      have hzero : tally (fun info => activeOf info.cellCount) m.chanidCircidMap = 0 := by
        refine List.sum_eq_zero fun n hn => ?_
        obtain ⟨e, he, rfl⟩ := List.mem_map.mp hn
        refine if_neg fun hpos => ?_
        have hmem := (h.mem_active e.1).mpr ⟨e.2, AList.mem_lookup_iff.mpr he, hpos⟩
        rw [hnil] at hmem
        exact absurd hmem List.not_mem_nil
      rw [hzero] at hcount
      exact hne (UInt32.toNat_inj.mp hcount)
    obtain ⟨info, hk, -⟩ := (h.mem_active first).mp (hfirst hsome)
    rw [if_neg hsome, hk]
    exact ⟨rfl, rfl, .inr ⟨info.circ, rfl⟩⟩

/-- A run from `s` to `s'` with the picks of it, in which both kinds wait whenever one is made. -/
inductive Picks (chan : Chan) : State Chan → List Choice → State Chan → Prop
  | done (s : State Chan) : Picks chan s [] s
  | other {s mid s' : State Chan} {op : Op Chan} {picks : List Choice}
      (hstep : (circuitmux chan).step s op mid) (hother : op.picks = none)
      (hrest : Picks chan mid picks s') : Picks chan s picks s'
  | pick {s mid s' : State Chan} {op : Op Chan} {picks : List Choice} {first : Key Chan}
      {choice : Choice} {picked : Mux Chan} (hstep : (circuitmux chan).step s op mid)
      (hpick : op.picks = some first) (hbusy : Busy s.mux)
      (hget : circuitmuxGetFirstActiveCircuit first s.mux = some (choice, picked))
      (hrest : Picks chan mid picks s') : Picks chan s (choice :: picks) s'

theorem ok_step {op : Op Chan} (h : Ok chan s.link s.mux) (hstep : (circuitmux chan).step s op s') :
    Ok chan s'.link s'.mux := by
  obtain ⟨hallowed, hexec, hlink⟩ := hstep
  obtain ⟨m', hexec', h', -⟩ := h.exec hallowed (picked_of_exec hexec)
  obtain rfl : m' = s'.mux := Option.some_inj.mp (hexec'.symm.trans hexec)
  rwa [hlink]

theorem allowed_first {op : Op Chan} {first : Key Chan} (hallowed : Allowed chan s op)
    (hpick : op.picks = some first) : s.mux.active ≠ [] → first ∈ s.mux.active := by
  cases op with
  | getFirstActiveCircuit first' => exact Option.some_inj.mp hpick ▸ hallowed
  | flushFirstActive first' o => exact Option.some_inj.mp hpick ▸ hallowed
  | _ => exact absurd hpick (by simp [Op.picks])

theorem Picks.alternate {picks : List Choice} (hp : Picks chan s picks s')
    (h : Ok chan s.link s.mux) :
    picks.IsChain (fun a b => b.isDestroy = !a.isDestroy) ∧
    (∀ choice ∈ picks.head?, choice.isDestroy = !s.mux.lastCellWasDestroy) ∧
    ∀ choice ∈ picks, choice = .destroyQueue ∨ ∃ p, choice = .circuit p := by
  induction hp with
  | done s => exact ⟨List.IsChain.nil, by simp, by simp⟩
  | other hstep hother hrest ih =>
    obtain ⟨hchain, hfirst, hkinds⟩ := ih (ok_step h hstep)
    rw [(exec_lastCellWasDestroy hstep.2.1).1 hother] at hfirst
    exact ⟨hchain, hfirst, hkinds⟩
  | @pick s mid s' op picks first choice picked hstep hpick hbusy hget hrest ih =>
    obtain ⟨hchain, hfirst, hkinds⟩ := ih (ok_step h hstep)
    obtain ⟨hturn, hbit, hkind⟩ := h.pick_of_busy hbusy (allowed_first hstep.1 hpick) hget
    -- the next pick reads the bit that this one has set
    rw [(exec_lastCellWasDestroy hstep.2.1).2 first choice picked hpick hget, hbit] at hfirst
    refine ⟨?_, ?_, ?_⟩
    · cases picks with
      | nil => exact List.IsChain.singleton _
      | cons next picks => exact List.isChain_cons_cons.mpr ⟨hfirst next (by simp), hchain⟩
    · intro c hc
      obtain rfl : choice = c := by simpa using hc
      exact hturn
    · intro c hc
      rcases List.mem_cons.mp hc with rfl | hc
      · exact hkind
      · exact hkinds c hc

theorem ok_of_reached (hr : Reached (circuitmux chan) (fun _ _ => True) s) :
    Ok chan s.link s.mux := by
  induction hr with
  | init hi =>
    have hinit : Reached (circuitmux chan) writesDestroys _ := .init hi
    exact (hinit.invariant (ok_inductive chan)).1
  | step _ _ hstep ih => exact ok_step ih hstep

/-- **Picks alternate.**  In every run of a multiplexer, from any state it can be in, in which there
are active circuits and DESTROY cells whenever a pick is made, each pick is of a DESTROY or of a cell
of a circuit, and it is not of the same kind as the one before. -/
theorem picks_alternate {picks : List Choice}
    (hr : Reached (circuitmux chan) (fun _ _ => True) s) (hp : Picks chan s picks s') :
    picks.IsChain (fun a b => b.isDestroy = !a.isDestroy) ∧
      ∀ choice ∈ picks, choice = .destroyQueue ∨ ∃ p, choice = .circuit p := by
  obtain ⟨hchain, -, hkinds⟩ := hp.alternate (ok_of_reached hr)
  exact ⟨hchain, hkinds⟩

def busyMux (lastCellWasDestroy : Bool) : Mux ℕ where
  nCircuits := 1
  nActiveCircuits := 1
  nCells := 1
  chanidCircidMap := AList.insert (7, 5) ⟨1, .dirOut, 0⟩ ∅
  destroyCellQueue := [(6, 1)]
  lastCellWasDestroy
  destroyCtr := 1
  active := [(7, 5)]

theorem reached_busyMux :
    Reached (circuitmux 7) (fun _ _ => True) ⟨sampleLink, busyMux false⟩ := by
  have hattach : (circuitmux 7).step ⟨sampleLink, .alloc⟩ (.attachCircuit 0 .dirOut 1)
      ⟨sampleLink, { busyMux false with destroyCellQueue := [], destroyCtr := 0 }⟩ :=
    ⟨⟨rfl, by decide⟩, rfl, rfl⟩
  have happend : (circuitmux 7).step
      ⟨sampleLink, { busyMux false with destroyCellQueue := [], destroyCtr := 0 }⟩
      (.appendDestroyCell 6 1) ⟨sampleLink, busyMux false⟩ := ⟨trivial, rfl, rfl⟩
  exact .step (.step (.init ⟨sampleLink_sides, rfl⟩) trivial hattach) trivial happend

theorem picks_busyMux :
    Picks 7 ⟨sampleLink, busyMux false⟩ [.destroyQueue, .circuit 0] ⟨sampleLink, busyMux false⟩ := by
  have hdestroy : (circuitmux 7).step ⟨sampleLink, busyMux false⟩ (.getFirstActiveCircuit (7, 5))
      ⟨sampleLink, busyMux true⟩ := ⟨fun _ => List.mem_cons_self, rfl, rfl⟩
  have hrelay : (circuitmux 7).step ⟨sampleLink, busyMux true⟩ (.getFirstActiveCircuit (7, 5))
      ⟨sampleLink, busyMux false⟩ := ⟨fun _ => List.mem_cons_self, rfl, rfl⟩
  exact .pick hdestroy rfl ⟨by decide, by simp [busyMux]⟩ rfl
    (.pick hrelay rfl ⟨by decide, by simp [busyMux]⟩ rfl (.done _))

theorem picks_alternate_busyMux :
    [Choice.destroyQueue, .circuit 0].IsChain (fun a b => b.isDestroy = !a.isDestroy) :=
  (picks_alternate reached_busyMux picks_busyMux).1

end Circuitmux
