/-
The loop over the out-of-order queue (`core/or/relay.c`, `core/or/conflux.c`,
`core/or/conflux_pool.c`).

A cell that is next is processed, and then the queue is looked at for more.  What processes a cell may
do anything to the circuits, and says by a negative number that the circuit is to be torn down; but a
circuit can also be closed by a call that returns zero.  The loop reads the circuit's pointer to the
set before each look at the queue, and looks at neither the mark of the circuit nor at NULL.
-/
import LibEltor.ConfluxPool

open Transition

namespace Conflux

variable {κ : Type} {p : PoolParams} {ccontrol : CongestionControl.CongestionControl} {s s' s'' : Pools κ}
  {circ c : Circ}

/-! ### What processing a cell may do -/

/-- Circuits are freed from the main loop only, never while a cell is processed. -/
def Action.WhileProcessing : Action κ → Prop
  | .free _ _ => False
  | _ => True

/-- What `connection_edge_process_ordered_relay_cell` may leave: any calls, each one done, and any
cells sent. -/
def Processes (p : PoolParams) (s s' : Pools κ) : Prop :=
  ∃ actions : List (Action κ), (∀ a ∈ actions, a.WhileProcessing) ∧
    actions.foldlM (poolStep p) ⟨s, []⟩ = .ok ⟨s', []⟩

/-- The outcome of processing a cell: the pools it leaves, and what it returns. -/
structure Handled (κ : Type) where
  after : Pools κ
  ret : ℤ

/-- What the loop does: it reads the circuit's pointer to its set and looks at the queue of the set,
which may have been freed, and it processes a cell for the circuit, which may be closed. -/
inductive Event
  | dequeue (cfx : Option CfxRef)
  | dequeueFreed (cfx : CfxRef)
  | process (closed : Bool)

/-- The pointer is not NULL, the set is there, and the circuit is open. -/
def Event.Safe : Event → Prop
  | .dequeue cfx => cfx.isSome
  | .dequeueFreed _ => False
  | .process closed => closed = false

/-- The `while` loop of `connection_edge_process_relay_cell`, from pools `s`: the outcomes of the cells
it processes, and what it does.  NULL has no queue, nor has a set that has been freed, so it does
nothing more there. -/
inductive DequeueLoop (p : PoolParams) (circ : Circ) :
    Pools κ → List (Handled κ) → List Event → Prop
  | null {s : Pools κ} (hc : s.conflux circ = none) : DequeueLoop p circ s [] [.dequeue none]
  | freed {s : Pools κ} {i : CfxRef} (hc : s.conflux circ = some i) (hobj : s.objs i = none) :
      DequeueLoop p circ s [] [.dequeueFreed i]
  | done {s : Pools κ} {i : CfxRef} {cfx : Conflux κ} (hc : s.conflux circ = some i)
      (hobj : s.objs i = some cfx) (hq : confluxDequeueCell cfx = none) :
      DequeueLoop p circ s [] [.dequeue (some i)]
  | fatal {s : Pools κ} {i : CfxRef} {cfx cfx' : Conflux κ} {cCell : ConfluxCell κ} {o : Handled κ}
      (hc : s.conflux circ = some i) (hobj : s.objs i = some cfx)
      (hq : confluxDequeueCell cfx = some (cCell, cfx'))
      (hhandled : Processes p { s with objs := Function.update s.objs i (some cfx') } o.after)
      (hret : o.ret < 0) :
      DequeueLoop p circ s [o] [.dequeue (some i), .process (s.markedForClose circ)]
  | next {s : Pools κ} {i : CfxRef} {cfx cfx' : Conflux κ} {cCell : ConfluxCell κ} {o : Handled κ}
      {outcomes : List (Handled κ)} {events : List Event}
      (hc : s.conflux circ = some i) (hobj : s.objs i = some cfx)
      (hq : confluxDequeueCell cfx = some (cCell, cfx'))
      (hhandled : Processes p { s with objs := Function.update s.objs i (some cfx') } o.after)
      (hret : 0 ≤ o.ret) (hrest : DequeueLoop p circ o.after outcomes events) :
      DequeueLoop p circ s (o :: outcomes)
        (.dequeue (some i) :: .process (s.markedForClose circ) :: events)

/-- The branch of `connection_edge_process_relay_cell` for a cell on a circuit that is a leg: it is
not to be processed now, or it is, and then the queue. -/
inductive ProcessRelayCell (p : PoolParams) (circ : Circ) (cell : κ) :
    Pools κ → List (Handled κ) → List Event → Prop
  | later {s : Pools κ} {i : CfxRef} {cfx : Conflux κ} (hc : s.conflux circ = some i)
      (hobj : s.objs i = some cfx) (hlater : ∀ leg, confluxGetLeg cfx circ = some leg →
        (confluxProcessCell cfx leg cell).2 ≠ .inOrder) :
      ProcessRelayCell p circ cell s [] []
  | fatal {s : Pools κ} {i : CfxRef} {cfx cfx' : Conflux κ} {leg : ConfluxLeg} {o : Handled κ}
      (hc : s.conflux circ = some i) (hobj : s.objs i = some cfx)
      (hleg : confluxGetLeg cfx circ = some leg)
      (hnow : confluxProcessCell cfx leg cell = (cfx', .inOrder))
      (hhandled : Processes p { s with objs := Function.update s.objs i (some cfx') } o.after)
      (hret : o.ret < 0) :
      ProcessRelayCell p circ cell s [o] []
  | now {s : Pools κ} {i : CfxRef} {cfx cfx' : Conflux κ} {leg : ConfluxLeg} {o : Handled κ}
      {outcomes : List (Handled κ)} {events : List Event}
      (hc : s.conflux circ = some i) (hobj : s.objs i = some cfx)
      (hleg : confluxGetLeg cfx circ = some leg)
      (hnow : confluxProcessCell cfx leg cell = (cfx', .inOrder))
      (hhandled : Processes p { s with objs := Function.update s.objs i (some cfx') } o.after)
      (hret : 0 ≤ o.ret) (hrest : DequeueLoop p circ o.after outcomes events) :
      ProcessRelayCell p circ cell s (o :: outcomes) events

/-! ### What a call leaves of an open circuit -/

/-- No new circuit takes an old number, and a circuit that is open after the call was open before, and
has kept its set. -/
structure Later (c : Circ) (s s' : Pools κ) : Prop where
  nextCirc : s.nextCirc ≤ s'.nextCirc
  live : ∀ x, s'.live x = true → s.live x = true ∨ x < s'.nextCirc
  keeps : c < s.nextCirc → s'.markedForClose c = false → s.markedForClose c = false ∧
    (s.conflux c ≠ none → s'.conflux c ≠ none)

theorem Later.refl (c : Circ) (s : Pools κ) : Later c s s :=
  ⟨le_rfl, fun _ hx => .inl hx, fun _ hopen => ⟨hopen, id⟩⟩

theorem Later.trans (h : Later c s s') (h' : Later c s' s'') : Later c s s'' where
  nextCirc := h.nextCirc.trans h'.nextCirc
  live x hx := by
    rcases h'.live x hx with hmid | hnew
    · exact (h.live x hmid).imp_right fun hnew => hnew.trans_le h'.nextCirc
    · exact .inr hnew
  keeps hc hopen :=
    have hmid := h'.keeps (hc.trans_le h.nextCirc) hopen
    have hfirst := h.keeps hc hmid.1
    ⟨hfirst.1, hmid.2 ∘ hfirst.2⟩

theorem Later.of_eq (hnext : s'.nextCirc = s.nextCirc) (hlive : s'.live = s.live)
    (hmark : s'.markedForClose = s.markedForClose) (hconflux : s'.conflux = s.conflux) :
    Later c s s' where
  nextCirc := hnext.ge
  live x hx := .inl (by rw [← hlive]; exact hx)
  keeps _ hopen := ⟨by rw [← hmark]; exact hopen, by rw [hconflux]; exact id⟩

theorem Later.after (h : Later c s' s'') (hnext : s'.nextCirc = s.nextCirc) (hlive : s'.live = s.live)
    (hmark : s'.markedForClose = s.markedForClose) (hconflux : s'.conflux = s.conflux) :
    Later c s s'' :=
  (Later.of_eq hnext hlive hmark hconflux).trans h

def Returns {α : Type*} (P : α → Prop) (r : Except Fault α) : Prop := ∀ x, r = .ok x → P x

theorem Returns.ok {α : Type*} {P : α → Prop} {x : α} (h : P x) : Returns P (.ok x) := by
  rintro y hy
  cases hy
  exact h

theorem Returns.error {α : Type*} {P : α → Prop} (fault : Fault) : Returns P (.error fault) := by
  rintro y hy
  cases hy

theorem Returns.map {α β : Type*} {P : α → Prop} {Q : β → Prop} {r : Except Fault α} {f : α → β}
    (h : Returns P r) (hf : ∀ x, P x → Q (f x)) : Returns Q (r.map f) := by
  cases r with
  | error fault => exact .error fault
  | ok x => exact .ok (hf x (h x rfl))

theorem Returns.mono {α : Type*} {P Q : α → Prop} {r : Except Fault α} (h : Returns P r)
    (hPQ : ∀ x, P x → Q x) : Returns Q r :=
  fun x hx => hPQ x (h x hx)

abbrev LaterCall (c : Circ) (s : Pools κ) (r : Outcome κ) : Prop :=
  Returns (fun done => Later c s done.1) r

theorem later_confluxFree (i : CfxRef) : Returns (Later c s) (confluxFree s i) := by
  rw [confluxFree]
  split
  · exact .error _
  · exact .ok (Later.of_eq rfl rfl rfl rfl)

theorem later_unlinkedPoolDelAndFree (unlinked : UnlinkedSet) :
    Returns (Later c s) (unlinkedPoolDelAndFree s unlinked) := by
  rw [unlinkedPoolDelAndFree]
  split
  · exact .error _
  · dsimp only
    split_ifs
    · exact .ok (Later.of_eq rfl rfl rfl rfl)
    · exact (later_confluxFree _).mono fun x hx => hx.after rfl rfl rfl rfl

theorem later_unlinkedCircuitClosed (nonce : Nonce) :
    LaterCall c s (unlinkedCircuitClosed p s circ nonce) := by
  rw [unlinkedCircuitClosed]
  split
  · exact .ok (.refl c s)
  · dsimp only
    split
    · refine (later_unlinkedPoolDelAndFree (c := c) _).map fun x hx => ?_
      exact Later.after hx rfl rfl rfl rfl
    · split <;> exact .ok (Later.of_eq rfl rfl rfl rfl)

theorem Later.close (hnext : s'.nextCirc = s.nextCirc) (hlive : s'.live = s.live)
    (hmark : s'.markedForClose = Function.update s.markedForClose circ true)
    (hconflux : ∀ x ≠ circ, s'.conflux x = s.conflux x) : Later c s s' where
  nextCirc := hnext.ge
  live x hx := .inl (by rw [← hlive]; exact hx)
  keeps _ hopen := by
    have hne : c ≠ circ := by
      rintro rfl
      simp [hmark] at hopen
    refine ⟨by simpa [hmark, hne] using hopen, ?_⟩
    rw [hconflux c hne]
    exact id

theorem later_linkedCircuitClosed {i : CfxRef}
    (hmark : s'.markedForClose = Function.update s.markedForClose circ true)
    (hrest : s' = { s with markedForClose := s'.markedForClose }) :
    LaterCall c s (linkedCircuitClosed ccontrol s' circ i) := by
  have hnext : s'.nextCirc = s.nextCirc := by rw [hrest]
  have hlive : s'.live = s.live := by rw [hrest]
  have hconflux : s'.conflux = s.conflux := by rw [hrest]
  rw [linkedCircuitClosed]
  cases s'.objs i with
  | none => exact .error _
  | some cfx =>
    generalize cfxDelLeg ccontrol cfx circ = removed
    obtain ⟨removed, fullTeardown⟩ := removed
    refine .ok ?_
    dsimp only
    split_ifs
    all_goals
      refine .close hnext hlive hmark fun x hx => ?_
      simp [hx, hconflux]

theorem later_circuitMarkForClose : LaterCall c s (circuitMarkForClose p ccontrol s circ) := by
  rw [circuitMarkForClose]
  split_ifs
  · exact .ok (.refl c s)
  · have hmark : Later c s { s with markedForClose := Function.update s.markedForClose circ true } :=
      .close rfl rfl rfl fun _ _ => rfl
    dsimp only
    split
    · exact (later_unlinkedCircuitClosed _).mono fun x hx => hmark.trans hx
    · split
      · exact later_linkedCircuitClosed rfl rfl
      · exact .ok hmark

theorem later_markAllForClose (nonce : Nonce) : LaterCall c s (markAllForClose s nonce) := by
  rw [markAllForClose]
  split
  · exact .ok (.refl c s)
  · split_ifs
    · exact .ok (.refl c s)
    · exact (later_unlinkedPoolDelAndFree _).map fun x hx => hx

theorem later_markLinkedForClose (nonce : Nonce) : LaterCall c s (markLinkedForClose s nonce) := by
  rw [markLinkedForClose]
  split
  · exact .ok (.refl c s)
  · split
    · exact .error _
    · split_ifs
      · exact .ok (.refl c s)
      · exact .ok (Later.of_eq rfl rfl rfl rfl)

theorem later_unlinkedGetOrCreate (nonce : Nonce) : Later c s (unlinkedGetOrCreate s nonce).1 := by
  rw [unlinkedGetOrCreate]
  split
  · exact .refl c s
  · split <;> exact .of_eq rfl rfl rfl rfl

theorem Later.launch (hnext : s'.nextCirc = s.nextCirc + 1)
    (hlive : s'.live = Function.update s.live s.nextCirc true)
    (hmark : s'.markedForClose = Function.update s.markedForClose s.nextCirc false)
    (hconflux : s'.conflux = Function.update s.conflux s.nextCirc none) : Later c s s' where
  nextCirc := hnext ▸ Nat.le_succ _
  live x hx := by
    by_cases hxn : x = s.nextCirc
    · exact .inr (by rw [hxn, hnext]; exact Nat.lt_succ_self _)
    · exact .inl (by simpa [hlive, hxn] using hx)
  keeps hc hopen := by
    have hne : c ≠ s.nextCirc := hc.ne
    exact ⟨by simpa [hmark, hne] using hopen, by simp [hconflux, hne]⟩

theorem later_launchLegInPools (established : Bool) (nonce : Nonce) :
    LaterCall c s (launchLegInPools p s established nonce) := by
  have hget : Later c s (unlinkedGetOrCreate s nonce).1 := later_unlinkedGetOrCreate nonce
  rw [launchLegInPools]
  generalize unlinkedGetOrCreate s nonce = found at hget
  obtain ⟨s₁, unlinked⟩ := found
  dsimp only at hget ⊢
  split
  · exact .error _
  · split
    · exact .ok hget
    · split <;> exact .ok (hget.trans (.launch rfl rfl rfl rfl))

theorem later_completeSet (unlinked : UnlinkedSet) (cfx : Conflux κ) :
    Later c s (completeSet s unlinked cfx) where
  nextCirc := le_rfl
  live _ hx := .inl hx
  keeps _ hopen := by
    refine ⟨hopen, fun hheld => ?_⟩
    simp only [completeSet]
    split_ifs
    · simp
    · exact hheld

theorem later_tryFinalizeInPools (unlinked : UnlinkedSet) :
    Returns (fun done => Later c s done.1.1) (tryFinalizeInPools p s unlinked) := by
  rw [tryFinalizeInPools]
  split
  · exact .error _
  · split
    · exact .ok (.refl c s)
    · exact .ok (.refl c s)
    · split
      · exact .error _
      · split
        · exact .error _
        · exact .ok (.refl c s)
        · exact .ok (later_completeSet unlinked _)
        · exact .ok (.refl c s)

theorem later_confluxCircuitHasOpened {confluxIsEnabled sent : Bool} {now : ℕ} :
    LaterCall c s (confluxCircuitHasOpened s circ confluxIsEnabled sent now) := by
  rw [confluxCircuitHasOpened]
  split
  · exact .ok (.refl c s)
  · split
    · exact .ok (.refl c s)
    · split
      · exact .ok (.refl c s)
      · split_ifs
        · exact .ok (.refl c s)
        · exact .ok (.refl c s)
        · exact .ok (Later.of_eq rfl rfl rfl rfl)

theorem later_processLinkInPools {cell : CellArrival} :
    LaterCall c s (processLinkInPools p s circ cell) := by
  rw [processLinkInPools]
  split
  · exact .ok (.refl c s)
  · rename_i link _
    have hget : Later c s (unlinkedGetOrCreate s link.nonce).1 := later_unlinkedGetOrCreate _
    dsimp only
    generalize unlinkedGetOrCreate s link.nonce = found at hget
    obtain ⟨s₁, unlinked⟩ := found
    dsimp only at hget ⊢
    refine (later_tryFinalizeInPools (c := c) _).map ?_
    rintro ⟨⟨s₂, tasks⟩, err⟩ hdone
    cases err <;> exact hget.trans (Later.after hdone rfl rfl rfl rfl)

theorem later_processLinkedInPools {cell : CellArrival} :
    LaterCall c s (processLinkedInPools p s circ cell) := by
  rw [processLinkedInPools]
  dsimp only
  split
  · exact .ok (.refl c s)
  · split
    · exact .ok (.refl c s)
    · split
      · exact .ok (.refl c s)
      · split
        · exact .ok (Later.of_eq rfl rfl rfl rfl)
        · refine (later_tryFinalizeInPools (c := c) _).map ?_
          rintro ⟨⟨s₂, tasks⟩, err⟩ hdone
          cases err <;> exact Later.after hdone rfl rfl rfl rfl

theorem later_processLinkedAckInPools {cell : CellArrival} :
    LaterCall c s (processLinkedAckInPools p s circ cell) := by
  rw [processLinkedAckInPools]
  split
  · exact .ok (.refl c s)
  · split
    · exact .ok (.refl c s)
    · split
      · exact .error _
      · exact .ok (Later.of_eq rfl rfl rfl rfl)

theorem later_runTask {established : Bool} (task : Task) :
    LaterCall c s (runTask p ccontrol s established task) := by
  cases task with
  | circuitMarkForClose circ =>
    cases circ with
    | none => exact .error _
    | some circ => exact later_circuitMarkForClose
  | markAllForClose nonce => exact later_markAllForClose nonce
  | markLinkedForClose nonce => exact later_markLinkedForClose nonce
  | confluxLaunchLeg nonce => exact later_launchLegInPools established nonce

theorem later_occur {a : Action κ} (ha : a.WhileProcessing) : LaterCall c s (occur p s a) := by
  cases a with
  | work ccontrol established => exact .ok (.refl c s)
  | newCircuit =>
    refine .ok ⟨Nat.le_succ _, fun x hx => ?_, fun _ hopen => ⟨hopen, id⟩⟩
    by_cases hxn : x = s.nextCirc
    · exact .inr (hxn ▸ Nat.lt_succ_self _)
    · exact .inl (by simpa [hxn] using hx)
  | launch nonce => exact .ok (.refl c s)
  | opened circ confluxIsEnabled sent now =>
    rw [occur]
    split
    · exact later_confluxCircuitHasOpened
    · exact .ok (.refl c s)
  | link circ cell =>
    rw [occur]
    split
    · exact later_processLinkInPools
    · exact .ok (.refl c s)
  | linked circ cell =>
    rw [occur]
    split
    · exact later_processLinkedInPools
    · exact .ok (.refl c s)
  | linkedAck circ cell =>
    rw [occur]
    split
    · exact later_processLinkedAckInPools
    · exact .ok (.refl c s)
  | close circ => exact .ok (.refl c s)
  | free circ ccontrol => exact ha.elim
  | shutdown => exact .ok (Later.of_eq rfl rfl rfl rfl)
  | traffic i cfx' =>
    rw [occur]
    split
    · exact .ok (.refl c s)
    · split_ifs
      · exact .ok (Later.of_eq rfl rfl rfl rfl)
      · exact .ok (.refl c s)

theorem later_poolStep {m : Machine κ} {a : Action κ} (ha : a.WhileProcessing) :
    Returns (fun m' => Later c m.pools m'.pools) (poolStep p m a) := by
  obtain ⟨s, agenda⟩ := m
  cases agenda with
  | nil => exact (later_occur ha).map fun _ hx => hx
  | cons task rest =>
    cases a with
    | work ccontrol established => exact (later_runTask task).map fun _ hx => hx
    | _ => exact .ok (.refl c s)

theorem later_actions {m m' : Machine κ} (actions : List (Action κ))
    (hactions : ∀ a ∈ actions, a.WhileProcessing) (h : actions.foldlM (poolStep p) m = .ok m') :
    Later c m.pools m'.pools := by
  induction actions generalizing m with
  | nil =>
    cases h
    exact .refl c _
  | cons a actions ih =>
    rw [List.foldlM_cons] at h
    cases hstep : poolStep p m a with
    | error fault =>
      rw [hstep] at h
      cases h
    | ok mid =>
      rw [hstep] at h
      have hfirst : Later c m.pools mid.pools := later_poolStep (hactions a (by simp)) mid hstep
      exact hfirst.trans (ih (fun b hb => hactions b (by simp [hb])) h)

theorem Processes.later (h : Processes p s s') : Later c s s' := by
  obtain ⟨actions, hactions, hrun⟩ := h
  exact later_actions actions hactions hrun

/-! ### Numbers in use -/

/-- No circuit that is there has a number that is still to be given out. -/
def Numbered (s : Pools κ) : Prop := ∀ x, s.live x = true → x < s.nextCirc

theorem Numbered.later (h : Numbered s) (hlater : Later c s s') : Numbered s' := by
  intro x hx
  rcases hlater.live x hx with hold | hnew
  · exact (h x hold).trans_le hlater.nextCirc
  · exact hnew

theorem later_linkedCircuitFree (i : CfxRef) :
    Returns (Later c s) (linkedCircuitFree ccontrol s circ i) := by
  rw [linkedCircuitFree]
  cases s.objs i with
  | none => exact .error _
  | some cfx =>
    generalize cfxDelLeg ccontrol cfx circ = removed
    obtain ⟨removed, fullTeardown⟩ := removed
    dsimp only
    split
    · exact .ok (Later.of_eq rfl rfl rfl rfl)
    · split
      · exact (later_confluxFree _).mono fun x hx => hx.after rfl rfl rfl rfl
      · split
        · exact .error _
        · exact .ok (Later.of_eq rfl rfl rfl rfl)

theorem later_unlinkedCircuitFree (nonce : Nonce) :
    Later c s (unlinkedCircuitFree s circ nonce) := by
  rw [unlinkedCircuitFree]
  split
  · exact .refl c s
  · exact .of_eq rfl rfl rfl rfl

theorem numbered_confluxCircuitAboutToFree (h : Numbered s) :
    Returns Numbered (confluxCircuitAboutToFree ccontrol s circ) := by
  have hgone (s₁ : Pools κ) (hlater : Later circ s s₁) : Numbered { s₁ with
      live := Function.update s₁.live circ false
      conflux := Function.update s₁.conflux circ none
      confluxPendingNonce := Function.update s₁.confluxPendingNonce circ none } := by
    intro x hx
    refine h.later hlater x ?_
    by_cases hxc : x = circ
    · subst hxc
      simp at hx
    · simpa [hxc] using hx
  rw [confluxCircuitAboutToFree]
  cases s.conflux circ with
  | some i => exact (later_linkedCircuitFree i).map hgone
  | none =>
    cases s.confluxPendingNonce circ with
    | some nonce => exact .ok (hgone _ (later_unlinkedCircuitFree nonce))
    | none => exact .ok (hgone _ (.refl circ s))

theorem numbered_poolStep {m : Machine κ} {a : Action κ} (h : Numbered m.pools) :
    Returns (fun m' => Numbered m'.pools) (poolStep p m a) := by
  by_cases ha : a.WhileProcessing
  · exact (later_poolStep (c := 0) ha).mono fun _ hx => h.later hx
  · obtain ⟨s, agenda⟩ := m
    cases a with
    | free circ ccontrol =>
      cases agenda with
      | nil =>
        refine Returns.map (P := fun done : Pools κ × List Task => Numbered done.1) ?_ fun _ hx => hx
        rw [occur]
        split
        · exact (numbered_confluxCircuitAboutToFree h).map fun _ hx => hx
        · exact .ok h
      | cons task rest => exact .ok h
    | _ => exact absurd trivial ha

theorem Numbered.reached {m : Machine κ} (hr : Reached (poolSystem p κ) (fun _ _ => True) m) :
    Numbered m.pools := by
  refine hr.invariant (P := fun m => Numbered m.pools) ⟨?_, ?_⟩
  · rintro m rfl x hx
    exact absurd hx (by simp [poolInit])
  · intro m a m' h _ hstep
    exact numbered_poolStep h m' hstep

/-! ### The loop -/

/-- A circuit with which the loop may go on: it is open and its set has not been freed, or it is
closed and still has its set, in whose queue no cell is next. -/
def Harmless (s : Pools κ) (circ : Circ) : Prop :=
  (s.markedForClose circ = false ∧ ∀ i, s.conflux circ = some i → s.objs i ≠ none) ∨
    ∃ i cfx, s.conflux circ = some i ∧ s.objs i = some cfx ∧ confluxDequeueCell cfx = none

theorem harmless_iff_open {i : CfxRef} {cfx : Conflux κ} {next : ConfluxCell κ × Conflux κ}
    (hc : s.conflux circ = some i) (hobj : s.objs i = some cfx)
    (hq : confluxDequeueCell cfx = some next) :
    Harmless s circ ↔ s.markedForClose circ = false := by
  constructor
  · rintro (⟨hopen, -⟩ | ⟨j, cfx', hj, hobj', hnone⟩)
    · exact hopen
    · obtain rfl : i = j := Option.some.inj (hc.symm.trans hj)
      obtain rfl : cfx = cfx' := Option.some.inj (hobj.symm.trans hobj')
      exact absurd (hq.symm.trans hnone) (by simp)
  · intro hopen
    refine .inl ⟨hopen, fun j hj => ?_⟩
    obtain rfl : i = j := Option.some.inj (hc.symm.trans hj)
    simp [hobj]

theorem Processes.keepsSet {i : CfxRef} {cfx' : Conflux κ}
    (h : Processes p { s with objs := Function.update s.objs i (some cfx') } s')
    (hc : s.conflux circ = some i) (hnum : circ < s.nextCirc) :
    circ < s'.nextCirc ∧ (s'.markedForClose circ = false → s'.conflux circ ≠ none) := by
  have hlater : Later circ s s' := Later.after h.later rfl rfl rfl rfl
  exact ⟨hnum.trans_le hlater.nextCirc, fun hopen => (hlater.keeps hnum hopen).2 (by simp [hc])⟩

theorem DequeueLoop.safe_iff {outcomes : List (Handled κ)} {events : List Event}
    (h : DequeueLoop p circ s outcomes events) (hnum : circ < s.nextCirc)
    (hset : s.markedForClose circ = false → s.conflux circ ≠ none) :
    (∀ e ∈ events, e.Safe) ↔ Harmless s circ ∧ ∀ o ∈ outcomes, 0 ≤ o.ret → Harmless o.after circ := by
  induction h with
  | null hc =>
    refine iff_of_false (fun hsafe => by simpa [Event.Safe] using hsafe _ (List.mem_singleton_self _)) ?_
    rintro ⟨⟨hopen, -⟩ | ⟨i, cfx, hi, -, -⟩, -⟩
    · exact hset hopen hc
    · exact absurd (hc.symm.trans hi) (by simp)
  | freed hc hobj =>
    refine iff_of_false (fun hsafe => by simpa [Event.Safe] using hsafe _ (List.mem_singleton_self _)) ?_
    rintro ⟨⟨-, hthere⟩ | ⟨j, cfx, hj, hobj', -⟩, -⟩
    · exact hthere _ hc hobj
    · obtain rfl := Option.some.inj (hc.symm.trans hj)
      exact absurd (hobj.symm.trans hobj') (by simp)
  | done hc hobj hq =>
    refine iff_of_true (by simp [Event.Safe]) ⟨.inr ⟨_, _, hc, hobj, hq⟩, by simp⟩
  | @fatal s i cfx cfx' cCell o hc hobj hq hhandled hret =>
    have hiff := harmless_iff_open hc hobj hq
    simp [Event.Safe, hiff, hret]
  | @next s i cfx cfx' cCell o outcomes events hc hobj hq hhandled hret hrest ih =>
    have hiff := harmless_iff_open hc hobj hq
    obtain ⟨hnum', hset'⟩ := hhandled.keepsSet hc hnum
    have hih := ih hnum' hset'
    simp only [List.forall_mem_cons, hih, hiff]
    simp [Event.Safe, hret]

/-- In every state of the pools, for every cell on a circuit that is there and every outcome of the
cells that are processed: the loop looks only at the queue of a set that is there, and processes
cells only for an open circuit, if and only if no call that goes on has closed the circuit, but as
the last leg of its set and with no cell next, or freed the set of an open one. -/
theorem dequeueLoop_safe_iff {m : Machine κ} (hr : Reached (poolSystem p κ) (fun _ _ => True) m)
    (hlive : m.pools.live circ = true) {cell : κ} {outcomes : List (Handled κ)} {events : List Event}
    (hrun : ProcessRelayCell p circ cell m.pools outcomes events) :
    (∀ e ∈ events, e.Safe) ↔ ∀ o ∈ outcomes, 0 ≤ o.ret → Harmless o.after circ := by
  have hnum : circ < m.pools.nextCirc := Numbered.reached hr circ hlive
  cases hrun with
  | later hc hobj hlater => simp
  | fatal hc hobj hleg hnow hhandled hret => simp [hret]
  | now hc hobj hleg hnow hhandled hret hrest =>
    obtain ⟨hnum', hset'⟩ := hhandled.keepsSet hc hnum
    rw [hrest.safe_iff hnum' hset', List.forall_mem_cons]
    simp [hret]

/-- A set of two legs, the second ahead of the first by a cell that is in the queue. -/
def queueingSet (currLeg : Option Circ) : Conflux Unit :=
  { confluxNew Unit (freshLink 7 0).nonce with
    legs := [⟨0, 0, 0, 0, 0⟩, ⟨2, 0, 0, 0, 1⟩]
    oooQ := [⟨2, ()⟩]
    currLeg := currLeg }

/-- Two circuits link to a relay, and the second brings the second cell. -/
def queueingActions (currLeg : Option Circ) : List (Action Unit) :=
  [.newCircuit, .newCircuit, .link 0 linkArrival, .link 1 linkArrival,
    .traffic 0 (queueingSet currLeg)]

/-- The first circuit brings the first cell, and both cells are processed with nothing closed. -/
theorem dequeueLoop_safe_iff_twoCells :
    ∃ m, poolRun false (queueingActions none) = some m ∧
      ∃ outcomes events, ProcessRelayCell (poolSide false) 0 () m.pools outcomes events ∧
        outcomes.length = 2 ∧ ∀ e ∈ events, e.Safe := by
  have hrun : ∃ m, poolRun false (queueingActions none) = some m ∧ m.pools.live 0 = true ∧
      ∃ outcomes events, ProcessRelayCell (poolSide false) 0 () m.pools outcomes events ∧
        outcomes.length = 2 ∧ ∀ o ∈ outcomes, Harmless o.after 0 := by
    have hthere : ∀ {s : Pools Unit} {cfx : Conflux Unit}, s.markedForClose 0 = false →
        s.conflux 0 = some 0 → s.objs 0 = some cfx → Harmless s 0 := by
      intro s cfx hopen hc hobj
      refine .inl ⟨hopen, fun i hi => ?_⟩
      obtain rfl : 0 = i := Option.some.inj (hc.symm.trans hi)
      simp [hobj]
    exact
      ⟨_, rfl, rfl, _, _, .now rfl rfl rfl rfl (o := ⟨_, 0⟩) ⟨[], by simp, rfl⟩ le_rfl
        (.next rfl rfl rfl (o := ⟨_, 0⟩) ⟨[], by simp, rfl⟩ le_rfl (.done rfl rfl rfl)), rfl,
        List.forall_mem_cons.mpr ⟨hthere rfl rfl rfl,
          List.forall_mem_singleton.mpr (hthere rfl rfl rfl)⟩⟩
  obtain ⟨m, hm, hlive, outcomes, events, hevents, hlength, hharmless⟩ := hrun
  refine ⟨m, hm, outcomes, events, hevents, hlength, ?_⟩
  exact (dequeueLoop_safe_iff (reached_poolRun hm) hlive hevents).mpr fun o ho _ => hharmless o ho

/-- A call for the first cell closes the circuit and returns zero: NULL is looked at for more cells.
One that closes the other leg, over which the set sends, tears down the set, and the circuit is the
last leg: the second cell is processed for a circuit that is closed. -/
theorem closed_while_processing :
    (∃ m, Reached (poolSystem (poolSide false) Unit) (fun _ _ => True) m ∧ m.pools.open 0 = true ∧
      ∃ outcomes events, ProcessRelayCell (poolSide false) 0 () m.pools outcomes events ∧
        (∀ o ∈ outcomes, o.ret = 0) ∧ .dequeue none ∈ events) ∧
    ∃ m, Reached (poolSystem (poolSide false) Unit) (fun _ _ => True) m ∧ m.pools.open 0 = true ∧
      ∃ outcomes events, ProcessRelayCell (poolSide false) 0 () m.pools outcomes events ∧
        (∀ o ∈ outcomes, o.ret = 0) ∧ .process true ∈ events := by
  constructor
  · have hfirst := reached_poolRun (show poolRun false (queueingActions none) = some _ from rfl)
    have hcloses : List.Forall Action.WhileProcessing
        ([.close 0, .work exitCcontrol true] : List (Action Unit)) := ⟨trivial, trivial⟩
    exact ⟨_, hfirst, rfl, _, _, .now rfl rfl rfl rfl (o := ⟨_, 0⟩)
      ⟨_, List.forall_iff_forall_mem.mp hcloses, rfl⟩ le_rfl (.null rfl), by simp, by simp⟩
  · have hfirst := reached_poolRun (show poolRun false (queueingActions (some 1)) = some _ from rfl)
    have hcloses : List.Forall Action.WhileProcessing
        ([.close 1, .work exitCcontrol true, .work exitCcontrol true, .work exitCcontrol true,
          .work exitCcontrol true] : List (Action Unit)) :=
      ⟨trivial, trivial, trivial, trivial, trivial⟩
    exact ⟨_, hfirst, rfl, _, _, .now rfl rfl rfl rfl (o := ⟨_, 0⟩)
      ⟨_, List.forall_iff_forall_mem.mp hcloses, rfl⟩ le_rfl
      (.next rfl rfl rfl (o := ⟨_, 0⟩) ⟨[], by simp, rfl⟩ le_rfl (.done rfl rfl rfl)),
      by simp, .tail _ (.head _)⟩

end Conflux
