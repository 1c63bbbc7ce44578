/-
The sending end of a conflux set (`core/or/conflux.c`, `core/or/conflux_pool.c`,
`core/or/relay.c`), whatever the peer sends.

A change of leg asserts that the leg that is left has sent at least as much as
the new one, and that the difference fits the SWITCH cell.  The leg in use has the
largest counter (`CurrLegIsMax`) as long as no leg joins with a larger one; the
counter it joins with is the peer's word, which nothing checks.
-/
import LibEltor.ConfluxLink
import LibEltor.Transition

open Word CongestionControl Smartlist Transition

namespace Conflux

variable {κ : Type}

/-- A set, the legs that wait to join it, and whether its nonce still leads to it in the linked
pool. -/
structure SendState (κ : Type) where
  cfx : Conflux κ
  legs : List Leg
  pooled : Bool

def SendState.circs (s : SendState κ) : List Circ :=
  s.cfx.legs.map ConfluxLeg.circ ++ s.legs.map Leg.circ

def SendState.unlinked (s : SendState κ) : UnlinkedCircuits κ where
  isClient := false
  isForLinkedSet := s.pooled
  cfx := s.cfx
  legs := s.legs

/-- What happens at an end.  `newLeg` is a leg that is launched by a client or made by a LINK cell,
and in the second case linked at once, whereupon the set is completed; `linked` is a LINKED cell that has passed its checks;
`unlinkedClosed` and `legClosed` are circuits that close; `unpooled` is the linked pool losing the
set; the others are calls of the functions named. -/
inductive SendAction (κ : Type)
  | newLeg (leg : Leg)
  | linked (circ : Circ) (now : ℕ) (link : ConfluxCellLink)
  | unlinkedClosed (circ : Circ)
  | legClosed (circ : Circ) (ccontrol : CongestionControl)
  | unpooled
  | updateRtt (circ : Circ) (rttUsec : ℕ)
  | processSwitch (circ : Circ) (relativeSeq : ℕ)
  | processCell (circ : Circ) (cell : κ)
  | dequeueCell
  | decideNext (circs : Circ → Circuit)
  | sendCommand (circs : Circ → Circuit) (origCirc : Circ) (relayCommand : RelayCommand)

/-- `try_finalize_set` at an end: a set that is completed enters the linked pool; one that does not
validate is torn down. -/
def SendState.finalize (maxLegsSet : ℕ) (s : SendState κ) : Option (SendState κ) :=
  (tryFinalizeSet maxLegsSet s.unlinked).map fun
    | .missingLeg => s
    | .tooManyLegs => s
    | .notValid => if s.pooled then { s with cfx := { s.cfx with inFullTeardown := true } } else s
    | .waiting => s
    | .linked cfx => { cfx := cfx, legs := [], pooled := true }

/-- The part of `relay_send_command_from_edge_` that is about conflux: the leg is chosen, the cell
goes out, the counter moves.  Where there is no leg the cell goes out on the circuit it was meant
for. -/
def relaySendCommandFromEdge (drainPct : ℕ) (circs : Circ → Circuit) (cfx : Conflux κ)
    (origCirc : Circ) (relayCommand : RelayCommand) : Option (Conflux κ) :=
  (confluxDecideCircForSend drainPct circs cfx origCirc relayCommand).map fun d =>
    confluxNoteCellSent d.cfx (d.circ.getD origCirc) relayCommand

/-- One action at an end; `none` is a failed assertion.  DATA is sent by
`connection_edge_package_raw_inbuf` alone, which asks for a circuit first. -/
def sendStep (maxLegsSet drainPct : ℕ) (s : SendState κ) : SendAction κ → Option (SendState κ)
  | .newLeg leg =>
    if leg.circ ∈ s.circs then some s
    else if leg.linked then ({ s with legs := s.legs ++ [leg] }).finalize maxLegsSet
    else some { s with legs := s.legs ++ [leg] }
  | .linked circ now link =>
    if circ ∈ s.legs.map Leg.circ then
      ({ s with legs := (storeLinked s.unlinked circ now link).legs }).finalize maxLegsSet
    else some s
  | .unlinkedClosed circ => some { s with legs := s.legs.filter (·.circ ≠ circ) }
  | .legClosed circ ccontrol =>
    let (cfx, fullTeardown) := cfxDelLeg ccontrol s.cfx circ
    if cfx.legs.length = 0 then some { s with cfx := cfx, pooled := false }
    else if fullTeardown && s.pooled then
      some { s with cfx := { cfx with inFullTeardown := true } }
    else some { s with cfx := cfx }
  | .unpooled => some { s with pooled := false }
  | .updateRtt circ rttUsec => some { s with cfx := confluxUpdateRtt s.cfx circ rttUsec }
  | .processSwitch circ relativeSeq =>
    some { s with cfx := confluxProcessSwitchCommand s.cfx circ relativeSeq }
  | .processCell circ cell =>
    match confluxGetLeg s.cfx circ with
    | none => some s
    | some leg => some { s with cfx := (confluxProcessCell s.cfx leg cell).1 }
  | .dequeueCell =>
    match confluxDequeueCell s.cfx with
    | none => some s
    | some (_, cfx) => some { s with cfx := cfx }
  | .decideNext circs =>
    (confluxDecideNextCirc drainPct circs s.cfx).map fun (cfx, _) => { s with cfx := cfx }
  | .sendCommand circs origCirc relayCommand =>
    if relayCommand = .data then do
      let (cfx, circ) ← confluxDecideNextCirc drainPct circs s.cfx
      if circ.isNone then some { s with cfx := cfx }
      else
        (relaySendCommandFromEdge drainPct circs cfx origCirc relayCommand).map
          ({ s with cfx := · })
    else
      (relaySendCommandFromEdge drainPct circs s.cfx origCirc relayCommand).map
        ({ s with cfx := · })

def sendSystem (κ : Type) (maxLegsSet drainPct : ℕ) : System (SendState κ) (SendAction κ) where
  init s := ∃ nonce, s = ⟨confluxNew κ nonce, [], false⟩
  step s a s' := sendStep maxLegsSet drainPct s a = some s'

def LegsJoinBelow (maxLegsSet : ℕ) (s : SendState κ) (legs : List Leg) : Prop :=
  ∀ cfx, tryFinalizeSet maxLegsSet { s.unlinked with legs := legs } = some (.linked cfx) →
    ∀ leg ∈ legs, leg.link.lastSeqnoRecv ≤ confluxGetMaxSeqSent s.cfx

/-- The current leg is less than 2^32 - 1 cells ahead of every leg, and no counter is at its end. -/
def WithinSwitch (cfx : Conflux κ) : Prop :=
  ∀ leg ∈ cfx.legs, confluxGetMaxSeqSent cfx < leg.lastSeqSent + uint32Max ∧
    leg.lastSeqSent < uint64Max

/-- A leg joins with at most what was sent; a leg that closes and takes the set along finds the set
in the pool; a cell is sent while no leg is too far behind. -/
def JoinsBelow (maxLegsSet : ℕ) (s : SendState κ) : SendAction κ → Prop
  | .newLeg leg => LegsJoinBelow maxLegsSet s (s.legs ++ [leg])
  | .linked circ now link =>
    LegsJoinBelow maxLegsSet s (storeLinked s.unlinked circ now link).legs
  | .legClosed circ _ => s.cfx.currLeg = some circ → 1 < s.cfx.legs.length → s.pooled = true
  | .sendCommand _ _ _ => WithinSwitch s.cfx
  | _ => True

/-! ### What the counters keep -/

def Conflux.sent (cfx : Conflux κ) : List (Circ × ℕ) :=
  cfx.legs.map fun leg => (leg.circ, leg.lastSeqSent)

def CurrLegIsMax (cfx : Conflux κ) : Prop :=
  ∃ circ n, cfx.currLeg = some circ ∧ (circ, n) ∈ cfx.sent ∧ ∀ p ∈ cfx.sent, p.2 ≤ n

/-- A set is torn down, or has not begun to send, or its current leg has sent the most. -/
structure SendInv (cfx : Conflux κ) : Prop where
  nodup : (cfx.legs.map ConfluxLeg.circ).Nodup
  alg : cfx.alg ≠ .cwndrtt
  counters : cfx.inFullTeardown = true ∨ (cfx.currLeg = none ∧ ∀ p ∈ cfx.sent, p.2 = 0) ∨
    CurrLegIsMax cfx

variable {cfx cfx' : Conflux κ}

theorem map_fst_sent (cfx : Conflux κ) :
    cfx.sent.map Prod.fst = cfx.legs.map ConfluxLeg.circ := by
  simp [Conflux.sent, Function.comp_def]

theorem SendInv.congr (h : SendInv cfx) (hsent : cfx'.sent = cfx.sent)
    (hcurr : cfx'.currLeg = cfx.currLeg) (halg : cfx'.alg = cfx.alg)
    (hdown : cfx'.inFullTeardown = cfx.inFullTeardown) : SendInv cfx' where
  nodup := by rw [← map_fst_sent, hsent, map_fst_sent]; exact h.nodup
  alg := halg ▸ h.alg
  counters := by
    unfold CurrLegIsMax
    rw [hsent, hcurr, hdown]
    exact h.counters

theorem sent_updateLeg {circ : Circ} {f : ConfluxLeg → ConfluxLeg}
    (hf : ∀ leg, (f leg).circ = leg.circ ∧ (f leg).lastSeqSent = leg.lastSeqSent) :
    (cfx.updateLeg circ f).sent = cfx.sent := by
  simp only [Conflux.sent, updateLeg_legs, List.map_map]
  refine List.map_congr_left fun leg _ => ?_
  simp only [Function.comp]
  split_ifs
  · rw [(hf leg).1, (hf leg).2]
  · rfl

theorem mem_sent_of_mem {leg : ConfluxLeg} (h : leg ∈ cfx.legs) :
    (leg.circ, leg.lastSeqSent) ∈ cfx.sent := List.mem_map.mpr ⟨leg, h, rfl⟩

theorem exists_of_mem_sent {circ : Circ} {n : ℕ} (h : (circ, n) ∈ cfx.sent) :
    ∃ leg ∈ cfx.legs, leg.circ = circ ∧ leg.lastSeqSent = n := by
  obtain ⟨leg, hmem, heq⟩ := List.mem_map.mp h
  exact ⟨leg, hmem, (Prod.mk.inj heq).1, (Prod.mk.inj heq).2⟩

theorem CurrLegIsMax.max_eq {circ : Circ} {n : ℕ} (hmem : (circ, n) ∈ cfx.sent)
    (hmax : ∀ p ∈ cfx.sent, p.2 ≤ n) : confluxGetMaxSeqSent cfx = n := by
  obtain ⟨leg, hleg, -, rfl⟩ := exists_of_mem_sent hmem
  refine le_antisymm ?_ (le_confluxGetMaxSeqSent hleg)
  exact confluxGetMaxSeqSent_le_iff.mpr fun l hl => hmax _ (mem_sent_of_mem hl)

/-! ### Choosing and sending -/

theorem confluxDecideCircMinrtt_spec (circs : Circ → Circuit) (hne : cfx.legs ≠ []) :
    ∃ circ, confluxDecideCircMinrtt circs cfx = some circ ∧
      ∀ c, circ = some c → c ∈ cfx.legs.map ConfluxLeg.circ := by
  unfold confluxDecideCircMinrtt
  rw [if_neg (by simpa using hne)]
  split
  · exact ⟨none, rfl, by simp⟩
  · rename_i leg hleg
    split_ifs
    · refine ⟨_, rfl, fun c hc => ?_⟩
      obtain rfl := Option.some.inj hc
      exact List.mem_map_of_mem (lowestRtt_mem hleg)
    · exact ⟨none, rfl, by simp⟩

theorem confluxDecideCircLowrtt_spec (circs : Circ → Circuit) (hne : cfx.legs ≠ []) :
    ∃ circ, confluxDecideCircLowrtt circs cfx = some circ ∧
      ∀ c, circ = some c → c ∈ cfx.legs.map ConfluxLeg.circ := by
  unfold confluxDecideCircLowrtt
  rw [if_neg (by simpa using hne)]
  refine ⟨_, rfl, fun c hc => ?_⟩
  obtain ⟨leg, hleg, rfl⟩ := Option.map_eq_some_iff.mp hc
  exact List.mem_map_of_mem (List.mem_of_mem_filter (lowestRtt_mem hleg))

theorem confluxDecideNextCirc_of_curr (drainPct : ℕ) (circs : Circ → Circuit)
    (hdown : cfx.inFullTeardown = false) (halg : cfx.alg ≠ .cwndrtt) (hcurr : CurrLegIsMax cfx) :
    ∃ circ, confluxDecideNextCirc drainPct circs cfx = some (cfx, circ) ∧
      ∀ c, circ = some c → c ∈ cfx.legs.map ConfluxLeg.circ := by
  obtain ⟨curr, n, hc, hmem, hmax⟩ := hcurr
  obtain ⟨leg, hleg, hcirc, -⟩ := exists_of_mem_sent hmem
  have hne : cfx.legs ≠ [] := List.ne_nil_of_mem hleg
  unfold confluxDecideNextCirc
  simp only [hdown, hc, Bool.false_eq_true, if_false, Option.isNone_some]
  split_ifs with hswitch hready
  · exact ⟨_, rfl, fun c h => Option.some.inj h ▸ hcirc ▸ List.mem_map_of_mem hleg⟩
  · exact ⟨none, rfl, by simp⟩
  · cases ha : cfx.alg with
    | minrtt =>
      obtain ⟨circ, hcirc, hlegs⟩ := confluxDecideCircMinrtt_spec circs hne
      exact ⟨circ, by simp [hcirc], hlegs⟩
    | lowrtt =>
      obtain ⟨circ, hcirc, hlegs⟩ := confluxDecideCircLowrtt_spec circs hne
      exact ⟨circ, by simp [hcirc], hlegs⟩
    | cwndrtt => exact absurd ha halg

theorem confluxPickFirstLeg_eq_some {cfx' : Conflux κ} (h : confluxPickFirstLeg cfx = some cfx') :
    ∃ leg ∈ cfx.legs,
      cfx' = { cfx with cellsUntilSwitch := 0, currLeg := some leg.circ } := by
  unfold confluxPickFirstLeg at h
  split at h
  · exact absurd h (by simp)
  · rename_i leg hleg
    refine ⟨leg, ?_, (Option.some.inj h).symm⟩
    rcases Option.or_eq_some_iff.mp hleg with hfirst | ⟨-, hhead⟩
    · exact firstLeg_mem hfirst
    · exact List.mem_of_head? hhead

/-- What `conflux_decide_next_circ` leaves: a set that is torn down or has no legs as it was, and no
circuit; else a set whose current leg has sent the most, and nothing or a circuit of it. -/
theorem confluxDecideNextCirc_spec (drainPct : ℕ) (circs : Circ → Circuit) (h : SendInv cfx) :
    ∃ cfx' circ, confluxDecideNextCirc drainPct circs cfx = some (cfx', circ) ∧
      SendInv cfx' ∧ cfx'.legs = cfx.legs ∧
      ((circ = none ∧ (cfx'.inFullTeardown = true ∨ cfx'.legs = [])) ∨
        (cfx'.inFullTeardown = false ∧ CurrLegIsMax cfx' ∧
          confluxDecideNextCirc drainPct circs cfx' = some (cfx', circ) ∧
          ∀ c, circ = some c → c ∈ cfx'.legs.map ConfluxLeg.circ)) := by
  rcases hdown : cfx.inFullTeardown with _ | _
  · rcases h.counters with hdown' | ⟨hnone, hzero⟩ | hcurr
    · exact absurd hdown' (by simp [hdown])
    · cases hpick : confluxPickFirstLeg cfx with
      | none =>
        have hnil : cfx.legs = [] := by
          unfold confluxPickFirstLeg at hpick
          cases hlegs : cfx.legs with
          | nil => rfl
          | cons x xs =>
            simp only [hlegs, List.head?_cons] at hpick
            split at hpick
            · rename_i heq
              simp at heq
            · exact absurd hpick (by simp)
        exact ⟨cfx, none, by simp [confluxDecideNextCirc, hdown, hnone, hpick], h, rfl,
          .inl ⟨rfl, .inr hnil⟩⟩
      | some picked =>
        -- nothing was sent yet: any leg has sent the most
        obtain ⟨leg, hleg, rfl⟩ := confluxPickFirstLeg_eq_some hpick
        set picked : Conflux κ := { cfx with cellsUntilSwitch := 0, currLeg := some leg.circ }
        have hmax : CurrLegIsMax picked :=
          ⟨leg.circ, leg.lastSeqSent, rfl, mem_sent_of_mem hleg, fun p hp => by
            rw [show p.2 = 0 from hzero p hp]; exact Nat.zero_le _⟩
        obtain ⟨circ, hcirc, hlegs⟩ :=
          confluxDecideNextCirc_of_curr drainPct circs
            (show picked.inFullTeardown = false from hdown) h.alg hmax
        have hfirst : confluxDecideNextCirc drainPct circs cfx =
            confluxDecideNextCirc drainPct circs picked := by
          simp only [confluxDecideNextCirc, hdown, hnone, hpick, Option.isNone_none, if_true,
            Bool.false_eq_true, if_false]
          simp [picked, hdown]
        exact ⟨picked, circ, hfirst.trans hcirc, ⟨h.nodup, h.alg, .inr (.inr hmax)⟩, rfl,
          .inr ⟨hdown, hmax, hcirc, hlegs⟩⟩
    · obtain ⟨circ, hcirc, hlegs⟩ := confluxDecideNextCirc_of_curr drainPct circs hdown h.alg hcurr
      exact ⟨cfx, circ, hcirc, h, rfl, .inr ⟨hdown, hcurr, hcirc, hlegs⟩⟩
  · exact ⟨cfx, none, by simp [confluxDecideNextCirc, hdown], h, rfl, .inl ⟨rfl, .inl hdown⟩⟩

theorem CurrLegIsMax.noteCellSent (hnodup : (cfx.legs.map ConfluxLeg.circ).Nodup) {circ : Circ}
    {n : ℕ} (hc : cfx.currLeg = some circ) (hmem : (circ, n) ∈ cfx.sent)
    (hmax : ∀ p ∈ cfx.sent, p.2 ≤ n) (hn : n < uint64Max) {relayCommand : RelayCommand}
    (hmul : confluxShouldMultiplex relayCommand = true) :
    CurrLegIsMax (confluxNoteCellSent cfx circ relayCommand) := by
  obtain ⟨leg, hleg, rfl, rfl⟩ := exists_of_mem_sent hmem
  unfold confluxNoteCellSent
  simp only [hmul, confluxGetLeg_of_mem hnodup hleg, Bool.not_true, Bool.false_eq_true, if_false]
  refine ⟨leg.circ, leg.lastSeqSent + 1, hc, ?_, ?_⟩
  · refine List.mem_map.mpr ⟨_, List.mem_map_of_mem hleg, ?_⟩
    simp [u64_succ hn]
  · intro p hp
    obtain ⟨l', hl', rfl⟩ := List.mem_map.mp hp
    obtain ⟨l, hl, rfl⟩ := List.mem_map.mp hl'
    have hle : l.lastSeqSent ≤ leg.lastSeqSent := hmax _ (mem_sent_of_mem hl)
    split_ifs with hsame
    · obtain rfl := List.inj_on_of_nodup_map hnodup hl hleg hsame
      exact (u64_succ hn).le
    · exact hle.trans (Nat.le_succ _)

theorem confluxNoteCellSent_frame (cfx : Conflux κ) (circ : Circ) (relayCommand : RelayCommand) :
    (confluxNoteCellSent cfx circ relayCommand).alg = cfx.alg ∧
      (confluxNoteCellSent cfx circ relayCommand).inFullTeardown = cfx.inFullTeardown ∧
      (confluxNoteCellSent cfx circ relayCommand).currLeg = cfx.currLeg ∧
      (confluxNoteCellSent cfx circ relayCommand).legs.map ConfluxLeg.circ =
        cfx.legs.map ConfluxLeg.circ := by
  unfold confluxNoteCellSent
  split_ifs
  · exact ⟨rfl, rfl, rfl, rfl⟩
  · split
    · exact ⟨rfl, rfl, rfl, rfl⟩
    · refine ⟨rfl, rfl, rfl, ?_⟩
      simp only [updateLeg_legs, List.map_map]
      refine List.map_congr_left fun leg _ => ?_
      simp only [Function.comp]
      split_ifs <;> rfl

theorem CurrLegIsMax.switch {newCirc : Circ} {n : ℕ}
    (hmax : ∀ p ∈ cfx.sent, p.2 ≤ n) (hnew : newCirc ∈ cfx.legs.map ConfluxLeg.circ)
    (cells : ℕ) (prev : Option Circ) {cfx' : Conflux κ}
    (h : cfx' = { cfx with cellsUntilSwitch := cells, prevLeg := prev, currLeg := some newCirc }) :
    (cfx'.updateLeg newCirc ({ · with lastSeqSent := n })).currLeg = some newCirc ∧
      (newCirc, n) ∈ (cfx'.updateLeg newCirc ({ · with lastSeqSent := n })).sent ∧
      ∀ p ∈ (cfx'.updateLeg newCirc ({ · with lastSeqSent := n })).sent, p.2 ≤ n := by
  subst h
  obtain ⟨leg, hleg, rfl⟩ := List.mem_map.mp hnew
  refine ⟨rfl, ?_, ?_⟩
  · refine List.mem_map.mpr ⟨_, List.mem_map_of_mem hleg, ?_⟩
    simp
  · intro p hp
    obtain ⟨l', hl', rfl⟩ := List.mem_map.mp hp
    obtain ⟨l, hl, rfl⟩ := List.mem_map.mp hl'
    split_ifs
    · exact le_rfl
    · exact hmax _ (mem_sent_of_mem hl)

theorem map_circ_updateLeg {circ : Circ} {f : ConfluxLeg → ConfluxLeg}
    (hf : ∀ leg, (f leg).circ = leg.circ) :
    (cfx.updateLeg circ f).legs.map ConfluxLeg.circ = cfx.legs.map ConfluxLeg.circ := by
  simp only [updateLeg_legs, List.map_map]
  refine List.map_congr_left fun leg _ => ?_
  simp only [Function.comp]
  split_ifs
  · exact hf leg
  · rfl

/-- The choice for a cell that is multiplexed, where the set is in use and a circuit is found or the
cell is not DATA: no assertion fails, and the cell goes out on the current leg, or on another one
after a SWITCH cell with how far that one is behind. -/
theorem confluxDecideCircForSend_cases {drainPct : ℕ} {circs : Circ → Circuit} (origCirc : Circ)
    {relayCommand : RelayCommand} (h : SendInv cfx) (hwithin : WithinSwitch cfx)
    (hmul : confluxShouldMultiplex relayCommand = true) {circ : Option Circ} {prev : ConfluxLeg}
    (hc : cfx.currLeg = some prev.circ) (hprev : prev ∈ cfx.legs)
    (hmax : ∀ p ∈ cfx.sent, p.2 ≤ prev.lastSeqSent)
    (hlegs : ∀ c, circ = some c → c ∈ cfx.legs.map ConfluxLeg.circ)
    (hdata : relayCommand = .data → circ ≠ none) {start : Conflux κ}
    (hstart : confluxDecideNextCirc drainPct circs start = some (cfx, circ)) :
    confluxDecideCircForSend drainPct circs start origCirc relayCommand
        = some ⟨cfx, some prev.circ, none⟩ ∨
      ∃ new ∈ cfx.legs, new.lastSeqSent ≤ prev.lastSeqSent ∧
        confluxDecideCircForSend drainPct circs start origCirc relayCommand
          = some ⟨{ cfx with cellsUntilSwitch := 0, prevLeg := some prev.circ,
                             currLeg := some new.circ }.updateLeg new.circ
              ({ · with lastSeqSent := prev.lastSeqSent }),
            some new.circ, some (prev.lastSeqSent - new.lastSeqSent)⟩ := by
  unfold confluxDecideCircForSend
  simp only [hmul, Bool.not_true, Bool.false_eq_true, if_false, hstart, Option.bind_eq_bind,
    Option.bind_some]
  cases circ with
  | none =>
    have hne : relayCommand ≠ .data := fun hd => hdata hd rfl
    simp only [hne, ne_eq, not_false_eq_true, if_true]
    exact .inl (by rw [hc])
  | some newCirc =>
    simp only [hc, Option.bind_some]
    by_cases hsame : newCirc = prev.circ
    · rw [if_pos hsame, hsame]
      exact .inl rfl
    · obtain ⟨new, hnew, rfl⟩ := List.mem_map.mp (hlegs _ rfl)
      have hle : new.lastSeqSent ≤ prev.lastSeqSent := hmax _ (mem_sent_of_mem hnew)
      have hrel : prev.lastSeqSent - new.lastSeqSent < uint32Max := by
        have hlt := (hwithin new hnew).1
        rw [CurrLegIsMax.max_eq (mem_sent_of_mem hprev) hmax] at hlt
        omega
      simp only [if_neg hsame, confluxGetLeg_of_mem h.nodup hprev, confluxGetLeg_of_mem h.nodup hnew,
        Option.bind_some, if_neg (Nat.not_lt.mpr hle), confluxSendSwitchCommand, if_pos hrel]
      exact .inr ⟨new, hnew, hle, rfl⟩

theorem confluxDecideCircForSend_spec {drainPct : ℕ} {circs : Circ → Circuit} (origCirc : Circ)
    {relayCommand : RelayCommand} (h : SendInv cfx) (hwithin : WithinSwitch cfx)
    (hmul : confluxShouldMultiplex relayCommand = true) {circ : Option Circ} (hcurr : CurrLegIsMax cfx)
    (hlegs : ∀ c, circ = some c → c ∈ cfx.legs.map ConfluxLeg.circ)
    (hdata : relayCommand = .data → circ ≠ none) {start : Conflux κ}
    (hstart : confluxDecideNextCirc drainPct circs start = some (cfx, circ)) :
    ∃ d c n, confluxDecideCircForSend drainPct circs start origCirc relayCommand = some d ∧
      d.circ = some c ∧ d.cfx.currLeg = some c ∧ (c, n) ∈ d.cfx.sent ∧
      (∀ p ∈ d.cfx.sent, p.2 ≤ n) ∧ n < uint64Max ∧ d.cfx.alg = cfx.alg ∧
      d.cfx.inFullTeardown = cfx.inFullTeardown ∧
      d.cfx.legs.map ConfluxLeg.circ = cfx.legs.map ConfluxLeg.circ := by
  obtain ⟨curr, n, hc, hmem, hmax⟩ := hcurr
  obtain ⟨prev, hprev, rfl, rfl⟩ := exists_of_mem_sent hmem
  have hn : prev.lastSeqSent < uint64Max := (hwithin prev hprev).2
  rcases confluxDecideCircForSend_cases origCirc h hwithin hmul hc hprev hmax hlegs hdata hstart with
    hd | ⟨new, hnew, -, hd⟩
  · exact ⟨_, prev.circ, prev.lastSeqSent, hd, rfl, hc, hmem, hmax, hn, rfl, rfl, rfl⟩
  · obtain ⟨hcurr', hmem', hmax'⟩ := CurrLegIsMax.switch hmax
      (List.mem_map_of_mem hnew) 0 (some prev.circ) rfl
    exact ⟨_, new.circ, prev.lastSeqSent, hd, rfl, hcurr', hmem', hmax', hn, rfl, rfl,
      map_circ_updateLeg fun _ => rfl⟩

theorem relaySendCommandFromEdge_spec (drainPct : ℕ) (circs : Circ → Circuit) (origCirc : Circ)
    (relayCommand : RelayCommand) (h : SendInv cfx) (hwithin : WithinSwitch cfx)
    (hdata : relayCommand = .data →
      ∃ c, confluxDecideNextCirc drainPct circs cfx = some (cfx, some c)) :
    ∃ cfx', relaySendCommandFromEdge drainPct circs cfx origCirc relayCommand = some cfx' ∧
      SendInv cfx' ∧ cfx'.legs.map ConfluxLeg.circ = cfx.legs.map ConfluxLeg.circ := by
  unfold relaySendCommandFromEdge
  cases hmul : confluxShouldMultiplex relayCommand with
  | false =>
    refine ⟨cfx, ?_, h, rfl⟩
    simp [confluxDecideCircForSend, confluxNoteCellSent, hmul]
  | true =>
    obtain ⟨cfx₁, circ, hnext, h₁, hlegs₁, hcase⟩ := confluxDecideNextCirc_spec drainPct circs h
    have hframe := confluxNoteCellSent_frame cfx₁ (cfx₁.currLeg.getD origCirc) relayCommand
    rcases hcase with ⟨rfl, hidle⟩ | ⟨hdown, hcurr, hagain, hmem⟩
    · -- the set is torn down or empty: only other commands come here, and no counter matters
      have hne : relayCommand ≠ .data := by
        intro hd
        obtain ⟨c, hc⟩ := hdata hd
        exact absurd (hnext.symm.trans hc) (by simp)
      refine ⟨confluxNoteCellSent cfx₁ (cfx₁.currLeg.getD origCirc) relayCommand, ?_, ?_, ?_⟩
      · simp [confluxDecideCircForSend, hmul, hnext, hne]
      · rcases hidle with hdown | hnil
        · exact ⟨hframe.2.2.2 ▸ h₁.nodup, hframe.1 ▸ h₁.alg, .inl (hframe.2.1.trans hdown)⟩
        · have hsame : confluxNoteCellSent cfx₁ (cfx₁.currLeg.getD origCirc) relayCommand = cfx₁ := by
            simp [confluxNoteCellSent, hmul, confluxGetLeg, hnil]
          rw [hsame]
          exact h₁
      · rw [hframe.2.2.2, hlegs₁]
    · have hwithin₁ : WithinSwitch cfx₁ := by
        unfold WithinSwitch confluxGetMaxSeqSent at hwithin ⊢
        rw [hlegs₁]
        exact hwithin
      have hfound : relayCommand = .data → circ ≠ none := by
        rintro hd rfl
        obtain ⟨c, hc⟩ := hdata hd
        exact absurd (hnext.symm.trans hc) (by simp)
      obtain ⟨d, c, n, hd, hcirc, hdcurr, hdmem, hdmax, hn, hdalg, hddown, hdlegs⟩ :=
        confluxDecideCircForSend_spec origCirc h₁ hwithin₁ hmul hcurr hmem hfound hnext
      have hdnodup : (d.cfx.legs.map ConfluxLeg.circ).Nodup := hdlegs ▸ h₁.nodup
      obtain ⟨halg, hdown', -, hcircs⟩ := confluxNoteCellSent_frame d.cfx c relayCommand
      refine ⟨confluxNoteCellSent d.cfx c relayCommand, ?_, ⟨?_, ?_, ?_⟩, ?_⟩
      · simp [hd, hcirc]
      · rw [hcircs]
        exact hdnodup
      · rw [halg, hdalg]
        exact h₁.alg
      · exact .inr (.inr (CurrLegIsMax.noteCellSent hdnodup hdcurr hdmem hdmax hn hmul))
      · rw [hcircs, hdlegs, hlegs₁]

/-! ### Runs -/

/-- What an end keeps: no circuit is in two legs, and the counters of the set. -/
structure EndInv (s : SendState κ) : Prop where
  nodup : s.circs.Nodup
  set : SendInv s.cfx

variable {maxLegsSet drainPct : ℕ} {s s' : SendState κ}

theorem sendInv_joined {legs : List Leg} {alg : ConfluxAlg} (launched : ℕ) (h : SendInv cfx)
    (halg : alg ≠ .cwndrtt)
    (hnodup : (cfx.legs.map ConfluxLeg.circ ++ legs.map Leg.circ).Nodup)
    (hbelow : ∀ leg ∈ legs, leg.link.lastSeqnoRecv ≤ confluxGetMaxSeqSent cfx) :
    SendInv { cfx with alg := alg, numLegLaunch := launched,
                       legs := cfx.legs ++ (delCurrentOrder legs).map Leg.toConfluxLeg } := by
  have hperm : (delCurrentOrder legs).Perm legs := by
    cases legs with
    | nil => exact .refl _
    | cons x xs => exact (List.reverse_perm xs).cons x
  set joined : Conflux κ := { cfx with alg := alg, numLegLaunch := launched,
                                       legs := cfx.legs ++ (delCurrentOrder legs).map Leg.toConfluxLeg }
  have hsent : ∀ p ∈ joined.sent, p ∈ cfx.sent ∨ p.2 ≤ confluxGetMaxSeqSent cfx := by
    intro p hp
    obtain ⟨leg, hleg, rfl⟩ := List.mem_map.mp hp
    rcases List.mem_append.mp hleg with hold | hnew
    · exact .inl (mem_sent_of_mem hold)
    · obtain ⟨l, hl, rfl⟩ := List.mem_map.mp hnew
      exact .inr (hbelow l (mem_delCurrentOrder.mp hl))
  refine ⟨?_, halg, ?_⟩
  · have hcircs : joined.legs.map ConfluxLeg.circ =
        cfx.legs.map ConfluxLeg.circ ++ (delCurrentOrder legs).map Leg.circ := by
      simp [joined, Leg.toConfluxLeg, Function.comp_def]
    rw [hcircs]
    exact ((hperm.map _).append_left _).nodup_iff.mpr hnodup
  · rcases h.counters with hdown | ⟨hnone, hzero⟩ | ⟨circ, n, hcurr, hmem, hmax⟩
    · exact .inl hdown
    · refine .inr (.inl ⟨hnone, fun p hp => ?_⟩)
      have hmax0 : confluxGetMaxSeqSent cfx ≤ 0 := confluxGetMaxSeqSent_le_iff.mpr fun leg hleg =>
        (hzero _ (mem_sent_of_mem hleg)).le
      rcases hsent p hp with hold | hle
      · exact hzero p hold
      · omega
    · refine .inr (.inr ⟨circ, n, hcurr, ?_, fun p hp => ?_⟩)
      · obtain ⟨leg, hleg, rfl, rfl⟩ := exists_of_mem_sent hmem
        exact mem_sent_of_mem (List.mem_append_left _ hleg)
      · rcases hsent p hp with hold | hle
        · exact hmax p hold
        · exact hle.trans (CurrLegIsMax.max_eq hmem hmax).le

theorem endInv_finalize {legs : List Leg} (h : SendInv s.cfx)
    (hnodup : (s.cfx.legs.map ConfluxLeg.circ ++ legs.map Leg.circ).Nodup)
    (hbelow : LegsJoinBelow maxLegsSet s legs)
    (hstep : SendState.finalize maxLegsSet { s with legs := legs } = some s') : EndInv s' := by
  obtain ⟨fin, hfin, rfl⟩ := Option.map_eq_some_iff.mp hstep
  cases fin with
  | missingLeg | tooManyLegs | waiting => exact ⟨hnodup, h⟩
  | notValid =>
    dsimp only
    split_ifs
    · exact ⟨hnodup, h.nodup, h.alg, .inl rfl⟩
    · exact ⟨hnodup, h⟩
  | linked cfx =>
    obtain ⟨halg, heq⟩ := tryFinalizeSet_eq_linked hfin
    have hjoined := sendInv_joined 0 h (halg h.alg) hnodup (hbelow cfx hfin)
    have hcfx : SendInv cfx := heq ▸ hjoined
    exact ⟨by simpa [SendState.circs] using hcfx.nodup, hcfx⟩

theorem cfxDelLeg_spec (ccontrol : CongestionControl) {circ : Circ} {leg : ConfluxLeg}
    (hleg : confluxGetLeg cfx circ = some leg) :
    (cfxDelLeg ccontrol cfx circ).1.legs = smartlistRemove cfx.legs leg ∧
      (cfxDelLeg ccontrol cfx circ).1.alg = cfx.alg ∧
      (cfxDelLeg ccontrol cfx circ).1.inFullTeardown = cfx.inFullTeardown ∧
      (cfxDelLeg ccontrol cfx circ).1.currLeg =
        (if cfx.currLeg = some circ then none else cfx.currLeg) ∧
      (cfx.currLeg = some circ → (cfxDelLeg ccontrol cfx circ).2 = true) := by
  unfold cfxDelLeg
  rw [hleg]
  exact ⟨rfl, rfl, rfl, rfl, fun h => by simp [h]⟩

theorem sendInv_removed {leg : ConfluxLeg} (h : SendInv cfx) (hleg : leg ∈ cfx.legs)
    (hlegs : cfx'.legs = smartlistRemove cfx.legs leg) (halg : cfx'.alg = cfx.alg)
    (hcurr : cfx'.currLeg = if cfx.currLeg = some leg.circ then none else cfx.currLeg)
    (hdown : cfx.inFullTeardown = true → cfx'.inFullTeardown = true)
    (hlast : cfx.currLeg = some leg.circ → cfx'.legs = [] ∨ cfx'.inFullTeardown = true) :
    SendInv cfx' := by
  have hmem : ∀ l, l ∈ cfx'.legs ↔ l ∈ cfx.legs ∧ l ≠ leg := fun l => by
    rw [hlegs, mem_smartlistRemove]
  have hnodup : (cfx'.legs.map ConfluxLeg.circ).Nodup := by
    refine List.Nodup.map_on (fun x hx y hy hxy => ?_) ?_
    · exact List.inj_on_of_nodup_map h.nodup ((hmem x).mp hx).1 ((hmem y).mp hy).1 hxy
    · rw [hlegs]
      exact nodup_smartlistRemove (h.nodup.of_map _)
  have hsent : ∀ p ∈ cfx'.sent, p ∈ cfx.sent := by
    intro p hp
    obtain ⟨l, hl, rfl⟩ := List.mem_map.mp hp
    exact mem_sent_of_mem ((hmem l).mp hl).1
  refine ⟨hnodup, halg ▸ h.alg, ?_⟩
  by_cases hthis : cfx.currLeg = some leg.circ
  · rw [if_pos hthis] at hcurr
    rcases hlast hthis with hnil | hdown'
    · exact .inr (.inl ⟨hcurr, by simp [Conflux.sent, hnil]⟩)
    · exact .inl hdown'
  · rw [if_neg hthis] at hcurr
    rcases h.counters with hd | ⟨hnone, hzero⟩ | ⟨circ, n, hc, hin, hmax⟩
    · exact .inl (hdown hd)
    · exact .inr (.inl ⟨hcurr.trans hnone, fun p hp => hzero p (hsent p hp)⟩)
    · -- the current leg is another one and stays
      obtain ⟨l, hl, rfl, rfl⟩ := exists_of_mem_sent hin
      have hne : l ≠ leg := by
        rintro rfl
        exact hthis hc
      exact .inr (.inr ⟨l.circ, l.lastSeqSent, hcurr.trans hc, mem_sent_of_mem ((hmem l).mpr ⟨hl, hne⟩),
        fun p hp => hmax p (hsent p hp)⟩)

theorem endInv_legClosed {ccontrol : CongestionControl} {circ : Circ} (h : EndInv s)
    (hok : s.cfx.currLeg = some circ → 1 < s.cfx.legs.length → s.pooled = true)
    (hstep : sendStep maxLegsSet drainPct s (.legClosed circ ccontrol) = some s') : EndInv s' := by
  cases hleg : confluxGetLeg s.cfx circ with
  | none =>
    have hsame : cfxDelLeg ccontrol s.cfx circ = (s.cfx, false) := by
      unfold cfxDelLeg
      rw [hleg]
    simp only [sendStep, hsame, Bool.false_and, Bool.false_eq_true, if_false] at hstep
    split_ifs at hstep
    · obtain rfl := Option.some.inj hstep
      exact ⟨h.nodup, h.set⟩
    · obtain rfl := Option.some.inj hstep
      exact h
  | some leg =>
    obtain ⟨hmem, rfl⟩ := mem_of_confluxGetLeg hleg
    obtain ⟨hlegs, halg, hdown, hcurr, hfull⟩ := cfxDelLeg_spec ccontrol hleg
    obtain ⟨hnd, hpend, hdisj⟩ := List.nodup_append.mp h.nodup
    -- whatever the flag becomes, the circuits are fewer
    have hcircs : ∀ {set : Conflux κ} {pooled : Bool}, SendInv set →
        set.legs = smartlistRemove s.cfx.legs leg → EndInv ⟨set, s.legs, pooled⟩ := by
      intro set pooled hset hl
      refine ⟨List.nodup_append.mpr ⟨hset.nodup, hpend, fun c hc d hd => ?_⟩, hset⟩
      obtain ⟨x, hx, rfl⟩ := List.mem_map.mp hc
      dsimp only at hx
      rw [hl, mem_smartlistRemove] at hx
      exact hdisj _ (List.mem_map_of_mem hx.1) d hd
    simp only [sendStep] at hstep
    split_ifs at hstep with hnil hflag
    · obtain rfl := Option.some.inj hstep
      refine hcircs (sendInv_removed h.set hmem hlegs halg hcurr (fun hd => hdown.trans hd) ?_) hlegs
      exact fun _ => .inl (List.length_eq_zero_iff.mp hnil)
    · obtain rfl := Option.some.inj hstep
      exact hcircs (sendInv_removed h.set hmem hlegs halg hcurr (fun _ => rfl) fun _ => .inr rfl) hlegs
    · obtain rfl := Option.some.inj hstep
      refine hcircs (sendInv_removed h.set hmem hlegs halg hcurr (fun hd => hdown.trans hd) ?_) hlegs
      intro hthis
      -- the current leg of several: the set is torn down, so the flag was set
      exfalso
      have hlen : 1 < s.cfx.legs.length := by
        rw [hlegs] at hnil
        obtain ⟨other, hother⟩ := List.exists_mem_of_length_pos (Nat.pos_of_ne_zero hnil)
        rw [mem_smartlistRemove] at hother
        match hs : s.cfx.legs with
        | [] => simp [hs] at hmem
        | [x] =>
          rw [hs, List.mem_singleton] at hmem hother
          exact absurd (hother.1.trans hmem.symm) hother.2
        | _ :: _ :: _ => simp
      exact hflag (by rw [hfull hthis, hok hthis hlen]; rfl)

theorem sendCommand_spec (maxLegsSet drainPct : ℕ) (circs : Circ → Circuit) (origCirc : Circ)
    (relayCommand : RelayCommand) (h : SendInv s.cfx) (hwithin : WithinSwitch s.cfx) :
    ∃ set, sendStep maxLegsSet drainPct s (.sendCommand circs origCirc relayCommand) =
        some { s with cfx := set } ∧
      SendInv set ∧ set.legs.map ConfluxLeg.circ = s.cfx.legs.map ConfluxLeg.circ := by
  simp only [sendStep]
  split_ifs with hdata
  · -- DATA: the choice that found a circuit is the one that is made again
    obtain ⟨set, circ, hnext, hset, hlegs, hcase⟩ :=
      confluxDecideNextCirc_spec drainPct circs h
    simp only [hnext, Option.bind_eq_bind, Option.bind_some]
    cases circ with
    | none => exact ⟨set, rfl, hset, by rw [hlegs]⟩
    | some c =>
      rcases hcase with ⟨hnone, -⟩ | ⟨-, -, hagain, -⟩
      · exact absurd hnone (by simp)
      · have hwithin' : WithinSwitch set := by
          unfold WithinSwitch confluxGetMaxSeqSent at hwithin ⊢
          rw [hlegs]
          exact hwithin
        obtain ⟨set', hsend, hinv, hcircs⟩ :=
          relaySendCommandFromEdge_spec drainPct circs origCirc relayCommand hset hwithin' fun _ => ⟨c, hagain⟩
        exact ⟨set', by simp [hsend], hinv, by rw [hcircs, hlegs]⟩
  · obtain ⟨set', hsend, hinv, hcircs⟩ :=
      relaySendCommandFromEdge_spec drainPct circs origCirc relayCommand h hwithin fun hd => absurd hd hdata
    exact ⟨set', by simp [hsend], hinv, hcircs⟩

theorem endInv_step {a : SendAction κ} (h : EndInv s) (hok : JoinsBelow maxLegsSet s a)
    (hstep : sendStep maxLegsSet drainPct s a = some s') : EndInv s' := by
  have hkeep : ∀ {set : Conflux κ}, SendInv set →
      set.legs.map ConfluxLeg.circ = s.cfx.legs.map ConfluxLeg.circ → EndInv { s with cfx := set } :=
    fun hset hcircs => ⟨by simpa only [SendState.circs, hcircs] using h.nodup, hset⟩
  cases a with
  | newLeg leg =>
    simp only [sendStep] at hstep
    by_cases hmem : leg.circ ∈ s.circs
    · rw [if_pos hmem] at hstep
      exact Option.some.inj hstep ▸ h
    have hnodup : (s.cfx.legs.map ConfluxLeg.circ ++ (s.legs ++ [leg]).map Leg.circ).Nodup := by
      rw [List.map_append, ← List.append_assoc]
      refine List.nodup_append.mpr ⟨h.nodup, by simp, fun c hc d hd => ?_⟩
      obtain rfl : d = leg.circ := by simpa using hd
      rintro rfl
      exact hmem hc
    rw [if_neg hmem] at hstep
    split_ifs at hstep
    · exact endInv_finalize h.set hnodup hok hstep
    · obtain rfl := Option.some.inj hstep
      exact ⟨hnodup, h.set⟩
  | linked circ now link =>
    simp only [sendStep] at hstep
    split_ifs at hstep with hmem
    · refine endInv_finalize h.set ?_ hok hstep
      have hcircs : (storeLinked s.unlinked circ now link).legs.map Leg.circ = s.legs.map Leg.circ := by
        simp only [storeLinked, SendState.unlinked, List.map_map]
        refine List.map_congr_left fun leg _ => ?_
        simp only [Function.comp]
        split_ifs <;> rfl
      rw [hcircs]
      exact h.nodup
    · exact Option.some.inj hstep ▸ h
  | unlinkedClosed circ =>
    obtain rfl := Option.some.inj hstep
    refine ⟨h.nodup.sublist ?_, h.set⟩
    exact (List.Sublist.refl _).append (List.filter_sublist.map _)
  | legClosed circ ccontrol => exact endInv_legClosed h hok hstep
  | unpooled =>
    obtain rfl := Option.some.inj hstep
    exact ⟨h.nodup, h.set⟩
  | updateRtt circ rttUsec =>
    obtain rfl := Option.some.inj hstep
    exact hkeep (h.set.congr (sent_updateLeg fun _ => ⟨rfl, rfl⟩) rfl rfl rfl)
      (map_circ_updateLeg fun _ => rfl)
  | processSwitch circ relativeSeq =>
    obtain rfl := Option.some.inj hstep
    exact hkeep (h.set.congr (sent_updateLeg fun _ => ⟨rfl, rfl⟩) rfl rfl rfl)
      (map_circ_updateLeg fun _ => rfl)
  | processCell circ cell =>
    simp only [sendStep] at hstep
    split at hstep
    · exact Option.some.inj hstep ▸ h
    · rename_i leg hleg
      obtain rfl := Option.some.inj hstep
      have hcounted : ∃ n, (confluxProcessCell s.cfx leg cell).1.legs =
          (s.cfx.updateLeg leg.circ ({ · with lastSeqRecv := n })).legs ∧
          (confluxProcessCell s.cfx leg cell).1.currLeg = s.cfx.currLeg ∧
          (confluxProcessCell s.cfx leg cell).1.alg = s.cfx.alg ∧
          (confluxProcessCell s.cfx leg cell).1.inFullTeardown = s.cfx.inFullTeardown := by
        refine ⟨u64 (leg.lastSeqRecv + 1), ?_⟩
        simp only [confluxProcessCell]
        split_ifs <;> exact ⟨rfl, rfl, rfl, rfl⟩
      obtain ⟨n, hlegs, hcurr, halg, hdown⟩ := hcounted
      refine hkeep (h.set.congr ?_ hcurr halg hdown) ?_
      · rw [Conflux.sent, hlegs]
        exact sent_updateLeg fun _ => ⟨rfl, rfl⟩
      · rw [hlegs]
        exact map_circ_updateLeg fun _ => rfl
  | dequeueCell =>
    simp only [sendStep] at hstep
    split at hstep
    · exact Option.some.inj hstep ▸ h
    · rename_i top set hdeq
      obtain rfl := Option.some.inj hstep
      unfold confluxDequeueCell at hdeq
      split at hdeq
      · exact absurd hdeq (by simp)
      · split_ifs at hdeq
        obtain ⟨-, rfl⟩ := Prod.mk.inj (Option.some.inj hdeq)
        exact hkeep (h.set.congr rfl rfl rfl rfl) rfl
  | decideNext circs =>
    obtain ⟨set, circ, hnext, hset, hlegs, -⟩ := confluxDecideNextCirc_spec drainPct circs h.set
    simp only [sendStep, hnext, Option.map_some] at hstep
    obtain rfl := Option.some.inj hstep
    exact hkeep hset (by rw [hlegs])
  | sendCommand circs origCirc relayCommand =>
    obtain ⟨set, hsend, hinv, hcircs⟩ :=
      sendCommand_spec maxLegsSet drainPct circs origCirc relayCommand h.set hok
    obtain rfl := Option.some.inj (hsend.symm.trans hstep)
    exact hkeep hinv hcircs

theorem endInv_reached {ok : SendState κ → SendAction κ → Prop}
    (hok : ∀ s a, ok s a → JoinsBelow maxLegsSet s a)
    (hr : Reached (sendSystem κ maxLegsSet drainPct) ok s) : EndInv s := by
  refine hr.invariant ⟨?_, fun s a s' hs ha hstep => endInv_step hs (hok s a ha) hstep⟩
  rintro _ ⟨nonce, rfl⟩
  exact ⟨by simp [SendState.circs, confluxNew], by simp [confluxNew], by simp [confluxNew],
    .inr (.inl ⟨rfl, by simp [Conflux.sent, confluxNew]⟩)⟩

/-- In a run whose steps meet the condition, choosing a circuit and sending on it fail no assertion,
and the algorithm that refuses sets with legs is never the one of the set. -/
theorem send_assertions_hold
    (hr : Reached (sendSystem κ maxLegsSet drainPct) (JoinsBelow maxLegsSet) s) :
    s.cfx.alg ≠ .cwndrtt ∧
      (∀ circs, sendStep maxLegsSet drainPct s (.decideNext circs) ≠ none) ∧
      ∀ circs origCirc relayCommand,
        JoinsBelow maxLegsSet s (.sendCommand circs origCirc relayCommand) →
          sendStep maxLegsSet drainPct s (.sendCommand circs origCirc relayCommand) ≠ none := by
  have h := endInv_reached (fun _ _ hok => hok) hr
  refine ⟨h.set.alg, fun circs => ?_, fun circs origCirc relayCommand hok => ?_⟩
  · obtain ⟨set, circ, hnext, -⟩ := confluxDecideNextCirc_spec drainPct circs h.set
    simp [sendStep, hnext]
  · obtain ⟨set, hsend, -⟩ :=
      sendCommand_spec maxLegsSet drainPct circs origCirc relayCommand h.set hok
    simp [hsend]

def idleCircuit : Circuit where
  isOrigin := true
  circuitBlockedOnNChan := false
  circuitBlockedOnPChan := false
  ccontrol :=
    { sendmePendingTimestamps := [], ewmaRttUsec := 0, minRttUsec := 0, maxRttUsec := 0, bdp := 0,
      cwnd := 124, inflight := 0, nextCcEvent := 0, nextCwndEvent := 0, inSlowStart := true,
      cwndFull := false, blockedChan := false, cwndIncPctSs := 100, cwndInc := 1, cwndMin := 124,
      cwndIncRate := 31, sendmeInc := 31,
      vegasParams :=
        { ssCwndCap := 600, ssCwndMax := 5000, gamma := 186, alpha := 186, beta := 248, delta := 310 } }

def waitingLeg (circ : Circ) : Leg where
  circ := circ
  link := freshLink 7 0
  linked := false
  linkSentUsec := 1
  rttUsec := 0

theorem one_leg_assertions_hold :
    sendStep 8 0 ⟨{ confluxNew Unit (freshLink 7 0).nonce with
        legs := [(waitingLeg 0).toConfluxLeg] }, [], true⟩
      (.sendCommand (fun _ => idleCircuit) 0 .data) ≠ none := by
  have hjoin : JoinsBelow 8 (⟨confluxNew Unit (freshLink 7 0).nonce, [], false⟩ : SendState Unit)
      (.newLeg { waitingLeg 0 with linked := true }) := by
    intro cfx _ leg hleg
    obtain rfl : leg = { waitingLeg 0 with linked := true } := by simpa using hleg
    exact Nat.zero_le _
  have hstep : sendStep 8 0 (⟨confluxNew Unit (freshLink 7 0).nonce, [], false⟩ : SendState Unit)
      (.newLeg { waitingLeg 0 with linked := true }) =
      some ⟨{ confluxNew Unit (freshLink 7 0).nonce with
        legs := [(waitingLeg 0).toConfluxLeg] }, [], true⟩ := rfl
  have hwithin : WithinSwitch { confluxNew Unit (freshLink 7 0).nonce with
      legs := [(waitingLeg 0).toConfluxLeg] } := by
    intro leg hleg
    obtain rfl : leg = (waitingLeg 0).toConfluxLeg := by simpa using hleg
    decide
  have hinit : Reached (sendSystem Unit 8 0) (JoinsBelow 8)
      ⟨confluxNew Unit (freshLink 7 0).nonce, [], false⟩ := .init ⟨_, rfl⟩
  exact (send_assertions_hold (hinit.step hjoin hstep)).2.2 _ _ _ hwithin

/-- The exit says on the second leg that it has received five cells, where none was sent.  The first
leg becomes the slower one, and the next cell fails the assertion. -/
theorem send_assertion_fails :
    ∃ s, Reached (sendSystem Unit 8 0) (fun _ _ => True) s ∧
      sendStep 8 0 s (.sendCommand (fun _ => idleCircuit) 0 .data) = none := by
  have hrun : ∃ s, [.newLeg (waitingLeg 0), .newLeg (waitingLeg 1), .linked 0 1001 (freshLink 7 0),
      .linked 1 2001 { freshLink 7 0 with lastSeqnoRecv := 5 },
      .sendCommand (fun _ => idleCircuit) 0 .begin, .updateRtt 0 3000].foldlM (sendStep 8 0)
        ⟨confluxNew Unit (freshLink 7 0).nonce, [], false⟩ = some s ∧
      sendStep 8 0 s (.sendCommand (fun _ => idleCircuit) 0 .data) = none := ⟨_, rfl, rfl⟩
  obtain ⟨s, hs, hfail⟩ := hrun
  exact ⟨s, Reached.foldlM (fun _ _ _ h => h) _ (.init ⟨_, rfl⟩) hs, hfail⟩

end Conflux
