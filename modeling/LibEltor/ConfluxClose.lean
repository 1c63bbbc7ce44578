/-
A leg of a conflux set that closes (`cfx_del_leg` and `linked_circuit_closed` in
`core/or/conflux_pool.c`).

Cells of a leg that are on their way when it closes are gone.  The rest of the set
must then go too, for the receiver would wait for their numbers for ever.  An end
tears the set down when a whole SENDME increment is in flight on the leg, when the
leg leads the others in what was sent or received, or when it is the one in use.
-/
import LibEltor.ConfluxLink
import LibEltor.Multipath

open Word CongestionControl Smartlist Multipath

namespace Conflux

variable {κ : Type}

/-- What the conflux code puts on a leg once it is linked: SWITCH cells, each with how
many numbers the leg skips, and cells. -/
abbrev LegCell := Item

variable {r s : ℕ} {q : List (LegCell κ)}

theorem confluxGetLeg_updateLeg (cfx : Conflux κ) (circ : Circ) {f : ConfluxLeg → ConfluxLeg}
    (hf : ∀ leg, (f leg).circ = leg.circ) (c : Circ) :
    confluxGetLeg (cfx.updateLeg circ f) c =
      (confluxGetLeg cfx c).map fun leg => if leg.circ = circ then f leg else leg := by
  have hcomp : ((fun l : ConfluxLeg => decide (l.circ = c)) ∘
      fun l => if l.circ = circ then f l else l) = fun l => decide (l.circ = c) := by
    funext l
    simp only [Function.comp]
    split_ifs <;> simp [hf]
  simp only [confluxGetLeg, updateLeg_legs, List.find?_map, hcomp]

/-! ### Closing -/

structure ClosingEnd (κ : Type) where
  cfx : Conflux κ
  ccontrol : CongestionControl

/-- Both ends of a set when a leg of it closes, and what is on its way on the
leg. -/
structure Closing (κ : Type) where
  circ : Circ
  near : ClosingEnd κ
  far : ClosingEnd κ
  toFar : List (LegCell κ)
  toNear : List (LegCell κ)

/-- `linked_circuit_closed`: the whole set goes with the leg, because `cfx_del_leg`
says so, because it was the last leg, or because it is torn down already. -/
def ClosingEnd.fullTeardown (e : ClosingEnd κ) (circ : Circ) : Bool :=
  let (cfx, fullTeardown) := cfxDelLeg e.ccontrol e.cfx circ
  fullTeardown || decide (cfx.legs.length = 0) || e.cfx.inFullTeardown

/-- No cell is lost with the leg unless the set goes at one of the ends. -/
def Closing.NothingLost (c : Closing κ) : Prop :=
  c.near.fullTeardown c.circ = false → c.far.fullTeardown c.circ = false →
    (∀ x, Item.item x ∉ c.toFar) ∧ ∀ x, Item.item x ∉ c.toNear

/-- An end that will not miss the closing of a leg: a SENDME increment is in flight
on it, it is the one in use or the only one, it leads the others in what was sent
or in what was received, or the set is torn down already. -/
def ClosingEnd.Notices (e : ClosingEnd κ) (leg : ConfluxLeg) : Prop :=
  e.ccontrol.sendmeInc ≤ e.ccontrol.inflight ∨ e.cfx.currLeg = some leg.circ ∨
    smartlistRemove e.cfx.legs leg = [] ∨
    (0 < leg.lastSeqSent ∧ ∀ l ∈ smartlistRemove e.cfx.legs leg, l.lastSeqSent < leg.lastSeqSent) ∨
    (0 < leg.lastSeqRecv ∧ ∀ l ∈ smartlistRemove e.cfx.legs leg, l.lastSeqRecv < leg.lastSeqRecv) ∨
    e.cfx.inFullTeardown = true

theorem foldl_max_lt_iff (f : ConfluxLeg → ℕ) (legs : List ConfluxLeg) (n : ℕ) :
    legs.foldl (fun acc leg => if f leg > acc then f leg else acc) 0 < n ↔
      0 < n ∧ ∀ leg ∈ legs, f leg < n := by
  cases n with
  | zero => simp
  | succ n =>
    rw [Nat.lt_succ_iff, foldl_max_le_iff]
    simp only [Nat.lt_succ_iff, Nat.zero_le, true_and]

theorem ClosingEnd.fullTeardown_iff {e : ClosingEnd κ} {circ : Circ} {leg : ConfluxLeg}
    (hleg : confluxGetLeg e.cfx circ = some leg) :
    e.fullTeardown circ = true ↔ e.Notices leg := by
  obtain rfl := (mem_of_confluxGetLeg hleg).2
  have hsent := foldl_max_lt_iff ConfluxLeg.lastSeqSent (smartlistRemove e.cfx.legs leg)
    leg.lastSeqSent
  have hrecv := foldl_max_lt_iff ConfluxLeg.lastSeqRecv (smartlistRemove e.cfx.legs leg)
    leg.lastSeqRecv
  simp only [fullTeardown, cfxDelLeg, hleg, Notices, confluxGetMaxSeqSent, confluxGetMaxSeqRecv,
    Bool.or_eq_true, Bool.and_eq_true, decide_eq_true_eq, hsent, hrecv, List.length_eq_zero_iff,
    gt_iff_lt, List.length_pos_iff, ge_iff_le]
  tauto

/-- Where one of these holds, and nowhere else, no cell is lost without the set
going too: an end notices, or the counters of the leg are the same at both ends. -/
theorem closing_loses_nothing_iff {c : Closing κ} {near far : ConfluxLeg}
    (hnear : confluxGetLeg c.near.cfx c.circ = some near)
    (hfar : confluxGetLeg c.far.cfx c.circ = some far)
    (htoFar : InFlight far.lastSeqRecv c.toFar near.lastSeqSent)
    (htoNear : InFlight near.lastSeqRecv c.toNear far.lastSeqSent) :
    c.NothingLost ↔ c.near.Notices near ∨ c.far.Notices far ∨
      (far.lastSeqRecv = near.lastSeqSent ∧ near.lastSeqRecv = far.lastSeqSent) := by
  have hn := ClosingEnd.fullTeardown_iff hnear
  have hf := ClosingEnd.fullTeardown_iff hfar
  rw [Closing.NothingLost, ← Bool.not_eq_true, ← Bool.not_eq_true, hn, hf, htoFar.no_item_iff,
    htoNear.no_item_iff, htoFar.eq_nil_iff, htoNear.eq_nil_iff]
  tauto

def ccInflight (inflight : ℕ) : CongestionControl :=
  { congestionControlNew (fun _ => none) ⟨true, 31⟩ .exit with inflight := inflight }

/-- Two legs of an exit: five cells went out on the first one, which it left, and
one on the second, on which a BEGIN had come in. -/
def leftLegExit : Conflux Unit :=
  { confluxNew Unit (fun _ => 0) with
    legs := [⟨0, 5, 100, 0, 1⟩, ⟨1, 6, 50, 0, 2⟩]
    lastSeqDelivered := 1
    currLeg := some 2
    prevLeg := some 1 }

/-- The client has the sixth cell and the first cells of the first leg. -/
def leftLegClient (received : ℕ) : Conflux Unit :=
  { confluxNew Unit (fun _ => 0) with
    legs := [⟨received, 0, 100, 0, 1⟩, ⟨6, 1, 50, 0, 2⟩]
    oooQ := [⟨6, ()⟩]
    lastSeqDelivered := received
    currLeg := some 2 }

/-- The first leg closes, with some of its five cells still on their way. -/
def leftLeg (received : ℕ) (toFar : List (LegCell Unit)) : Closing Unit where
  circ := 1
  near := ⟨leftLegExit, ccInflight 5⟩
  far := ⟨leftLegClient received, ccInflight 0⟩
  toFar := toFar
  toNear := []

/-- Where all five cells have arrived the leg closes without loss. -/
theorem leftLeg_arrived : (leftLeg 5 []).NothingLost :=
  (closing_loses_nothing_iff (c := leftLeg 5 []) rfl rfl (.nil 5) (.nil 0)).mpr
    (.inr (.inr ⟨rfl, rfl⟩))

/-- Where the fifth is on its way neither end tears the set down, and the client
waits for it for ever. -/
theorem leftLeg_loses :
    ∃ near far, confluxGetLeg leftLegExit 1 = some near ∧
      confluxGetLeg (leftLegClient 4) 1 = some far ∧
      InFlight far.lastSeqRecv [Item.item ()] near.lastSeqSent ∧
      InFlight near.lastSeqRecv ([] : List (LegCell Unit)) far.lastSeqSent ∧
      ¬ (leftLeg 4 [.item ()]).NothingLost := by
  refine ⟨_, _, rfl, rfl, .item () (.nil 5), .nil 0, fun h => ?_⟩
  obtain ⟨hlost, -⟩ := h (by decide) (by decide)
  exact hlost () List.mem_cons_self

end Conflux
