/-
Agreement of client and relays on padding machines.

`Permitted` says which steps keep the two in line: a start finds its slot at the relay free and the
relay's counter one behind, the reply to a stop finds no later instance that was stopped meanwhile,
and the client's counter does not wrap around.  In runs of such steps the invariant of the
negotiation holds, and with it `padding_negotiation_agrees`.  Machines for two hops break it
(`counters_apart`): the client has one counter for both.
-/
import LibEltor.PaddingInvariant

open Transition

namespace PaddingNegotiation

variable {specs : Specs} {w : World} {h : ℕ}

def Permitted (specs : Specs) (w : World) : Action → Prop
  | .addMatchingMachines _ => w.client.paddingMachineCtr + 2 < 2 ^ 32
  | .deliverUp h => ∀ i n c rest, w.up h = (i, ⟨.start, n, c⟩) :: rest →
      ∃ r, specs.relayPaddingMachines.find? (fun m => m.machineNum = n) = some r ∧
        (w.relays h).paddingMachine r.machineIndex = none ∧
        (w.relays h).paddingMachineCtr + 1 = c
  | .deliverDown h => ∀ d ok n c rest, w.down h = (d, .negotiated .stop ok n c) :: rest →
      ∀ i m, w.client.paddingMachine i = some m → m.machineNum = n →
        w.client.paddingInfo i = none → w.latest i = c
  | _ => True

/-! ### A relay gets its next cell -/

theorem deliverUp_start (hinv : Inv w) (hperm : Permitted specs w (.deliverUp h)) {i : Fin 2}
    {n c : ℕ} {rest : List (Fin 2 × Negotiate)} (hqueue : w.up h = (i, ⟨.start, n, c⟩) :: rest) :
    ∃ r, r.machineNum = n ∧ (w.relays h).paddingMachine r.machineIndex = none ∧
      (w.relays h).paddingMachineCtr + 1 = c ∧
      deliverUp specs w h =
        sendDown (setRelay (setUp w h rest) h (occupy (w.relays h) r c)) h c
          (.negotiated .start true n c) := by
  obtain ⟨r, hfind, hmachine, hnext⟩ := hperm i n c rest hqueue
  have hnum := List.find?_some hfind
  simp only [decide_eq_true_eq] at hnum
  have hside : false = r.isOriginSide :=
    (specs.relaySide r (List.mem_of_find?_eq_some hfind)).symm
  have hinfo : (w.relays h).paddingInfo r.machineIndex = none := by
    by_contra hne
    obtain ⟨d, hd⟩ := Option.ne_none_iff_exists'.mp hne
    obtain ⟨r', _, hr', _⟩ := (hinv.relay h).held r.machineIndex d hd
    rw [hmachine] at hr'
    cases hr'
  have hctr : (w.relays h).paddingMachineCtr + 1 < 2 ^ 32 := by
    have hmem : (i, ⟨.start, n, c⟩) ∈ w.up h := hqueue ▸ List.mem_cons_self
    obtain ⟨m, hinst, _⟩ := (hinv.up h).inst _ hmem
    have hle : c ≤ w.client.paddingMachineCtr := (hinv.client.inst c m hinst).2.1
    have := hinv.client.ctr_lt
    omega
  have hsetup := setupMachineOnCirc_free hside hmachine hinfo hctr
  rw [hnext] at hsetup
  refine ⟨r, hnum, hmachine, hnext, ?_⟩
  simp only [deliverUp, hqueue, handlePaddingNegotiate, hfind, hsetup]
  rfl

theorem deliverUp_start_inv (hinv : Inv w) (hperm : Permitted specs w (.deliverUp h)) {i : Fin 2}
    {n c : ℕ} {rest : List (Fin 2 × Negotiate)} (hqueue : w.up h = (i, ⟨.start, n, c⟩) :: rest) :
    Inv (deliverUp specs w h) := by
  obtain ⟨r, hnum, _, hnext, heq⟩ := deliverUp_start hinv hperm hqueue
  have hup := hinv.up h
  have hmem : (i, ⟨.start, n, c⟩) ∈ w.up h := hqueue ▸ List.mem_cons_self
  obtain ⟨m, hinst, hhop, hnumm, hidx⟩ := hup.inst _ hmem
  obtain ⟨hnew, hwaits⟩ := hup.later _ hmem rfl
  have hself : (setUp w h rest).up h = rest := Function.update_self _ _ _
  have hpop : Inv (setUp w h rest) :=
    setUp_inv hinv hqueue fun _ _ _ hstop => stop_ne_start hstop.1.symm
  have hcovered := hup.covered
  have hsorted := hup.sorted
  rw [hqueue] at hcovered hsorted
  replace hidx : m.machineIndex = i := hidx
  subst hidx
  have hset : Inv (setRelay (setUp w h rest) h (occupy (w.relays h) r c)) := by
    refine setRelay_occupy_inv hpop hinst hhop (hnumm.trans hnum.symm) hnext hwaits ?_ ?_ ?_
    · rw [hself]
      exact hcovered.1 rfl
    · intro j d hheld ⟨m₁, m₂, h₁, h₂, hsame⟩
      obtain ⟨_, m₀, _, hinst₀, _, _, _, _, hsettled⟩ := (hinv.relay h).held j d hheld
      obtain rfl := Option.some.inj (hinst₀.symm.trans h₁)
      obtain rfl := Option.some.inj (hinst.symm.trans h₂)
      rw [hqueue] at hsettled
      exact hsettled.not_startsIn rfl hsame.symm
    · rw [hself]
      intro q hq hstart
      exact (List.pairwise_cons.mp hsorted).1 q hq rfl hstart
  rw [heq]
  have hctr : ((setRelay (setUp w h rest) h (occupy (w.relays h) r c)).relays h).paddingMachineCtr =
      c := by
    rw [setRelay_self]
    rfl
  refine sendDown_inv hset hinst hhop hctr.ge hwaits ⟨rfl, hnumm.symm, rfl⟩
    (fun hstop => hstop.elim) fun p hp _ _ => ?_
  obtain ⟨_, _, _, hle, _⟩ := (hinv.down h).inst p hp
  omega

theorem matchesSlot_relay (hinv : Inv w) {i : Fin 2} {n c : ℕ}
    {rest : List (Fin 2 × Negotiate)} (hqueue : w.up h = (i, ⟨.stop, n, c⟩) :: rest) (j : Fin 2) :
    matchesSlot (w.relays h) n c j = true ↔ (w.relays h).paddingInfo j = some c := by
  have hmem : (i, ⟨.stop, n, c⟩) ∈ w.up h := hqueue ▸ List.mem_cons_self
  obtain ⟨m, hinst, _, hnum, _⟩ := (hinv.up h).inst _ hmem
  have hone : 1 ≤ c := (hinv.client.inst c m hinst).1
  rw [matchesSlot]
  constructor
  · intro hmatch
    cases hr : (w.relays h).paddingMachine j with
    | none => simp [hr] at hmatch
    | some r =>
      obtain ⟨d, hd⟩ := Option.isSome_iff_exists.mp ((hinv.relay h).machine j r hr)
      rw [hr, hd] at hmatch
      have hdc : c = 0 ∨ d = c := by simpa using (Bool.and_eq_true_iff.mp hmatch).2
      rw [hd, hdc.resolve_left (by omega)]
  · intro hheld
    obtain ⟨r, m₀, hr, hinst₀, _, hnum₀, _⟩ := (hinv.relay h).held j c hheld
    obtain rfl := Option.some.inj (hinst.symm.trans hinst₀)
    have hrn : r.machineNum = n := hnum₀.symm.trans hnum
    simp [hr, hheld, hrn]

theorem deliverUp_stop_inv (hinv : Inv w) {i : Fin 2} {n c : ℕ}
    {rest : List (Fin 2 × Negotiate)} (hqueue : w.up h = (i, ⟨.stop, n, c⟩) :: rest) :
    Inv (deliverUp specs w h) := by
  have hmatch := matchesSlot_relay hinv hqueue
  have hfree := freeWithMachineNum_frees (w.relays h) n c
  have hgone : ∀ j, (freeWithMachineNum (w.relays h) n c).2.paddingInfo j ≠ some c := by
    intro j hheld
    have htrue := (hmatch j).mpr (hfree.info hheld).1
    have hnone : (freeWithMachineNum (w.relays h) n c).2.paddingInfo j = none := if_pos htrue
    rw [hnone] at hheld
    cases hheld
  have hset : Inv (setUp (setRelay w h (freeWithMachineNum (w.relays h) n c).2) h rest) := by
    refine setUp_inv (setRelay_frees_inv hinv hfree) hqueue fun j d hheld hstop => ?_
    rw [setRelay_self] at hheld
    obtain rfl : c = d := hstop.2
    exact hgone j hheld
  by_cases hfound : (freeWithMachineNum (w.relays h) n c).1 = true
  · have heq : deliverUp specs w h =
        sendDown (setUp (setRelay w h (freeWithMachineNum (w.relays h) n c).2) h rest) h c
          (.negotiated .stop true n c) := by
      simp only [deliverUp, hqueue, handlePaddingNegotiate, if_pos hfound]
      rfl
    obtain ⟨j, hheld⟩ : ∃ j, (w.relays h).paddingInfo j = some c := by
      rcases Bool.or_eq_true_iff.mp hfound with hzero | hone
      · exact ⟨0, (hmatch 0).mp hzero⟩
      · exact ⟨1, (hmatch 1).mp hone⟩
    obtain ⟨_, m, _, hinst, hhop, _, hc, hwaits, _⟩ := (hinv.relay h).held j c hheld
    have hmem : (i, ⟨.stop, n, c⟩) ∈ w.up h := hqueue ▸ List.mem_cons_self
    obtain ⟨m₀, hinst₀, _, hnum, _⟩ := (hinv.up h).inst _ hmem
    obtain rfl := Option.some.inj (hinst.symm.trans hinst₀)
    rw [heq]
    refine sendDown_inv hset hinst hhop ?_ hwaits ⟨rfl, hnum.symm, rfl⟩ (fun _ j hheld => ?_)
      fun p hp hstop hsame => hinv.stop_lt_held hheld hp hstop hsame
    · show c ≤ ((setRelay w h _).relays h).paddingMachineCtr
      rw [setRelay_self, hfree.ctr]
      exact hc
    · replace hheld : ((setRelay w h _).relays h).paddingInfo j = some c := hheld
      rw [setRelay_self] at hheld
      exact hgone j hheld
  · have heq : deliverUp specs w h =
        setUp (setRelay w h (freeWithMachineNum (w.relays h) n c).2) h rest := by
      simp only [deliverUp, hqueue, handlePaddingNegotiate, if_neg hfound]
      rfl
    rw [heq]
    exact hset

theorem deliverUp_inv (hinv : Inv w) (hperm : Permitted specs w (.deliverUp h)) :
    Inv (deliverUp specs w h) := by
  cases hqueue : w.up h with
  | nil =>
    have heq : deliverUp specs w h = w := by simp only [deliverUp, hqueue]
    rw [heq]
    exact hinv
  | cons p rest =>
    obtain ⟨i, command, n, c⟩ := p
    cases command with
    | start => exact deliverUp_start_inv hinv hperm hqueue
    | stop => exact deliverUp_stop_inv hinv hqueue

theorem expectedHop_of_waits {circ : Circuit} {i : Fin 2} (hwaits : Waits circ i h) :
    paddingIsFromExpectedHop circ h = true := by
  obtain ⟨m, hm, hhop⟩ := hwaits
  rw [paddingIsFromExpectedHop, Bool.or_eq_true_iff]
  fin_cases i
  · left
    simp only [Fin.zero_eta] at hm
    simp [hm, hhop]
  · right
    simp only [Fin.mk_one] at hm
    simp [hm, hhop]

theorem Inv.expectedHop (hinv : Inv w) {p : ℕ × Cell} (hp : p ∈ w.down h) :
    paddingIsFromExpectedHop w.client h = true := by
  obtain ⟨_, _, _, _, hwaits, _⟩ := (hinv.down h).inst p hp
  exact expectedHop_of_waits hwaits

theorem matchesSlot_client (hinv : Inv w) (hperm : Permitted specs w (.deliverDown h)) {d n c : ℕ}
    {ok : Bool} {rest : List (ℕ × Cell)}
    (hqueue : w.down h = (d, .negotiated .stop ok n c) :: rest) {i : Fin 2}
    (hmatch : matchesSlot w.client n c i = true) :
    w.latest i = c ∧ ∃ m, w.client.paddingMachine i = some m := by
  have hmem : (d, Cell.negotiated .stop ok n c) ∈ w.down h := hqueue ▸ List.mem_cons_self
  obtain ⟨m₀, hinst₀, _, _, _, _, _, hcd⟩ := (hinv.down h).inst _ hmem
  replace hcd : c = d := hcd
  have hone : 1 ≤ c := hcd ▸ (hinv.client.inst d m₀ hinst₀).1
  rw [matchesSlot] at hmatch
  cases hm : w.client.paddingMachine i with
  | none => simp [hm] at hmatch
  | some m =>
    refine ⟨?_, m, rfl⟩
    rw [hm] at hmatch
    obtain ⟨hnum, hctr⟩ := Bool.and_eq_true_iff.mp hmatch
    cases hinfo : w.client.paddingInfo i with
    | none => exact hperm d ok n c rest hqueue i m hm (of_decide_eq_true hnum) hinfo
    | some e =>
      rw [hinfo] at hctr
      have hec : c = 0 ∨ e = c := by simpa using hctr
      rw [← (hinv.client.info i e hinfo).1]
      exact hec.resolve_left (by omega)

theorem deliverDown_inv (hinv : Inv w) (hperm : Permitted specs w (.deliverDown h)) :
    Inv (deliverDown w h) := by
  cases hqueue : w.down h with
  | nil =>
    have heq : deliverDown w h = w := by simp only [deliverDown, hqueue]
    rw [heq]
    exact hinv
  | cons p rest =>
    obtain ⟨d, cell⟩ := p
    have hmem : (d, cell) ∈ w.down h := hqueue ▸ List.mem_cons_self
    obtain ⟨m, hinst, _, _, _, hok⟩ := (hinv.down h).inst _ hmem
    have hpop := setDown_inv hinv hqueue
    have heq : deliverDown w h = handlePaddingNegotiated (setDown w h rest) h cell := by
      simp only [deliverDown, hqueue]
      rfl
    have hhop : (!paddingIsFromExpectedHop (setDown w h rest).client h) = false := by
      rw [Bool.not_eq_false']
      exact hinv.expectedHop hmem
    rw [heq]
    cases cell with
    | drop =>
      rw [handlePaddingNegotiated, hhop]
      · exact hpop
      all_goals nofun
    | negotiated command ok n c =>
      cases command with
      | start =>
        obtain rfl : ok = true := hok.1
        rw [handlePaddingNegotiated, hhop]
        · exact hpop
        all_goals nofun
      | stop =>
        obtain rfl : c = d := hok.2.2
        rw [handlePaddingNegotiated, hhop]
        show Inv (setClient (setDown w h rest) (freeWithMachineNum w.client n c).2)
        refine setClient_frees_inv hpop (freeWithMachineNum_frees _ n c) fun i hne => ?_
        have hmatch : matchesSlot w.client n c i = true := by
          by_contra hmatch
          exact hne (if_neg hmatch)
        obtain ⟨hlatest, m', hm'⟩ := matchesSlot_client hinv hperm hqueue hmatch
        obtain ⟨hinst', hidx⟩ := hinv.client.machine i m' hm'
        rw [hlatest] at hinst'
        obtain rfl := Option.some.inj (hinst.symm.trans hinst')
        rw [← hidx]
        exact hinv.idle hqueue trivial hinst (by rw [hidx]; exact hlatest)

/-! ### Agreement -/

theorem initialWorld_inv : Inv initialWorld where
  client := ⟨by decide, fun _ _ h => (nomatch h), fun _ _ h => (nomatch h),
    fun _ _ h => (nomatch h)⟩
  up _ := ⟨fun _ h => (nomatch h), trivial, List.Pairwise.nil, fun _ h => (nomatch h)⟩
  relay _ := ⟨le_refl _, fun _ _ h => (nomatch h), fun _ _ h => (nomatch h),
    fun _ _ _ h => (nomatch h), fun _ _ _ h => (nomatch h)⟩
  down _ := ⟨fun _ h => (nomatch h), fun _ h => (nomatch h), List.Pairwise.nil⟩

theorem perform_inv (hinv : Inv w) {a : Action} (hperm : Permitted specs w a) :
    Inv (perform specs w a) := by
  cases a with
  | shutdownOldMachines apply keep => exact shutdownOldMachines_inv apply keep hinv
  | addMatchingMachines apply => exact addMatchingMachines_inv apply hinv hperm
  | clientEnd i => exact clientEnd_inv hinv i
  | relayEnd h j => exact relayEnd_inv hinv h j
  | relayPads h j => exact relayPads_inv hinv h j
  | deliverUp h => exact deliverUp_inv hinv hperm
  | deliverDown h => exact deliverDown_inv hinv hperm

theorem reached_inv (h : Reached (system specs) (Permitted specs) w) : Inv w := by
  refine h.invariant ⟨?_, ?_⟩
  · rintro _ rfl
    exact initialWorld_inv
  · rintro w a _ hinv hperm rfl
    exact perform_inv hinv hperm

def SlotKept (circ circ' : Circuit) (i : Fin 2) : Prop :=
  circ'.paddingMachine i = circ.paddingMachine i ∧ circ'.paddingInfo i = circ.paddingInfo i

def KeepsOthers (specs : Specs) (w : World) : Action → Prop
  | .deliverUp h => ∀ i n c rest, w.up h = (i, ⟨.stop, n, c⟩) :: rest →
      ∀ j d, (w.relays h).paddingInfo j = some d → d ≠ c →
        SlotKept (w.relays h) ((perform specs w (.deliverUp h)).relays h) j
  | .deliverDown h => ∀ d ok n c rest, w.down h = (d, .negotiated .stop ok n c) :: rest →
      ∀ i, w.latest i ≠ c → SlotKept w.client (perform specs w (.deliverDown h)).client i
  | _ => True

def AnswersSetUp (specs : Specs) (w : World) : Action → Prop
  | .deliverUp h => ∀ i n c rest, w.up h = (i, ⟨.start, n, c⟩) :: rest →
      (perform specs w (.deliverUp h)).down h =
        w.down h ++ [(c, .negotiated .start true n c)] →
      ∃ r, r.machineNum = n ∧ (w.relays h).paddingMachine r.machineIndex = none ∧
        ((perform specs w (.deliverUp h)).relays h).paddingMachine r.machineIndex = some r ∧
        ((perform specs w (.deliverUp h)).relays h).paddingInfo r.machineIndex = some c
  | _ => True

/-- The client accepts what is on its way from a relay, and a relay for which no cell is on its way
holds only instances that the client holds. -/
structure Agrees (w : World) : Prop where
  expectedHop : ∀ h, w.down h ≠ [] → paddingIsFromExpectedHop w.client h = true
  held : ∀ h, w.up h = [] → ∀ j r, (w.relays h).paddingMachine j = some r →
    ∃ m c, w.client.paddingMachine m.machineIndex = some m ∧ m.machineNum = r.machineNum ∧
      m.targetHopnum = h ∧ w.client.paddingInfo m.machineIndex = some c ∧
      (w.relays h).paddingInfo j = some c

theorem Inv.agrees (hinv : Inv w) : Agrees w := by
  refine ⟨fun h hne => ?_, fun h hrest j r hr => ?_⟩
  · obtain ⟨p, hp⟩ := List.exists_mem_of_ne_nil _ hne
    exact hinv.expectedHop hp
  · obtain ⟨c, hheld⟩ := Option.isSome_iff_exists.mp ((hinv.relay h).machine j r hr)
    obtain ⟨r', m, hr', hinst, hhop, hnum, _, _, hsettled⟩ := (hinv.relay h).held j c hheld
    obtain rfl := Option.some.inj (hr.symm.trans hr')
    rw [hrest] at hsettled
    -- With no stop to come, the client has the instance.
    have hinfo : w.client.paddingInfo m.machineIndex = some c :=
      hsettled.elim And.left False.elim
    obtain ⟨hlatest, hsome⟩ := hinv.client.info _ c hinfo
    obtain ⟨m', hm'⟩ := Option.isSome_iff_exists.mp hsome
    have hinst' := (hinv.client.machine _ m' hm').1
    rw [← hlatest] at hinst'
    obtain rfl := Option.some.inj (hinst.symm.trans hinst')
    exact ⟨m, c, hm', hnum, hhop, hinfo, hheld⟩

theorem freeWithMachineNum_keeps {circ : Circuit} {n c : ℕ} {i : Fin 2}
    (h : ¬ matchesSlot circ n c i = true) : SlotKept circ (freeWithMachineNum circ n c).2 i :=
  ⟨if_neg h, if_neg h⟩

theorem deliverUp_stop_relays {i : Fin 2} {n c : ℕ} {rest : List (Fin 2 × Negotiate)}
    (hqueue : w.up h = (i, ⟨.stop, n, c⟩) :: rest) :
    (deliverUp specs w h).relays h = (freeWithMachineNum (w.relays h) n c).2 := by
  simp only [deliverUp, hqueue, handlePaddingNegotiate]
  split <;> exact Function.update_self _ _ _

theorem deliverDown_stop_client (hinv : Inv w) {d n c : ℕ} {ok : Bool} {rest : List (ℕ × Cell)}
    (hqueue : w.down h = (d, .negotiated .stop ok n c) :: rest) :
    (deliverDown w h).client = (freeWithMachineNum w.client n c).2 := by
  have hhop := hinv.expectedHop (hqueue ▸ List.mem_cons_self : (d, _) ∈ w.down h)
  simp only [deliverDown, hqueue, handlePaddingNegotiated, hhop]
  rfl

theorem Inv.keepsOthers (hinv : Inv w) {a : Action} (hperm : Permitted specs w a) :
    KeepsOthers specs w a := by
  cases a with
  | deliverUp h =>
    intro i n c rest hqueue j d hheld hne
    show SlotKept _ ((deliverUp specs w h).relays h) j
    rw [deliverUp_stop_relays hqueue]
    refine freeWithMachineNum_keeps fun hmatch => hne ?_
    have hheld' := (matchesSlot_relay hinv hqueue j).mp hmatch
    exact Option.some.inj (hheld.symm.trans hheld')
  | deliverDown h =>
    intro d ok n c rest hqueue i hlatest
    show SlotKept _ (deliverDown w h).client i
    rw [deliverDown_stop_client hinv hqueue]
    exact freeWithMachineNum_keeps fun hmatch =>
      hlatest (matchesSlot_client hinv hperm hqueue hmatch).1
  | _ => trivial

theorem Inv.answersSetUp (hinv : Inv w) {a : Action} (hperm : Permitted specs w a) :
    AnswersSetUp specs w a := by
  cases a with
  | deliverUp h =>
    intro i n c rest hqueue _
    obtain ⟨r, hnum, hmachine, _, heq⟩ := deliverUp_start hinv hperm hqueue
    have hrelay : (deliverUp specs w h).relays h = occupy (w.relays h) r c := by
      rw [heq]
      exact Function.update_self _ _ _
    refine ⟨r, hnum, hmachine, ?_⟩
    show ((deliverUp specs w h).relays h).paddingMachine r.machineIndex = some r ∧
      ((deliverUp specs w h).relays h).paddingInfo r.machineIndex = some c
    rw [hrelay]
    exact ⟨Function.update_self _ _ _, Function.update_self _ _ _⟩
  | _ => trivial

def originMachine (machineNum : ℕ) (machineIndex : Fin 2) (targetHopnum : ℕ) : MachineSpec :=
  ⟨machineNum, machineIndex, targetHopnum, true, true⟩

def relayMachine (machineNum : ℕ) (machineIndex : Fin 2) : MachineSpec :=
  ⟨machineNum, machineIndex, 0, true, false⟩

def originMachines (hop : ℕ) : List MachineSpec :=
  [originMachine 1 ⟨0, Nat.zero_lt_two⟩ 1, originMachine 2 ⟨1, Nat.one_lt_two⟩ hop]

def relayMachines : List MachineSpec :=
  [relayMachine 1 ⟨0, Nat.zero_lt_two⟩, relayMachine 2 ⟨1, Nat.one_lt_two⟩]

theorem originMachines_side (hop : ℕ) : ∀ m ∈ originMachines hop, m.isOriginSide = true := by
  simp [originMachines, originMachine]

theorem relayMachines_side : ∀ m ∈ relayMachines, m.isOriginSide = false := by decide

def twoMachines (hop : ℕ) : Specs where
  originPaddingMachines := originMachines hop
  relayPaddingMachines := relayMachines
  originSide := originMachines_side hop
  relaySide := relayMachines_side

def bothStarted (hop : ℕ) : World :=
  perform (twoMachines hop) initialWorld (.addMatchingMachines fun _ => true)

theorem Reached.performs (actions : List Action) {w : World}
    (h : Reached (system specs) (fun _ _ => True) w) :
    Reached (system specs) (fun _ _ => True) (actions.foldl (perform specs) w) := by
  induction actions generalizing w with
  | nil => exact h
  | cons a actions ih => exact ih (h.step (a := a) trivial rfl)

def bothAnswered : World :=
  [Action.addMatchingMachines fun _ => true, .deliverUp 1, .deliverUp 2, .deliverDown 1,
    .deliverDown 2].foldl (perform (twoMachines 2)) initialWorld

end PaddingNegotiation
