/-
What the steps of padding negotiation keep.

One lemma for each thing that a step does to the world: the client stops or starts the machine of a
slot, a relay sends a cell, gives up machines or sets one up, and a cell leaves its queue.
-/
import LibEltor.PaddingNegotiation

open Transition

namespace PaddingNegotiation

variable {w : World} {i : Fin 2} {c : ℕ} {m : MachineSpec}

theorem stop_ne_start : Command.stop ≠ Command.start := by decide

theorem Settled.stopped {client : Circuit} (hinfo : client.paddingInfo i = some c) {i₀ : Fin 2}
    {c₀ : ℕ} {l : List (Fin 2 × Negotiate)} (h : Settled client i₀ c₀ l) (n : ℕ) :
    Settled { client with paddingInfo := Function.update client.paddingInfo i none } i₀ c₀
      (l ++ [(i, ⟨.stop, n, c⟩)]) := by
  rcases h with ⟨hinfo₀, hl⟩ | hstop
  · by_cases hi : i₀ = i
    · subst hi
      obtain rfl := Option.some.inj (hinfo.symm.trans hinfo₀)
      exact .inr (stopFirst_concat hl rfl rfl)
    · refine .inl ⟨?_, fun p hp => ?_⟩
      · rw [← hinfo₀]
        exact Function.update_of_ne hi _ _
      · rcases List.mem_append.mp hp with hp | hp
        · exact hl p hp
        · obtain rfl := List.mem_singleton.mp hp
          exact fun hstart => hi hstart.1.symm
  · exact .inr (hstop.append _)

theorem Settled.stoppedElsewhere {client : Circuit} {i₀ : Fin 2} {c₀ : ℕ}
    {l : List (Fin 2 × Negotiate)} (h : Settled client i₀ c₀ l)
    (hne : i₀ = i → client.paddingInfo i ≠ some c₀) :
    Settled { client with paddingInfo := Function.update client.paddingInfo i none } i₀ c₀ l := by
  rcases h with ⟨hinfo₀, hl⟩ | hstop
  · refine .inl ⟨?_, hl⟩
    have hi : i₀ ≠ i := by
      rintro rfl
      exact hne rfl hinfo₀
    rw [← hinfo₀]
    exact Function.update_of_ne hi _ _
  · exact .inr hstop

theorem stopSlot_inv (h : Inv w) (hinfo : w.client.paddingInfo i = some c)
    (hm : w.client.paddingMachine i = some m) : Inv (stopSlot w i m c) := by
  obtain ⟨rfl, _⟩ := h.client.info i c hinfo
  obtain ⟨hinst, hidx⟩ := h.client.machine i m hm
  -- An instance in this slot that the client has is the one for this hop.
  have hhop : ∀ i₀ c₀ hop m₀, w.insts c₀ = some m₀ → m₀.targetHopnum = hop → i₀ = i →
      w.client.paddingInfo i = some c₀ → hop = m.targetHopnum := by
    rintro _ c₀ hop m₀ hinst₀ hhop₀ rfl hinfo₀
    obtain rfl := Option.some.inj (hinfo.symm.trans hinfo₀)
    obtain rfl := Option.some.inj (hinst.symm.trans hinst₀)
    exact hhop₀.symm
  refine ⟨⟨h.client.ctr_lt, h.client.inst, h.client.machine, fun i₀ c₀ hinfo₀ => ?_⟩,
    fun hop => ?_, fun hop => ?_, fun hop => ?_⟩
  · by_cases hi : i₀ = i
    · have hnone : Function.update w.client.paddingInfo i none i₀ = some c₀ := hinfo₀
      rw [hi, Function.update_self] at hnone
      cases hnone
    · exact h.client.info i₀ c₀ ((Function.update_of_ne hi _ _).symm.trans hinfo₀)
  · by_cases hop₀ : hop = m.targetHopnum
    · subst hop₀
      have hup := h.up m.targetHopnum
      have hqueue : (stopSlot w i m (w.latest i)).up m.targetHopnum =
          w.up m.targetHopnum ++ [(i, ⟨.stop, m.machineNum, w.latest i⟩)] :=
        Function.update_self _ _ _
      refine ⟨?_, ?_, ?_, ?_⟩
      · rw [hqueue]
        intro p hp
        rcases List.mem_append.mp hp with hp | hp
        · exact hup.inst p hp
        · obtain rfl := List.mem_singleton.mp hp
          exact ⟨m, hinst, rfl, rfl, hidx⟩
      · rw [hqueue]
        exact hup.covered.concat (fun q _ _ l hl => hl.stopped hinfo m.machineNum)
          (fun hstart => absurd hstart stop_ne_start)
      · rw [hqueue]
        refine List.pairwise_append.mpr ⟨hup.sorted, List.pairwise_singleton _ _, ?_⟩
        intro p _ q hq _ hstart
        obtain rfl := List.mem_singleton.mp hq
        exact absurd hstart stop_ne_start
      · rw [hqueue]
        intro p hp hstart
        rcases List.mem_append.mp hp with hp | hp
        · exact hup.later p hp hstart
        · obtain rfl := List.mem_singleton.mp hp
          exact absurd hstart stop_ne_start
    · have hup := h.up hop
      have hqueue : (stopSlot w i m (w.latest i)).up hop = w.up hop :=
        Function.update_of_ne hop₀ _ _
      refine ⟨?_, ?_, ?_, ?_⟩
      · rw [hqueue]
        exact hup.inst
      · rw [hqueue]
        refine hup.covered.mono fun q hq _ l hl => hl.stoppedElsewhere fun hi hinfo₀ => hop₀ ?_
        obtain ⟨m₀, hinst₀, hhop₀, _⟩ := hup.inst q hq
        exact hhop q.1 _ hop m₀ hinst₀ hhop₀ hi hinfo₀
      · rw [hqueue]
        exact hup.sorted
      · rw [hqueue]
        exact hup.later
  · have hrelay := h.relay hop
    refine ⟨hrelay.ctr_le, hrelay.machine, fun j c₀ hheld => ?_, hrelay.inj, hrelay.last⟩
    obtain ⟨r, m₀, hr, hinst₀, hhop₀, hnum, hle, hwaits, hsettled⟩ := hrelay.held j c₀ hheld
    refine ⟨r, m₀, hr, hinst₀, hhop₀, hnum, hle, hwaits, ?_⟩
    by_cases hop₀ : hop = m.targetHopnum
    · subst hop₀
      show Settled _ _ _ (Function.update w.up m.targetHopnum _ m.targetHopnum)
      rw [Function.update_self]
      exact hsettled.stopped hinfo m.machineNum
    · show Settled _ _ _ (Function.update w.up m.targetHopnum _ hop)
      rw [Function.update_of_ne hop₀]
      exact hsettled.stoppedElsewhere fun hi hinfo₀ =>
        hop₀ (hhop _ _ hop m₀ hinst₀ hhop₀ hi hinfo₀)
  · have hdown := h.down hop
    exact ⟨hdown.inst, hdown.stopped, hdown.after⟩

theorem shutdownSlot_inv (conditionsApply conditionsKeep : MachineSpec → Bool) (h : Inv w)
    (i : Fin 2) : Inv (shutdownSlot conditionsApply conditionsKeep w i) := by
  rw [shutdownSlot]
  split
  · split_ifs
    · exact stopSlot_inv h ‹_› ‹_›
    · exact h
  · exact h

theorem clientEnd_inv (h : Inv w) (i : Fin 2) : Inv (clientEnd w i) := by
  rw [clientEnd]
  split
  · split_ifs
    · exact stopSlot_inv h ‹_› ‹_›
    · exact h
  · exact h

/-! ### The client starts a machine -/

def occupy (circ : Circuit) (r : MachineSpec) (c : ℕ) : Circuit :=
  ⟨Function.update circ.paddingMachine r.machineIndex (some r),
    Function.update circ.paddingInfo r.machineIndex (some c), c⟩

theorem setupMachineOnCirc_free {isOrigin : Bool} {circ : Circuit}
    (hside : isOrigin = m.isOriginSide)
    (hmachine : circ.paddingMachine m.machineIndex = none)
    (hinfo : circ.paddingInfo m.machineIndex = none) (hctr : circ.paddingMachineCtr + 1 < 2 ^ 32) :
    setupMachineOnCirc isOrigin circ m = occupy circ m (circ.paddingMachineCtr + 1) := by
  have hmod : (circ.paddingMachineCtr + 1) % 2 ^ 32 = circ.paddingMachineCtr + 1 :=
    Nat.mod_eq_of_lt hctr
  rw [setupMachineOnCirc, if_neg (not_not.mpr hside), hmachine, hinfo, hmod,
    Option.isSome_none, if_neg Bool.false_ne_true, Option.isSome_none, if_neg Bool.false_ne_true]
  exact congrArg (occupy circ m) (if_neg (Nat.succ_ne_zero _))

theorem Settled.started {client client' : Circuit} (hinfo : client.paddingInfo i = none)
    (hsame : ∀ i₀, i₀ ≠ i → client'.paddingInfo i₀ = client.paddingInfo i₀) {i₀ : Fin 2} {c₀ : ℕ}
    {l : List (Fin 2 × Negotiate)} (h : Settled client i₀ c₀ l) (cell : Negotiate) :
    Settled client' i₀ c₀ l ∧ Settled client' i₀ c₀ (l ++ [(i, cell)]) := by
  rcases h with ⟨hinfo₀, hl⟩ | hstop
  · have hi : i₀ ≠ i := by
      rintro rfl
      rw [hinfo] at hinfo₀
      cases hinfo₀
    have hinfo' : client'.paddingInfo i₀ = some c₀ := (hsame i₀ hi).trans hinfo₀
    refine ⟨.inl ⟨hinfo', hl⟩, .inl ⟨hinfo', fun p hp => ?_⟩⟩
    rcases List.mem_append.mp hp with hp | hp
    · exact hl p hp
    · obtain rfl := List.mem_singleton.mp hp
      exact fun hstart => hi hstart.1.symm
  · exact ⟨.inr hstop, .inr (hstop.append _)⟩

theorem startSlot_eq (hside : m.isOriginSide = true)
    (hinfo : w.client.paddingInfo m.machineIndex = none)
    (hctr : w.client.paddingMachineCtr + 1 < 2 ^ 32) :
    startSlot w m.machineIndex m =
      sendUp { w with
          client := occupy w.client m (w.client.paddingMachineCtr + 1)
          insts := Function.update w.insts (w.client.paddingMachineCtr + 1) (some m)
          latest := Function.update w.latest m.machineIndex (w.client.paddingMachineCtr + 1) }
        m.targetHopnum m.machineIndex ⟨.start, m.machineNum, w.client.paddingMachineCtr + 1⟩ := by
  have hfree := @setupMachineOnCirc_free m true
    ⟨Function.update w.client.paddingMachine m.machineIndex none, w.client.paddingInfo,
      w.client.paddingMachineCtr⟩ hside.symm (by exact Function.update_self _ _ _) hinfo hctr
  simp only [occupy, Function.update_idem] at hfree
  simp only [startSlot, hfree, occupy]

theorem startSlot_inv (h : Inv w) (hside : m.isOriginSide = true) (hidx : m.machineIndex = i)
    (hinfo : w.client.paddingInfo i = none)
    (hold : ∀ old, w.client.paddingMachine i = some old → old.targetHopnum = m.targetHopnum)
    (hctr : w.client.paddingMachineCtr + 1 < 2 ^ 32) : Inv (startSlot w i m) := by
  subst hidx
  generalize hn : w.client.paddingMachineCtr = n at hctr
  -- Instances that are known have a smaller counter.
  have hfresh : ∀ d m₀, w.insts d = some m₀ → d ≠ n + 1 := by
    intro d m₀ hd
    have := h.client.inst d m₀ hd
    omega
  have hinsts : ∀ d m₀, w.insts d = some m₀ →
      Function.update w.insts (n + 1) (some m) d = some m₀ := by
    intro d m₀ hd
    rw [Function.update_of_ne (hfresh d m₀ hd)]
    exact hd
  have hback : ∀ d m₀, d ≤ n → Function.update w.insts (n + 1) (some m) d = some m₀ →
      w.insts d = some m₀ := by
    intro d m₀ hle hd
    rwa [Function.update_of_ne (by omega)] at hd
  have hwaits : ∀ i₀ hop, Waits w.client i₀ hop →
      Waits (occupy w.client m (n + 1)) i₀ hop := by
    rintro i₀ hop ⟨m₀, hm₀, hhop⟩
    by_cases hi : i₀ = m.machineIndex
    · subst hi
      exact ⟨m, Function.update_self _ _ _, (hold m₀ hm₀).symm.trans hhop⟩
    · exact ⟨m₀, (Function.update_of_ne hi _ _).trans hm₀, hhop⟩
  have hslot : ∀ c d, c ≤ n → d ≤ n → SameSlot (Function.update w.insts (n + 1) (some m)) c d →
      SameSlot w.insts c d := by
    rintro c d hc hd ⟨m₁, m₂, h₁, h₂, heq⟩
    exact ⟨m₁, m₂, hback c m₁ hc h₁, hback d m₂ hd h₂, heq⟩
  have hothers : ∀ i₀, i₀ ≠ m.machineIndex →
      Function.update w.client.paddingInfo m.machineIndex (some (n + 1)) i₀ =
        w.client.paddingInfo i₀ := fun i₀ hi => Function.update_of_ne hi _ _
  rw [startSlot_eq hside hinfo (hn ▸ hctr), hn]
  refine ⟨⟨hctr, fun d m₀ hd => ?_, fun i₀ m₀ hm₀ => ?_, fun i₀ c₀ hinfo₀ => ?_⟩,
    fun hop => ?_, fun hop => ?_, fun hop => ?_⟩
  · show 1 ≤ d ∧ d ≤ n + 1 ∧ d ≤ Function.update w.latest m.machineIndex (n + 1) m₀.machineIndex
    replace hd : Function.update w.insts (n + 1) (some m) d = some m₀ := hd
    by_cases hdn : d = n + 1
    · rw [hdn, Function.update_self] at hd
      obtain rfl := Option.some.inj hd
      rw [Function.update_self]
      omega
    · have hd' : w.insts d = some m₀ := (Function.update_of_ne hdn _ _).symm.trans hd
      obtain ⟨hone, hle, hlatest⟩ := h.client.inst d m₀ hd'
      refine ⟨hone, by omega, ?_⟩
      by_cases hi : m₀.machineIndex = m.machineIndex
      · rw [hi, Function.update_self]
        omega
      · rw [Function.update_of_ne hi]
        exact hlatest
  · show Function.update w.insts (n + 1) (some m)
      (Function.update w.latest m.machineIndex (n + 1) i₀) = some m₀ ∧ m₀.machineIndex = i₀
    replace hm₀ : Function.update w.client.paddingMachine m.machineIndex (some m) i₀ =
      some m₀ := hm₀
    by_cases hi : i₀ = m.machineIndex
    · rw [hi, Function.update_self] at hm₀
      obtain rfl := Option.some.inj hm₀
      rw [hi, Function.update_self, Function.update_self]
      exact ⟨rfl, rfl⟩
    · obtain ⟨hinst₀, hidx₀⟩ :=
        h.client.machine i₀ m₀ ((Function.update_of_ne hi _ _).symm.trans hm₀)
      rw [Function.update_of_ne hi]
      exact ⟨hinsts _ _ hinst₀, hidx₀⟩
  · show c₀ = Function.update w.latest m.machineIndex (n + 1) i₀ ∧
      (Function.update w.client.paddingMachine m.machineIndex (some m) i₀).isSome
    replace hinfo₀ : Function.update w.client.paddingInfo m.machineIndex (some (n + 1)) i₀ =
      some c₀ := hinfo₀
    by_cases hi : i₀ = m.machineIndex
    · rw [hi, Function.update_self] at hinfo₀
      obtain rfl := Option.some.inj hinfo₀
      rw [hi, Function.update_self, Function.update_self]
      exact ⟨rfl, rfl⟩
    · rw [Function.update_of_ne hi, Function.update_of_ne hi]
      exact h.client.info i₀ c₀ ((hothers i₀ hi).symm.trans hinfo₀)
  · have hup := h.up hop
    have hrelay := (h.relay hop).ctr_le
    by_cases hop₀ : hop = m.targetHopnum
    · subst hop₀
      refine ⟨?_, ?_, ?_, ?_⟩
      · show ∀ p ∈ Function.update w.up m.targetHopnum _ m.targetHopnum, _
        rw [Function.update_self]
        intro p hp
        rcases List.mem_append.mp hp with hp | hp
        · obtain ⟨m₀, hinst₀, hrest⟩ := hup.inst p hp
          exact ⟨m₀, hinsts _ _ hinst₀, hrest⟩
        · obtain rfl := List.mem_singleton.mp hp
          exact ⟨m, Function.update_self _ _ _, rfl, rfl, rfl⟩
      · show Covered _ (Function.update w.up m.targetHopnum _ m.targetHopnum)
        rw [Function.update_self]
        exact hup.covered.concat (fun q _ _ l hl => (hl.started hinfo hothers _).2)
          (fun _ => Function.update_self _ _ _)
      · show List.Pairwise _ (Function.update w.up m.targetHopnum _ m.targetHopnum)
        rw [Function.update_self]
        refine List.pairwise_append.mpr ⟨hup.sorted, List.pairwise_singleton _ _, ?_⟩
        intro p hp q hq _ _
        obtain rfl := List.mem_singleton.mp hq
        obtain ⟨m₀, hinst₀, _⟩ := hup.inst p hp
        have := h.client.inst _ _ hinst₀
        show p.2.machineCtr < n + 1
        omega
      · show ∀ p ∈ Function.update w.up m.targetHopnum _ m.targetHopnum, _
        rw [Function.update_self]
        intro p hp hstart
        rcases List.mem_append.mp hp with hp | hp
        · obtain ⟨hlt, hwait⟩ := hup.later p hp hstart
          exact ⟨hlt, hwaits _ _ hwait⟩
        · obtain rfl := List.mem_singleton.mp hp
          refine ⟨?_, m, Function.update_self _ _ _, rfl⟩
          show (w.relays m.targetHopnum).paddingMachineCtr < n + 1
          omega
    · refine ⟨?_, ?_, ?_, ?_⟩
      · show ∀ p ∈ Function.update w.up m.targetHopnum _ hop, _
        rw [Function.update_of_ne hop₀]
        intro p hp
        obtain ⟨m₀, hinst₀, hrest⟩ := hup.inst p hp
        exact ⟨m₀, hinsts _ _ hinst₀, hrest⟩
      · show Covered _ (Function.update w.up m.targetHopnum _ hop)
        rw [Function.update_of_ne hop₀]
        exact hup.covered.mono fun q _ _ l hl =>
          (hl.started hinfo hothers ⟨.start, 0, 0⟩).1
      · show List.Pairwise _ (Function.update w.up m.targetHopnum _ hop)
        rw [Function.update_of_ne hop₀]
        exact hup.sorted
      · show ∀ p ∈ Function.update w.up m.targetHopnum _ hop, _
        rw [Function.update_of_ne hop₀]
        intro p hp hstart
        obtain ⟨hlt, hwait⟩ := hup.later p hp hstart
        exact ⟨hlt, hwaits _ _ hwait⟩
  · have hrelay := h.relay hop
    have hle := hrelay.ctr_le
    refine ⟨hle.trans (by rw [hn]; exact Nat.le_succ n), hrelay.machine, fun j c₀ hheld => ?_,
      hrelay.inj, fun j c₀ d hheld hsame hhop hd => ?_⟩
    · obtain ⟨r, m₀, hr, hinst₀, hhop₀, hnum, hc₀, hwait, hsettled⟩ := hrelay.held j c₀ hheld
      refine ⟨r, m₀, hr, hinsts _ _ hinst₀, hhop₀, hnum, hc₀, hwaits _ _ hwait, ?_⟩
      have hboth := @Settled.started m.machineIndex w.client (occupy w.client m (n + 1))
        hinfo hothers _ _ _ hsettled ⟨.start, m.machineNum, n + 1⟩
      by_cases hop₀ : hop = m.targetHopnum
      · subst hop₀
        show Settled _ _ _ (Function.update w.up m.targetHopnum _ m.targetHopnum)
        rw [Function.update_self]
        exact hboth.2
      · show Settled _ _ _ (Function.update w.up m.targetHopnum _ hop)
        rw [Function.update_of_ne hop₀]
        exact hboth.1
    · obtain ⟨_, _, _, _, _, _, hc₀, _⟩ := hrelay.held j c₀ hheld
      have hdn : d ≤ n := (le_of_le_of_eq (hd.trans hle) hn)
      exact hrelay.last j c₀ d hheld (hslot c₀ d (by omega) hdn hsame)
        (fun m₀ hd₀ => hhop m₀ (hinsts d m₀ hd₀)) hd
  · have hdown := h.down hop
    have hle := (h.relay hop).ctr_le
    refine ⟨fun p hp => ?_, hdown.stopped, ?_⟩
    · obtain ⟨m₀, hinst₀, hhop₀, hc₀, hwait, hcell⟩ := hdown.inst p hp
      exact ⟨m₀, hinsts _ _ hinst₀, hhop₀, hc₀, hwaits _ _ hwait, hcell⟩
    · refine hdown.after.imp_of_mem fun {p q} hp hq hlt hstop hsame => hlt hstop ?_
      obtain ⟨_, _, _, hp₀, _⟩ := hdown.inst p hp
      obtain ⟨_, _, _, hq₀, _⟩ := hdown.inst q hq
      exact hslot _ _ (by omega) (by omega) hsame

theorem findMachine_some {machines : List MachineSpec} {conditionsApply : MachineSpec → Bool}
    {circ : Circuit} (h : findMachine machines conditionsApply circ i = some m) :
    m ∈ machines ∧ m.machineIndex = i ∧
      ∀ old, circ.paddingMachine i = some old → old.targetHopnum = m.targetHopnum := by
  rw [findMachine] at h
  have hmem := List.mem_reverse.mp (List.mem_of_find?_eq_some h)
  have hprop := List.find?_some h
  simp only [Bool.and_eq_true, decide_eq_true_eq] at hprop
  obtain ⟨⟨hidx, _⟩, hold⟩ := hprop
  refine ⟨hmem, hidx, fun old hmachine => ?_⟩
  rw [hmachine] at hold
  exact of_decide_eq_true hold

theorem startSlot_ctr (hside : m.isOriginSide = true) (hidx : m.machineIndex = i)
    (hinfo : w.client.paddingInfo i = none) (hctr : w.client.paddingMachineCtr + 1 < 2 ^ 32) :
    (startSlot w i m).client.paddingMachineCtr = w.client.paddingMachineCtr + 1 := by
  subst hidx
  rw [startSlot_eq hside hinfo hctr]
  rfl

theorem addSlot_inv {specs : Specs} (conditionsApply : MachineSpec → Bool) (h : Inv w) (i : Fin 2)
    (hctr : w.client.paddingMachineCtr + 1 < 2 ^ 32) :
    Inv (addSlot specs conditionsApply w i) ∧
      (addSlot specs conditionsApply w i).client.paddingMachineCtr ≤
        w.client.paddingMachineCtr + 1 := by
  rw [addSlot]
  split_ifs with hinfo
  · exact ⟨h, Nat.le_succ _⟩
  · replace hinfo := Option.not_isSome_iff_eq_none.mp hinfo
    split
    · exact ⟨h, Nat.le_succ _⟩
    · rename_i m hfind
      obtain ⟨hmem, hidx, hold⟩ := findMachine_some hfind
      have hside := specs.originSide m hmem
      exact ⟨startSlot_inv h hside hidx hinfo hold hctr, (startSlot_ctr hside hidx hinfo hctr).le⟩

theorem addMatchingMachines_inv {specs : Specs} (conditionsApply : MachineSpec → Bool) (h : Inv w)
    (hctr : w.client.paddingMachineCtr + 2 < 2 ^ 32) :
    Inv (addMatchingMachines specs conditionsApply w) := by
  rw [addMatchingMachines]
  split_ifs
  · exact h
  · obtain ⟨hzero, hle⟩ := @addSlot_inv w specs conditionsApply h 0 (by omega)
    exact (addSlot_inv conditionsApply hzero 1 (by omega)).1

theorem shutdownOldMachines_inv (conditionsApply conditionsKeep : MachineSpec → Bool) (h : Inv w) :
    Inv (shutdownOldMachines conditionsApply conditionsKeep w) :=
  shutdownSlot_inv _ _ (shutdownSlot_inv _ _ h 0) 1

theorem UpInv.congr {w' : World} {h : ℕ} (hinv : UpInv w h) (hclient : w'.client = w.client)
    (hinsts : w'.insts = w.insts) (hup : w'.up h = w.up h) (hrelay : w'.relays h = w.relays h) :
    UpInv w' h := by
  refine ⟨?_, ?_, ?_, ?_⟩ <;> rw [hup]
  · rw [hinsts]
    exact hinv.inst
  · rw [hclient]
    exact hinv.covered
  · exact hinv.sorted
  · rw [hclient, hrelay]
    exact hinv.later

theorem RelayInv.congr {w' : World} {h : ℕ} (hinv : RelayInv w h) (hclient : w'.client = w.client)
    (hinsts : w'.insts = w.insts) (hup : w'.up h = w.up h) (hrelay : w'.relays h = w.relays h) :
    RelayInv w' h := by
  refine ⟨?_, ?_, ?_, ?_, ?_⟩ <;> rw [hrelay]
  · rw [hclient]
    exact hinv.ctr_le
  · exact hinv.machine
  · rw [hclient, hinsts, hup]
    exact hinv.held
  · exact hinv.inj
  · rw [hinsts]
    exact hinv.last

theorem DownInv.congr {w' : World} {h : ℕ} (hinv : DownInv w h) (hclient : w'.client = w.client)
    (hinsts : w'.insts = w.insts) (hdown : w'.down h = w.down h)
    (hrelay : w'.relays h = w.relays h) : DownInv w' h := by
  refine ⟨?_, ?_, ?_⟩ <;> rw [hdown]
  · rw [hclient, hinsts, hrelay]
    exact hinv.inst
  · rw [hrelay]
    exact hinv.stopped
  · rw [hinsts]
    exact hinv.after

theorem sendDown_inv {h : ℕ} {cell : Cell} (hinv : Inv w) (hinst : w.insts c = some m)
    (hhop : m.targetHopnum = h) (hc : c ≤ (w.relays h).paddingMachineCtr)
    (hwaits : Waits w.client m.machineIndex h) (hok : CellOk m c cell)
    (hstop : isStop cell → ∀ j, (w.relays h).paddingInfo j ≠ some c)
    (hafter : ∀ p ∈ w.down h, isStop p.2 → SameSlot w.insts p.1 c → p.1 < c) :
    Inv (sendDown w h c cell) := by
  refine ⟨⟨hinv.client.ctr_lt, hinv.client.inst, hinv.client.machine, hinv.client.info⟩,
    fun hop => ?_, fun hop => ?_, fun hop => ?_⟩
  · exact (hinv.up hop).congr rfl rfl rfl rfl
  · exact (hinv.relay hop).congr rfl rfl rfl rfl
  · have hdown := hinv.down hop
    by_cases hhop₀ : hop = h
    · subst hhop₀
      have hqueue : (sendDown w hop c cell).down hop = w.down hop ++ [(c, cell)] :=
        Function.update_self _ _ _
      refine ⟨?_, ?_, ?_⟩
      · rw [hqueue]
        intro p hp
        rcases List.mem_append.mp hp with hp | hp
        · exact hdown.inst p hp
        · obtain rfl := List.mem_singleton.mp hp
          exact ⟨m, hinst, hhop, hc, hwaits, hok⟩
      · rw [hqueue]
        intro p hp
        rcases List.mem_append.mp hp with hp | hp
        · exact hdown.stopped p hp
        · obtain rfl := List.mem_singleton.mp hp
          exact hstop
      · rw [hqueue]
        refine List.pairwise_append.mpr ⟨hdown.after, List.pairwise_singleton _ _, ?_⟩
        intro p hp q hq
        obtain rfl := List.mem_singleton.mp hq
        exact hafter p hp
    · exact hdown.congr rfl rfl (Function.update_of_ne hhop₀ _ _) rfl

theorem SameSlot.symm {insts : ℕ → Option MachineSpec} {c d : ℕ} (h : SameSlot insts c d) :
    SameSlot insts d c := by
  obtain ⟨m, m', hc, hd, heq⟩ := h
  exact ⟨m', m, hd, hc, heq.symm⟩

theorem Inv.stop_lt_held {h : ℕ} {j : Fin 2} (hinv : Inv w)
    (hheld : (w.relays h).paddingInfo j = some c) {p : ℕ × Cell} (hp : p ∈ w.down h)
    (hstop : isStop p.2) (hsame : SameSlot w.insts p.1 c) : p.1 < c := by
  obtain ⟨m₀, hinst₀, hhop₀, hle, _⟩ := (hinv.down h).inst p hp
  have hle' : p.1 ≤ c := by
    refine (hinv.relay h).last j c p.1 hheld hsame.symm (fun m₁ hinst₁ => ?_) hle
    obtain rfl := Option.some.inj (hinst₀.symm.trans hinst₁)
    exact hhop₀
  have hne : p.1 ≠ c := by
    rintro rfl
    exact (hinv.down h).stopped p hp hstop j hheld
  omega

theorem relayPads_inv (hinv : Inv w) (h : ℕ) (j : Fin 2) : Inv (relayPads w h j) := by
  rw [relayPads]
  split
  · rename_i c hheld
    obtain ⟨r, m, _, hinst, hhop, _, hc, hwaits, _⟩ := (hinv.relay h).held j c hheld
    exact sendDown_inv hinv hinst hhop hc hwaits trivial (fun hstop => hstop.elim)
      fun p hp hstop hsame => hinv.stop_lt_held hheld hp hstop hsame
  · exact hinv

/-! ### A relay gives machines up -/

structure Frees (circ circ' : Circuit) : Prop where
  ctr : circ'.paddingMachineCtr = circ.paddingMachineCtr
  slot : ∀ i, (circ'.paddingMachine i = circ.paddingMachine i ∧
      circ'.paddingInfo i = circ.paddingInfo i) ∨
    (circ'.paddingMachine i = none ∧ circ'.paddingInfo i = none)

theorem Frees.info {circ circ' : Circuit} (h : Frees circ circ')
    (hinfo : circ'.paddingInfo i = some c) :
    circ.paddingInfo i = some c ∧ circ'.paddingMachine i = circ.paddingMachine i := by
  rcases h.slot i with ⟨hmachine, heq⟩ | ⟨_, hnone⟩
  · exact ⟨heq ▸ hinfo, hmachine⟩
  · rw [hnone] at hinfo
    cases hinfo

theorem Frees.machine {circ circ' : Circuit} (h : Frees circ circ')
    (hmachine : circ'.paddingMachine i = some m) :
    circ.paddingMachine i = some m ∧ circ'.paddingInfo i = circ.paddingInfo i := by
  rcases h.slot i with ⟨heq, hinfo⟩ | ⟨hnone, _⟩
  · exact ⟨heq ▸ hmachine, hinfo⟩
  · rw [hnone] at hmachine
    cases hmachine

theorem freeWithMachineNum_frees (circ : Circuit) (machineNum machineCtr : ℕ) :
    Frees circ (freeWithMachineNum circ machineNum machineCtr).2 := by
  refine ⟨rfl, fun i => ?_⟩
  by_cases hmatch : matchesSlot circ machineNum machineCtr i = true
  · exact .inr ⟨if_pos hmatch, if_pos hmatch⟩
  · exact .inl ⟨if_neg hmatch, if_neg hmatch⟩

def setRelay (w : World) (h : ℕ) (circ : Circuit) : World :=
  { w with relays := Function.update w.relays h circ }

theorem setRelay_frees_inv {h : ℕ} {circ : Circuit} (hinv : Inv w)
    (hfree : Frees (w.relays h) circ) : Inv (setRelay w h circ) := by
  refine ⟨⟨hinv.client.ctr_lt, hinv.client.inst, hinv.client.machine, hinv.client.info⟩,
    fun hop => ?_, fun hop => ?_, fun hop => ?_⟩
  all_goals by_cases hhop : hop = h
  · subst hhop
    have hup := hinv.up hop
    have hself : (setRelay w hop circ).relays hop = circ := Function.update_self _ _ _
    exact ⟨hup.inst, hup.covered, hup.sorted, fun p hp hstart => by
      rw [hself, hfree.ctr]
      exact hup.later p hp hstart⟩
  · exact (hinv.up hop).congr rfl rfl rfl (Function.update_of_ne hhop _ _)
  · subst hhop
    have hrelay := hinv.relay hop
    have hself : (setRelay w hop circ).relays hop = circ := Function.update_self _ _ _
    refine ⟨?_, ?_, ?_, ?_, ?_⟩ <;> rw [hself]
    · rw [hfree.ctr]
      exact hrelay.ctr_le
    · intro j r hr
      obtain ⟨hr', hinfo⟩ := hfree.machine hr
      rw [hinfo]
      exact hrelay.machine j r hr'
    · intro j c hheld
      obtain ⟨hheld', hmachine⟩ := hfree.info hheld
      rw [hmachine, hfree.ctr]
      exact hrelay.held j c hheld'
    · intro j j' c hheld hheld'
      exact hrelay.inj j j' c (hfree.info hheld).1 (hfree.info hheld').1
    · intro j c d hheld
      rw [hfree.ctr]
      exact hrelay.last j c d (hfree.info hheld).1
  · exact (hinv.relay hop).congr rfl rfl rfl (Function.update_of_ne hhop _ _)
  · subst hhop
    have hdown := hinv.down hop
    have hself : (setRelay w hop circ).relays hop = circ := Function.update_self _ _ _
    refine ⟨?_, ?_, hdown.after⟩ <;> rw [hself]
    · rw [hfree.ctr]
      exact hdown.inst
    · intro p hp hstop j hheld
      exact hdown.stopped p hp hstop j (hfree.info hheld).1
  · exact (hinv.down hop).congr rfl rfl rfl (Function.update_of_ne hhop _ _)

theorem setRelay_self {h : ℕ} {circ : Circuit} : (setRelay w h circ).relays h = circ :=
  Function.update_self _ _ _

def clearSlot (circ : Circuit) (j : Fin 2) : Circuit :=
  { circ with
    paddingInfo := Function.update circ.paddingInfo j none
    paddingMachine := Function.update circ.paddingMachine j none }

theorem clearSlot_info (circ : Circuit) (j : Fin 2) : (clearSlot circ j).paddingInfo j = none :=
  Function.update_self _ _ _

theorem clearSlot_frees (circ : Circuit) (j : Fin 2) : Frees circ (clearSlot circ j) := by
  refine ⟨rfl, fun j' => ?_⟩
  by_cases hj : j' = j
  · rw [hj]
    exact .inr ⟨Function.update_self _ _ _, Function.update_self _ _ _⟩
  · exact .inl ⟨Function.update_of_ne hj _ _, Function.update_of_ne hj _ _⟩

theorem relayEnd_inv (hinv : Inv w) (h : ℕ) (j : Fin 2) : Inv (relayEnd w h j) := by
  rw [relayEnd]
  split
  · rename_i c r hheld hmachine
    split_ifs
    · obtain ⟨r', m, hr', hinst, hhop, hnum, hc, hwaits, _⟩ := (hinv.relay h).held j c hheld
      obtain rfl := Option.some.inj (hmachine.symm.trans hr')
      have hfree := clearSlot_frees (w.relays h) j
      show Inv (sendDown (setRelay w h (clearSlot (w.relays h) j)) h c _)
      refine sendDown_inv (setRelay_frees_inv hinv hfree) hinst hhop ?_ hwaits ⟨rfl, hnum.symm, rfl⟩
        (fun _ j' hheld' => ?_) fun p hp hstop hsame => hinv.stop_lt_held hheld hp hstop hsame
      · rw [setRelay_self]
        exact hc
      · rw [setRelay_self] at hheld'
        have hj := (hinv.relay h).inj j' j c (hfree.info hheld').1 hheld
        rw [hj, clearSlot_info] at hheld'
        cases hheld'
    · exact hinv
  · exact hinv

def setUp (w : World) (h : ℕ) (queue : List (Fin 2 × Negotiate)) : World :=
  { w with up := Function.update w.up h queue }

theorem setUp_inv {h : ℕ} {p : Fin 2 × Negotiate} {rest : List (Fin 2 × Negotiate)} (hinv : Inv w)
    (hqueue : w.up h = p :: rest)
    (hkeep : ∀ j c, (w.relays h).paddingInfo j = some c →
      ¬ (p.2.command = .stop ∧ p.2.machineCtr = c)) : Inv (setUp w h rest) := by
  refine ⟨⟨hinv.client.ctr_lt, hinv.client.inst, hinv.client.machine, hinv.client.info⟩,
    fun hop => ?_, fun hop => ?_, fun hop => ?_⟩
  · have hup := hinv.up hop
    by_cases hhop : hop = h
    · subst hhop
      have hself : (setUp w hop rest).up hop = rest := Function.update_self _ _ _
      refine ⟨?_, ?_, ?_, ?_⟩ <;> rw [hself]
      · intro q hq
        exact hup.inst q (hqueue ▸ List.mem_cons_of_mem _ hq)
      · have hcovered := hup.covered
        rw [hqueue] at hcovered
        exact hcovered.2
      · have hsorted := hup.sorted
        rw [hqueue] at hsorted
        exact (List.pairwise_cons.mp hsorted).2
      · intro q hq
        exact hup.later q (hqueue ▸ List.mem_cons_of_mem _ hq)
    · exact hup.congr rfl rfl (Function.update_of_ne hhop _ _) rfl
  · have hrelay := hinv.relay hop
    refine ⟨hrelay.ctr_le, hrelay.machine, fun j c hheld => ?_, hrelay.inj, hrelay.last⟩
    obtain ⟨r, m, hr, hinst, hhop₀, hnum, hc, hwaits, hsettled⟩ := hrelay.held j c hheld
    refine ⟨r, m, hr, hinst, hhop₀, hnum, hc, hwaits, ?_⟩
    by_cases hhop : hop = h
    · subst hhop
      have hself : (setUp w hop rest).up hop = rest := Function.update_self _ _ _
      rw [hself]
      rw [hqueue] at hsettled
      exact hsettled.tail (hkeep j c hheld)
    · have hother : (setUp w h rest).up hop = w.up hop := Function.update_of_ne hhop _ _
      rw [hother]
      exact hsettled
  · have hdown := hinv.down hop
    exact ⟨hdown.inst, hdown.stopped, hdown.after⟩

theorem setRelay_occupy_inv {h : ℕ} {r : MachineSpec} (hinv : Inv w) (hinst : w.insts c = some m)
    (hhop : m.targetHopnum = h) (hnum : m.machineNum = r.machineNum)
    (hnext : (w.relays h).paddingMachineCtr + 1 = c) (hwaits : Waits w.client m.machineIndex h)
    (hsettled : Settled w.client m.machineIndex c (w.up h))
    (halone : ∀ j d, (w.relays h).paddingInfo j = some d → ¬ SameSlot w.insts d c)
    (hlater : ∀ q ∈ w.up h, q.2.command = .start → c < q.2.machineCtr) :
    Inv (setRelay w h (occupy (w.relays h) r c)) := by
  -- A slot of the relay has either the new instance or what it had.
  have hinfo : ∀ j d, (occupy (w.relays h) r c).paddingInfo j = some d →
      (j = r.machineIndex ∧ d = c) ∨
        (j ≠ r.machineIndex ∧ (w.relays h).paddingInfo j = some d) := by
    intro j d hd
    replace hd : Function.update (w.relays h).paddingInfo r.machineIndex (some c) j = some d := hd
    by_cases hj : j = r.machineIndex
    · rw [hj, Function.update_self] at hd
      exact .inl ⟨hj, (Option.some.inj hd).symm⟩
    · rw [Function.update_of_ne hj] at hd
      exact .inr ⟨hj, hd⟩
  have hheldlt : ∀ j d, (w.relays h).paddingInfo j = some d → d < c := by
    intro j d hd
    obtain ⟨_, _, _, _, _, _, hle, _⟩ := (hinv.relay h).held j d hd
    omega
  refine ⟨⟨hinv.client.ctr_lt, hinv.client.inst, hinv.client.machine, hinv.client.info⟩,
    fun hop => ?_, fun hop => ?_, fun hop => ?_⟩
  all_goals by_cases hop₀ : hop = h
  · subst hop₀
    have hup := hinv.up hop
    refine ⟨hup.inst, hup.covered, hup.sorted, fun p hp hstart => ?_⟩
    rw [setRelay_self]
    exact ⟨hlater p hp hstart, (hup.later p hp hstart).2⟩
  · exact (hinv.up hop).congr rfl rfl rfl (Function.update_of_ne hop₀ _ _)
  · subst hop₀
    have hrelay := hinv.relay hop
    refine ⟨?_, ?_, ?_, ?_, ?_⟩ <;> rw [setRelay_self]
    · exact (hinv.client.inst c m hinst).2.1
    · intro j r' hr'
      show (Function.update (w.relays hop).paddingInfo r.machineIndex (some c) j).isSome
      by_cases hj : j = r.machineIndex
      · rw [hj, Function.update_self]
        rfl
      · rw [Function.update_of_ne hj]
        exact hrelay.machine j r' ((Function.update_of_ne hj _ _).symm.trans hr')
    · intro j d hd
      rcases hinfo j d hd with ⟨rfl, rfl⟩ | ⟨hj, hd'⟩
      · exact ⟨r, m, Function.update_self _ _ _, hinst, hhop, hnum, le_refl _, hwaits, hsettled⟩
      · obtain ⟨r', m', hr', hinst', hhop', hnum', _, hrest⟩ := hrelay.held j d hd'
        exact ⟨r', m', (Function.update_of_ne hj _ _).trans hr', hinst', hhop', hnum',
          (hheldlt j d hd').le, hrest⟩
    · intro j j' d hd hd'
      rcases hinfo j d hd with ⟨rfl, rfl⟩ | ⟨_, hold⟩ <;>
        rcases hinfo j' d hd' with ⟨rfl, hdc⟩ | ⟨_, hold'⟩
      · rfl
      · exact absurd (hheldlt j' d hold') (lt_irrefl d)
      · exact absurd (hheldlt j d hold) (by omega)
      · exact hrelay.inj j j' d hold hold'
    · intro j d e hd hsame hehop he
      replace he : e ≤ c := he
      rcases hinfo j d hd with ⟨rfl, rfl⟩ | ⟨_, hold⟩
      · exact he
      · by_cases hec : e = c
        · rw [hec] at hsame
          exact absurd hsame (halone j d hold)
        · exact hrelay.last j d e hold hsame hehop (by omega)
  · exact (hinv.relay hop).congr rfl rfl rfl (Function.update_of_ne hop₀ _ _)
  · subst hop₀
    have hdown := hinv.down hop
    refine ⟨?_, ?_, hdown.after⟩ <;> rw [setRelay_self]
    · intro p hp
      obtain ⟨m', hinst', hhop', hle, hrest⟩ := hdown.inst p hp
      exact ⟨m', hinst', hhop', show p.1 ≤ c by omega, hrest⟩
    · intro p hp hstop j hd
      rcases hinfo j p.1 hd with ⟨_, hpc⟩ | ⟨_, hold⟩
      · obtain ⟨_, _, _, hle, _⟩ := hdown.inst p hp
        omega
      · exact hdown.stopped p hp hstop j hold
  · exact (hinv.down hop).congr rfl rfl rfl (Function.update_of_ne hop₀ _ _)

/-! ### A cell reaches the client -/

def setDown (w : World) (h : ℕ) (queue : List (ℕ × Cell)) : World :=
  { w with down := Function.update w.down h queue }

theorem setDown_inv {h : ℕ} {p : ℕ × Cell} {rest : List (ℕ × Cell)} (hinv : Inv w)
    (hqueue : w.down h = p :: rest) : Inv (setDown w h rest) := by
  refine ⟨⟨hinv.client.ctr_lt, hinv.client.inst, hinv.client.machine, hinv.client.info⟩,
    fun hop => ?_, fun hop => ?_, fun hop => ?_⟩
  · exact (hinv.up hop).congr rfl rfl rfl rfl
  · exact (hinv.relay hop).congr rfl rfl rfl rfl
  · have hdown := hinv.down hop
    by_cases hhop : hop = h
    · subst hhop
      have hself : (setDown w hop rest).down hop = rest := Function.update_self _ _ _
      refine ⟨?_, ?_, ?_⟩ <;> rw [hself]
      · intro q hq
        exact hdown.inst q (hqueue ▸ List.mem_cons_of_mem _ hq)
      · intro q hq
        exact hdown.stopped q (hqueue ▸ List.mem_cons_of_mem _ hq)
      · have hafter := hdown.after
        rw [hqueue] at hafter
        exact (List.pairwise_cons.mp hafter).2
    · exact hdown.congr rfl rfl (Function.update_of_ne hhop _ _) rfl

def setClient (w : World) (circ : Circuit) : World := { w with client := circ }

/-- Nothing but the client still has to do with slot `i`. -/
structure Idle (w : World) (i : Fin 2) : Prop where
  up : ∀ h, ∀ p ∈ w.up h, ¬ StartsIn i p
  relay : ∀ h j c m, (w.relays h).paddingInfo j = some c → w.insts c = some m → m.machineIndex ≠ i
  down : ∀ h, ∀ p ∈ w.down h, ∀ m, w.insts p.1 = some m → m.machineIndex ≠ i

theorem Settled.frees {client client' : Circuit} {i₀ : Fin 2} {l : List (Fin 2 × Negotiate)}
    (h : Settled client i₀ c l) (hsame : client'.paddingInfo i₀ = client.paddingInfo i₀) :
    Settled client' i₀ c l :=
  h.imp_left fun ⟨hinfo, hl⟩ => ⟨hsame.trans hinfo, hl⟩

theorem setClient_frees_inv {circ : Circuit} (hinv : Inv w) (hfree : Frees w.client circ)
    (hidle : ∀ i, circ.paddingMachine i ≠ w.client.paddingMachine i → Idle w i) :
    Inv (setClient w circ) := by
  -- A slot that is not idle stays as it is.
  have hsame : ∀ i, ¬ Idle w i → circ.paddingMachine i = w.client.paddingMachine i ∧
      circ.paddingInfo i = w.client.paddingInfo i := by
    intro i hnot
    rcases hfree.slot i with heq | ⟨hmachine, hinfo⟩
    · exact heq
    · have heq : circ.paddingMachine i = w.client.paddingMachine i := by
        by_contra hne
        exact hnot (hidle i hne)
      refine ⟨heq, hinfo.trans ?_⟩
      by_contra hne
      obtain ⟨c, hc⟩ := Option.ne_none_iff_exists'.mp (Ne.symm hne)
      have hsome := (hinv.client.info i c hc).2
      rw [← heq, hmachine] at hsome
      cases hsome
  have hwaits : ∀ i h, ¬ Idle w i → Waits w.client i h → Waits circ i h := by
    rintro i h hnot ⟨m, hm, hhop⟩
    exact ⟨m, (hsame i hnot).1.trans hm, hhop⟩
  refine ⟨⟨?_, fun c m hc => ?_, fun i m hm => ?_, fun i c hc => ?_⟩,
    fun hop => ?_, fun hop => ?_, fun hop => ?_⟩
  · show circ.paddingMachineCtr < _
    rw [hfree.ctr]
    exact hinv.client.ctr_lt
  · show 1 ≤ c ∧ c ≤ circ.paddingMachineCtr ∧ c ≤ w.latest m.machineIndex
    rw [hfree.ctr]
    exact hinv.client.inst c m hc
  · exact hinv.client.machine i m (hfree.machine hm).1
  · obtain ⟨hinfo, hmachine⟩ := hfree.info hc
    obtain ⟨hlatest, hsome⟩ := hinv.client.info i c hinfo
    refine ⟨hlatest, ?_⟩
    show (circ.paddingMachine i).isSome
    rw [hmachine]
    exact hsome
  · have hup := hinv.up hop
    refine ⟨hup.inst, hup.covered.mono fun q hq hstart l hl => hl.frees (hsame q.1 ?_).2,
      hup.sorted, fun p hp hstart => ⟨(hup.later p hp hstart).1, ?_⟩⟩
    · exact fun hidle => hidle.up hop q hq ⟨rfl, hstart⟩
    · exact hwaits p.1 hop (fun hidle => hidle.up hop p hp ⟨rfl, hstart⟩) (hup.later p hp hstart).2
  · have hrelay := hinv.relay hop
    refine ⟨?_, hrelay.machine, fun j c hheld => ?_, hrelay.inj, hrelay.last⟩
    · show _ ≤ circ.paddingMachineCtr
      rw [hfree.ctr]
      exact hrelay.ctr_le
    · obtain ⟨r, m, hr, hinst, hhop, hnum, hc, hwait, hsettled⟩ := hrelay.held j c hheld
      have hnot : ¬ Idle w m.machineIndex := fun hidle => hidle.relay hop j c m hheld hinst rfl
      exact ⟨r, m, hr, hinst, hhop, hnum, hc, hwaits _ hop hnot hwait,
        hsettled.frees (hsame _ hnot).2⟩
  · have hdown := hinv.down hop
    refine ⟨fun p hp => ?_, hdown.stopped, hdown.after⟩
    obtain ⟨m, hinst, hhop, hc, hwait, hok⟩ := hdown.inst p hp
    have hnot : ¬ Idle w m.machineIndex := fun hidle => hidle.down hop p hp m hinst rfl
    exact ⟨m, hinst, hhop, hc, hwaits _ hop hnot hwait, hok⟩

theorem Inv.idle {h : ℕ} {p : ℕ × Cell} {rest : List (ℕ × Cell)} (hinv : Inv w)
    (hqueue : w.down h = p :: rest) (hstop : isStop p.2) (hinst : w.insts p.1 = some m)
    (hlatest : w.latest m.machineIndex = p.1) : Idle (setDown w h rest) m.machineIndex := by
  have hmem : p ∈ w.down h := hqueue ▸ List.mem_cons_self
  obtain ⟨m', hinst', hhop, hc, hwaits, _⟩ := (hinv.down h).inst p hmem
  obtain rfl := Option.some.inj (hinst.symm.trans hinst')
  -- Only this hop is awaited in the slot, and the instance is the last of the slot.
  have hsole : ∀ i hop, i = m.machineIndex → Waits w.client i hop → hop = h := by
    rintro _ hop rfl ⟨m₁, hm₁, hhop₁⟩
    obtain ⟨m₂, hm₂, hhop₂⟩ := hwaits
    obtain rfl := Option.some.inj (hm₁.symm.trans hm₂)
    exact hhop₁.symm.trans hhop₂
  have hle : ∀ c₀ m₀, w.insts c₀ = some m₀ → m₀.machineIndex = m.machineIndex → c₀ ≤ p.1 := by
    intro c₀ m₀ hinst₀ hidx
    have hle₀ := (hinv.client.inst c₀ m₀ hinst₀).2.2
    rw [hidx, hlatest] at hle₀
    exact hle₀
  refine ⟨?_, ?_, ?_⟩
  · rintro hop q hq ⟨hslot, hstart⟩
    obtain ⟨hlt, hwait⟩ := (hinv.up hop).later q hq hstart
    obtain rfl := hsole q.1 hop hslot hwait
    obtain ⟨m₀, hinst₀, _, _, hidx⟩ := (hinv.up hop).inst q hq
    have := hle _ m₀ hinst₀ (hidx.trans hslot)
    omega
  · intro hop j c₀ m₀ hheld hinst₀ hidx
    obtain ⟨_, m₁, _, hinst₁, hhop₁, _, _, hwait, _⟩ := (hinv.relay hop).held j c₀ hheld
    obtain rfl := Option.some.inj (hinst₀.symm.trans hinst₁)
    obtain rfl := hsole _ hop hidx hwait
    have hge : p.1 ≤ c₀ := by
      refine (hinv.relay hop).last j c₀ p.1 hheld ⟨m₀, m, hinst₀, hinst, hidx⟩ (fun m₂ hm₂ => ?_) hc
      obtain rfl := Option.some.inj (hinst.symm.trans hm₂)
      exact hhop
    obtain rfl : c₀ = p.1 := le_antisymm (hle c₀ m₀ hinst₀ hidx) hge
    exact (hinv.down hop).stopped p hmem hstop j hheld
  · intro hop q hq m₀ hinst₀ hidx
    have hmemq : q ∈ w.down hop ∧ (hop = h → q ∈ rest) := by
      by_cases hhop₀ : hop = h
      · subst hhop₀
        have hself : (setDown w hop rest).down hop = rest := Function.update_self _ _ _
        rw [hself] at hq
        exact ⟨hqueue ▸ List.mem_cons_of_mem _ hq, fun _ => hq⟩
      · have hother : (setDown w h rest).down hop = w.down hop := Function.update_of_ne hhop₀ _ _
        rw [hother] at hq
        exact ⟨hq, fun heq => absurd heq hhop₀⟩
    obtain ⟨m₁, hinst₁, _, _, hwait, _⟩ := (hinv.down hop).inst q hmemq.1
    obtain rfl := Option.some.inj (hinst₀.symm.trans hinst₁)
    obtain rfl := hsole _ hop hidx hwait
    have hafter := (hinv.down hop).after
    rw [hqueue] at hafter
    have hlt := (List.pairwise_cons.mp hafter).1 q (hmemq.2 rfl) hstop
      ⟨m, m₀, hinst, hinst₀, hidx.symm⟩
    have := hle _ m₀ hinst₀ hidx
    omega

end PaddingNegotiation
