/-
The circuit that TEARDOWNCIRCUIT selects (`find_circuit_for_teardown`).

A payment event reports the id of a circuit on the channel of its previous hop.  The lookup takes
the id for the identifier of a circuit that begins here first, and then for an id on either side of
a circuit whose previous hop is the peer; `findCircuitForTeardown_iff` says when it still selects
the circuit that was reported.
-/
import LibEltor.ControlTeardowncircuit

open CircidMap CircuitBuild Circuitlist

namespace ControlTeardowncircuit

variable {Chan : Type*}

/-- The circuit comes from the peer under the id, and has not been told to end. -/
structure Reported (identityDigest : Chan → List UInt8) (id : UInt32) (digest : List UInt8)
    (s : State Chan) (p : ℕ) : Prop where
  listed : p ∈ s.globalCircuitlist
  notOrigin : (s.circ p).isOrigin = false
  notMarked : (s.circ p).markedForClose = false
  circId : (s.wire.link p .dirIn).circId = id
  peer : ∃ chan, (s.wire.link p .dirIn).chan = some chan ∧ identityDigest chan = digest

structure Candidate (identityDigest : Chan → List UInt8) (id : UInt32) (digest : List UInt8)
    (s : State Chan) (p : ℕ) : Prop where
  notOrigin : (s.circ p).isOrigin = false
  notMarked : (s.circ p).markedForClose = false
  circId : (s.wire.link p .dirIn).circId = id ∨ (s.wire.link p .dirOut).circId = id
  peer : ∃ chan, (s.wire.link p .dirIn).chan = some chan ∧ identityDigest chan = digest

variable {identityDigest : Chan → List UInt8} {id : UInt32} {digest : List UInt8} {s : State Chan}

theorem orCircuitMatches_iff {p : ℕ} : orCircuitMatches identityDigest id (some digest) s p = true ↔
    Candidate identityDigest id digest s p := by
  unfold orCircuitMatches
  cases hchan : (s.wire.link p .dirIn).chan with
  | none =>
    simp only [Bool.and_false, Bool.false_eq_true, false_iff]
    rintro ⟨-, -, -, chan, hsome, -⟩
    rw [hchan] at hsome
    cases hsome
  | some chan =>
    simp only [Bool.and_eq_true, Bool.or_eq_true, Bool.not_eq_true', beq_iff_eq]
    constructor
    · rintro ⟨⟨⟨horigin, hmarked⟩, hid⟩, hdigest⟩
      exact ⟨horigin, hmarked, hid, chan, hchan, hdigest⟩
    · rintro ⟨horigin, hmarked, hid, chan', hsome, hdigest⟩
      obtain rfl := Option.some_inj.mp (hchan.symm.trans hsome)
      exact ⟨⟨⟨horigin, hmarked⟩, hid⟩, hdigest⟩

theorem Reported.candidate {p : ℕ} (h : Reported identityDigest id digest s p) :
    Candidate identityDigest id digest s p :=
  ⟨h.notOrigin, h.notMarked, .inl h.circId, h.peer⟩

theorem Candidate.reported {p : ℕ} (h : Candidate identityDigest id digest s p)
    (hp : p ∈ s.globalCircuitlist) (hid : (s.wire.link p .dirIn).circId = id) :
    Reported identityDigest id digest s p :=
  ⟨hp, h.notOrigin, h.notMarked, hid, h.peer⟩

theorem circuitGetByGlobalId_isOrigin {p : ℕ} (h : circuitGetByGlobalId id s = some p) :
    (s.circ p).isOrigin = true := by
  rw [circuitGetByGlobalId] at h
  split at h
  · rename_i q hq
    split_ifs at h
    obtain rfl := Option.some_inj.mp h
    have hfound := List.find?_some hq
    rw [Bool.and_eq_true] at hfound
    exact hfound.1
  · cases h

/-- The lookup selects the reported circuit and no other exactly if no circuit that begins here has
the identifier, only one circuit can be the reported one, and it stands in the list before every
circuit from the peer that has the id on its other side. -/
theorem findCircuitForTeardown_iff (identityDigest : Chan → List UInt8) (id : UInt32)
    (digest : List UInt8) (logOnly forceImmediate : Bool) (s : State Chan) :
    (∀ p, findCircuitForTeardown identityDigest ⟨some id, some digest, logOnly, forceImmediate⟩ s =
        some p ↔ Reported identityDigest id digest s p) ↔
      circuitGetByGlobalId id s = none ∧
      (∀ p q, Reported identityDigest id digest s p → Reported identityDigest id digest s q →
        p = q) ∧
      ∀ q ∈ s.globalCircuitlist, Candidate identityDigest id digest s q →
        (s.wire.link q .dirIn).circId ≠ id →
        ∃ before after, s.globalCircuitlist = before ++ after ∧ q ∉ before ∧
          ∃ p ∈ before, Reported identityDigest id digest s p := by
  rw [findCircuitForTeardown]
  simp only
  cases horigin : circuitGetByGlobalId id s with
  | some o =>
    refine ⟨fun h => ?_, fun h => absurd h.1 (by simp)⟩
    have hnot := ((h o).mp rfl).notOrigin
    rw [circuitGetByGlobalId_isOrigin horigin] at hnot
    cases hnot
  | none =>
    simp only [true_and]
    constructor
    · intro h
      refine ⟨fun p q hp hq => ?_, fun q hq hcandidate hne => ?_⟩
      · exact Option.some_inj.mp (((h p).mpr hp).symm.trans ((h q).mpr hq))
      · -- something is found, and that is reported; what stands before the candidate is enough
        cases hfind : s.globalCircuitlist.find?
            (orCircuitMatches identityDigest id (some digest) s) with
        | none =>
          exact absurd (orCircuitMatches_iff.mpr hcandidate) (List.find?_eq_none.mp hfind q hq)
        | some p =>
          have hp := (h p).mp hfind
          obtain ⟨hmatch, before, after, hlist, hbefore⟩ := List.find?_eq_some_iff_append.mp hfind
          refine ⟨before ++ [p], after, by rw [hlist]; simp, ?_, p, by simp, hp⟩
          intro hmem
          obtain hmem | hmem := List.mem_append.mp hmem
          · have hno := hbefore q hmem
            rw [orCircuitMatches_iff.mpr hcandidate] at hno
            cases hno
          · exact hne (List.mem_singleton.mp hmem ▸ hp.circId)
    · rintro ⟨hunique, hbefore⟩ p
      have hreported : ∀ q, s.globalCircuitlist.find?
          (orCircuitMatches identityDigest id (some digest) s) = some q →
          Reported identityDigest id digest s q := by
        intro q hfind
        have hq := List.mem_of_find?_eq_some hfind
        have hcandidate := orCircuitMatches_iff.mp (List.find?_some hfind)
        refine hcandidate.reported hq ?_
        by_contra hne
        obtain ⟨before, after, hlist, hnot, p, hp, hrep⟩ := hbefore q hq hcandidate hne
        have hsome : (before.find? (orCircuitMatches identityDigest id (some digest) s)).isSome =
            true := by
          rw [List.find?_isSome]
          exact ⟨p, hp, orCircuitMatches_iff.mpr hrep.candidate⟩
        obtain ⟨r, hr⟩ := Option.isSome_iff_exists.mp hsome
        rw [hlist, List.find?_append, hr, Option.some_or, Option.some_inj] at hfind
        exact hnot (hfind ▸ List.mem_of_find?_eq_some hr)
      refine ⟨hreported p, fun hp => ?_⟩
      cases hfind : s.globalCircuitlist.find?
          (orCircuitMatches identityDigest id (some digest) s) with
      | none =>
        exact absurd (orCircuitMatches_iff.mpr hp.candidate)
          (List.find?_eq_none.mp hfind p hp.listed)
      | some q => rw [hunique q p (hreported q hfind) hp]

/-- A relay with one circuit of its own, the seventh, and one of a peer under the id 7. -/
def twoSevens : State Unit :=
  { (State.initial : State Unit) with
    circ := fun p => { Circuit.zero (p == 0) 7 with state := .opened }
    globalCircuitlist := [0, 1]
    wire :=
      { (Wire.initial : Wire Unit) with
        link := fun p dir =>
          if p = 1 ∧ dir = .dirIn then ⟨some (), 7, false⟩ else ⟨none, 0, false⟩ } }

theorem own_circuit_selected :
    findCircuitForTeardown (fun _ => [1]) ⟨some 7, some [1], false, false⟩ twoSevens = some 0 ∧
      Reported (fun _ => [1]) 7 [1] twoSevens 1 ∧ (twoSevens.circ 0).isOrigin = true :=
  ⟨by decide, ⟨by decide, by decide, by decide, by decide, (), by decide, rfl⟩, by decide⟩

end ControlTeardowncircuit
