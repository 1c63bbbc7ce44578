/-
Rotation of the descriptors of an onion service (`rotate_all_descriptors`, `build_all_descriptors`).

The rings of a node are computed afresh from each consensus, and the two descriptors of a service are
carried on from round to round.  The two agree as long as every new run of the shared-random
protocol is seen, and seen in its first half (`desc_on_rings`).  When the first consensus of a run
comes after its period has begun, the next descriptor is built for the period behind
(`late_rotation`).
-/
import LibEltor.HsTimePeriod
import LibEltor.Transition
import Mathlib

open HsTimePeriod Transition

namespace HsDescRotation

/-- The periods that the descriptors of a service are for, and its `next_rotation_time`, 0 when it
is not set. -/
structure Service where
  descCurrent : Option ℕ
  descNext : Option ℕ
  nextRotationTime : ℕ
deriving DecidableEq

/-! ### The events of a round -/

def setRotationTime (ns : Consensus) (service : Service) : Service :=
  { service with
    nextRotationTime := getStartTimeOfCurrentProtocolRun ns + getProtocolRunDuration ns }

def runHousekeepingEvent (ns : Consensus) (service : Service) : Service :=
  if service.nextRotationTime = 0 then setRotationTime ns service else service

def shouldRotateDescriptors (ns : Consensus) (service : Service) : Bool :=
  decide (service.nextRotationTime ≤ ns.validAfter) &&
    (service.descCurrent.isSome && service.descNext.isSome)

def rotateServiceDescriptors (ns : Consensus) (service : Service) : Service :=
  setRotationTime ns { service with descCurrent := service.descNext, descNext := none }

def rotateAllDescriptors (ns : Consensus) (service : Service) : Service :=
  if shouldRotateDescriptors ns service then rotateServiceDescriptors ns service else service

def buildDescriptorsForNewService (testing : Bool) (ns : Consensus) (service : Service) :
    Option Service := do
  let between ← inPeriodBetweenTpAndSrv testing ns
  let current ← getTimePeriodNum testing ns 0
  if between then
    let previous ← getPreviousTimePeriodNum testing ns 0
    some { service with descCurrent := some previous, descNext := some current }
  else
    let next ← getNextTimePeriodNum testing ns 0
    some { service with descCurrent := some current, descNext := some next }

def buildAllDescriptors (testing : Bool) (ns : Consensus) (service : Service) : Option Service :=
  match service.descCurrent, service.descNext with
  | none, none => buildDescriptorsForNewService testing ns service
  | none, some _ => some service
  | some _, none =>
    (getNextTimePeriodNum testing ns 0).map fun next => { service with descNext := some next }
  | some _, some _ => some service

/-- Each descriptor that is uploaded, and whether the second index is used for it. -/
def uploads (service : Service) : List (ℕ × Bool) :=
  (service.descCurrent.map fun tp => (tp, false)).toList ++
    (service.descNext.map fun tp => (tp, true)).toList

/-- The ring that `hs_get_responsible_hsdirs` takes for an upload. -/
def uploadRing (rings : Indexes Ring) (useSecondHsdirIndex : Bool) : Ring :=
  if useSecondHsdirIndex then rings.storeSecond else rings.storeFirst

def runScheduledEvents (testing : Bool) (ns : Consensus) (service : Service) : Option Service :=
  buildAllDescriptors testing ns (rotateAllDescriptors ns (runHousekeepingEvent ns service))

/-! ### Runs -/

structure State where
  service : Service
  last : Option Consensus

def system (testing : Bool) : System State Consensus where
  init s := s = ⟨⟨none, none, 0⟩, none⟩
  step s ns s' := (∀ last, s.last = some last → last.validAfter ≤ ns.validAfter) ∧
    WholeRun testing ns ∧
    (runScheduledEvents testing ns s.service).map (fun service => ⟨service, some ns⟩) = some s'

def runOf (ns : Consensus) : ℕ := runAt ns ns.validAfter

/-- A new run is the one after the last, is seen in its first half, and is what the rotation time
waits for. -/
def OnTime (s : State) (ns : Consensus) : Prop :=
  getProtocolRunDuration ns ≤ ns.validAfter ∧
  ∀ last, s.last = some last →
    (s.service.nextRotationTime ≤ ns.validAfter ↔ runOf ns ≠ runOf last) ∧
    (runOf ns ≠ runOf last →
      runOf ns = runOf last + 1 ∧ inSecondPhase ns ns.validAfter = false)

variable {testing : Bool} {ns : Consensus} {s s' : State} {service service' : Service}

theorem runOf_pos (ha : getProtocolRunDuration ns ≤ ns.validAfter) : 0 < runOf ns :=
  Nat.div_pos ha (by have := getVotingInterval_pos ns; rw [getProtocolRunDuration_eq]; omega)

theorem buildDescriptorsForNewService_eq (h : WholeRun testing ns)
    (ha : getProtocolRunDuration ns ≤ ns.validAfter) (service : Service) :
    buildDescriptorsForNewService testing ns service =
      some { service with descCurrent := some (runOf ns - 1), descNext := some (runOf ns) } := by
  have hpos := runOf_pos ha
  have hnum := getTimePeriodNum_eq h ha
  rw [← getTimePeriodNum_zero] at hnum
  simp only [buildDescriptorsForNewService, getNextTimePeriodNum, getPreviousTimePeriodNum, hnum,
    inPeriodBetweenTpAndSrv_eq h ha, Option.map_some, Option.bind_eq_bind, Option.bind_some]
  cases inSecondPhase ns ns.validAfter with
  | true => simp [runOf, show runAt ns ns.validAfter ≠ 0 from hpos.ne']
  | false => simp [runOf, Nat.sub_add_cancel (show 0 < runAt ns ns.validAfter from hpos)]

theorem getNextTimePeriodNum_eq (h : WholeRun testing ns)
    (ha : getProtocolRunDuration ns ≤ ns.validAfter)
    (hfirst : inSecondPhase ns ns.validAfter = false) :
    getNextTimePeriodNum testing ns 0 = some (runOf ns) := by
  rw [getNextTimePeriodNum, getTimePeriodNum_zero, getTimePeriodNum_eq h ha, hfirst,
    if_neg (by decide), Option.map_some]
  exact congrArg some (Nat.sub_add_cancel (runOf_pos ha))

theorem rotateAllDescriptors_new (hnew : service.descCurrent = none) :
    rotateAllDescriptors ns service = service := by
  rw [rotateAllDescriptors, shouldRotateDescriptors, hnew]
  simp

/-- Before its first round a service is new; after a round its descriptors are those of the run that its
last consensus is from. -/
structure PlacedIn (testing : Bool) (ns : Consensus) (service : Service) : Prop where
  whole : WholeRun testing ns
  late : getProtocolRunDuration ns ≤ ns.validAfter
  current : service.descCurrent = some (runOf ns - 1)
  next : service.descNext = some (runOf ns)
  set : service.nextRotationTime ≠ 0

def Placed (testing : Bool) (s : State) : Prop :=
  match s.last with
  | none => s.service = ⟨none, none, 0⟩
  | some ns => PlacedIn testing ns s.service

theorem rotationTime_ne_zero (ns : Consensus) :
    getStartTimeOfCurrentProtocolRun ns + getProtocolRunDuration ns ≠ 0 := by
  have hpos := getVotingInterval_pos ns
  rw [getProtocolRunDuration_eq]
  omega

theorem runScheduledEvents_new (h : WholeRun testing ns)
    (ha : getProtocolRunDuration ns ≤ ns.validAfter) :
    runScheduledEvents testing ns ⟨none, none, 0⟩ =
      some ⟨some (runOf ns - 1), some (runOf ns),
        getStartTimeOfCurrentProtocolRun ns + getProtocolRunDuration ns⟩ := by
  rw [runScheduledEvents, runHousekeepingEvent, if_pos rfl, rotateAllDescriptors_new rfl]
  exact buildDescriptorsForNewService_eq h ha _

theorem runScheduledEvents_stay {current next : ℕ} (hcurrent : service.descCurrent = some current)
    (hnext : service.descNext = some next) (hset : service.nextRotationTime ≠ 0)
    (hdue : ¬ service.nextRotationTime ≤ ns.validAfter) :
    runScheduledEvents testing ns service = some service := by
  rw [runScheduledEvents, runHousekeepingEvent, if_neg hset, rotateAllDescriptors,
    shouldRotateDescriptors, decide_eq_false hdue, Bool.false_and, if_neg (by decide),
    buildAllDescriptors, hcurrent, hnext]

theorem runScheduledEvents_rotate {current next : ℕ} (hcurrent : service.descCurrent = some current)
    (hnext : service.descNext = some next) (hset : service.nextRotationTime ≠ 0)
    (hdue : service.nextRotationTime ≤ ns.validAfter) :
    runScheduledEvents testing ns service =
      (getNextTimePeriodNum testing ns 0).map fun tp =>
        ⟨some next, some tp, getStartTimeOfCurrentProtocolRun ns + getProtocolRunDuration ns⟩ := by
  rw [runScheduledEvents, runHousekeepingEvent, if_neg hset, rotateAllDescriptors,
    shouldRotateDescriptors, decide_eq_true hdue, hcurrent, hnext]
  simp [buildAllDescriptors, rotateServiceDescriptors, setRotationTime, hnext]

theorem placedIn_round (hp : Placed testing s) (h : WholeRun testing ns) (hok : OnTime s ns) :
    ∃ service, runScheduledEvents testing ns s.service = some service ∧
      PlacedIn testing ns service := by
  obtain ⟨ha, hlast⟩ := hok
  cases hs : s.last with
  | none =>
    have hnew : s.service = ⟨none, none, 0⟩ := by simpa only [Placed, hs] using hp
    rw [hnew, runScheduledEvents_new h ha]
    exact ⟨_, rfl, h, ha, rfl, rfl, rotationTime_ne_zero ns⟩
  | some last =>
    have hin : PlacedIn testing last s.service := by simpa only [Placed, hs] using hp
    obtain ⟨hdue, hnext⟩ := hlast last hs
    by_cases hrotate : s.service.nextRotationTime ≤ ns.validAfter
    · obtain ⟨hrun, hfirst⟩ := hnext (hdue.mp hrotate)
      rw [runScheduledEvents_rotate hin.current hin.next hin.set hrotate,
        getNextTimePeriodNum_eq h ha hfirst]
      refine ⟨_, rfl, h, ha, ?_, rfl, rotationTime_ne_zero ns⟩
      show some (runOf last) = some (runOf ns - 1)
      rw [hrun, Nat.add_sub_cancel]
    · have hrun : runOf ns = runOf last := not_not.mp fun hne => hrotate (hdue.mpr hne)
      rw [runScheduledEvents_stay hin.current hin.next hin.set hrotate]
      refine ⟨_, rfl, h, ha, ?_, ?_, hin.set⟩
      · rw [hrun, hin.current]
      · rw [hrun, hin.next]

theorem placedIn_step (hp : Placed testing s) (hok : OnTime s ns)
    (hs : (system testing).step s ns s') :
    s'.last = some ns ∧ PlacedIn testing ns s'.service := by
  obtain ⟨_, h, hround⟩ := hs
  obtain ⟨service, hservice, hin⟩ := placedIn_round hp h hok
  rw [hservice] at hround
  obtain rfl := Option.some.inj hround
  exact ⟨rfl, hin⟩

theorem placed_inductive : Inductive (system testing) OnTime (Placed testing) where
  init := by
    rintro _ rfl
    exact rfl
  step s ns s' hp hok hs := by
    obtain ⟨hlast, hin⟩ := placedIn_step hp hok hs
    rw [Placed, hlast]
    exact hin

variable {sha3 : Bytes → Block 32}

theorem PlacedIn.rings (h : PlacedIn testing ns service) :
    ∃ rings, hsdirRings sha3 testing ns = some rings ∧
      service.descCurrent = some rings.storeFirst.tp ∧
      service.descNext = some rings.storeSecond.tp ∧
      rings.storeSecond.tp = rings.storeFirst.tp + 1 ∧
      ∀ tp useSecond, (tp, useSecond) ∈ uploads service → (uploadRing rings useSecond).tp = tp := by
  refine ⟨_, hsdirRings_eq sha3 h.whole h.late, h.current, h.next,
    (Nat.sub_add_cancel (runOf_pos h.late)).symm, fun tp useSecond hmem => ?_⟩
  rw [uploads, h.current, h.next] at hmem
  simp only [Option.map_some, Option.toList_some, List.singleton_append, List.mem_cons,
    List.not_mem_nil, or_false, Prod.mk.injEq] at hmem
  rcases hmem with ⟨rfl, rfl⟩ | ⟨rfl, rfl⟩
  · rfl
  · rfl

theorem fetch_of_near {tc : Bool} {client : Consensus} {rings : Indexes Ring}
    (hclient : WholeRun tc client) (hv : getVotingInterval client = getVotingInterval ns)
    (hafter : client.validAfter ≤ ns.validAfter + getPhaseDuration ns)
    (hbefore : ns.validAfter ≤ client.validAfter + getPhaseDuration client)
    (hlate : 2 ≤ runOf ns) (hrings : hsdirRings sha3 tc client = some rings) :
    rings.fetch.tp = runOf ns - 1 ∨ rings.fetch.tp = runOf ns := by
  have htwo : 2 * getProtocolRunDuration ns ≤ ns.validAfter :=
    (Nat.mul_le_mul_right _ hlate).trans (Nat.div_mul_le_self _ _)
  have ha : getProtocolRunDuration client ≤ client.validAfter := by
    simp only [getProtocolRunDuration_eq, getPhaseDuration_eq, hv] at *
    omega
  have hfetch : rings.fetch.tp = fetchPeriod client := by
    obtain rfl := Option.some.inj (hrings.symm.trans (hsdirRings_eq sha3 hclient ha))
    show (if inSecondPhase client client.validAfter then _ else _ : Ring).tp = fetchPeriod client
    rw [fetchPeriod]
    split_ifs <;> rfl
  rw [hfetch]
  exact fetchPeriod_stored hv hafter hbefore ha

/-- In a run whose consensuses are on time, every round leaves the descriptors on the rings of its
consensus, and one that a client may still ask for is not thrown away. -/
theorem desc_on_rings (hr : Reached (system testing) OnTime s) :
    (∀ ns, s.last = some ns → ∃ rings, hsdirRings sha3 testing ns = some rings ∧
      s.service.descCurrent = some rings.storeFirst.tp ∧
      s.service.descNext = some rings.storeSecond.tp ∧
      rings.storeSecond.tp = rings.storeFirst.tp + 1 ∧
      ∀ tp useSecond, (tp, useSecond) ∈ uploads s.service →
        (uploadRing rings useSecond).tp = tp) ∧
    (∀ ns, WholeRun testing ns → OnTime s ns →
      ∃ service, runScheduledEvents testing ns s.service = some service) ∧
    ∀ ns s', OnTime s ns → (system testing).step s ns s' →
      ∀ tp, s.service.descCurrent = some tp ∨ s.service.descNext = some tp →
        s'.service.descCurrent ≠ some tp → s'.service.descNext ≠ some tp →
        ∀ tc client rings, WholeRun tc client →
          getVotingInterval client = getVotingInterval ns →
          client.validAfter ≤ ns.validAfter + getPhaseDuration ns →
          ns.validAfter ≤ client.validAfter + getPhaseDuration client →
          hsdirRings sha3 tc client = some rings → rings.fetch.tp ≠ tp := by
  have hp : Placed testing s := hr.invariant placed_inductive
  refine ⟨fun ns hlast => ?_, fun ns h hok => ?_, ?_⟩
  · rw [Placed, hlast] at hp
    exact PlacedIn.rings hp
  · obtain ⟨service, hservice, _⟩ := placedIn_round hp h hok
    exact ⟨service, hservice⟩
  · intro ns s' hok hs tp hhad hcurrent hnext tc client rings hclient hv hafter hbefore hrings
    obtain ⟨_, hin'⟩ := placedIn_step hp hok hs
    cases hlast : s.last with
    | none =>
      rw [Placed, hlast] at hp
      rw [show s.service = _ from hp] at hhad
      simp at hhad
    | some last =>
      rw [Placed, hlast] at hp
      have hin : PlacedIn testing last s.service := hp
      have hpos := runOf_pos hin.late
      rw [hin.current, hin.next] at hhad
      rw [hin'.current] at hcurrent
      rw [hin'.next] at hnext
      simp only [Option.some.injEq, ne_eq] at hhad hcurrent hnext
      obtain ⟨_, hrun⟩ := hok.2 last hlast
      by_cases hsame : runOf ns = runOf last
      · omega
      · obtain ⟨hsucc, _⟩ := hrun hsame
        have hfetch := fetch_of_near hclient hv hafter hbefore (by omega) hrings
        omega

theorem hour_pos : 0 < 3600 := by decide

def hour (k : ℕ) : Consensus := exampleConsensus (3600 * k) 3600 hour_pos

def startedLate : State :=
  ⟨⟨some 99, some 100, 3600 * 2424⟩, some (hour 2423)⟩

theorem step_startedLate : (system false).step ⟨⟨none, none, 0⟩, none⟩ (hour 2423) startedLate :=
  ⟨fun _ hlast => (Option.some_ne_none _ hlast.symm).elim, by rfl, by rfl⟩

/-- The consensus of the next hour is on time. -/
theorem desc_on_rings_next_hour : ∃ s rings,
    Reached (system false) OnTime s ∧ s.last = some (hour 2424) ∧
      hsdirRings (fun _ => Bytes.zeroFill 32 []) false (hour 2424) = some rings ∧
      s.service.descCurrent = some rings.storeFirst.tp ∧
      s.service.descNext = some rings.storeSecond.tp := by
  have hstarted : Reached (system false) OnTime startedLate := by
    refine .step (.init rfl) ⟨by decide, ?_⟩ step_startedLate
    intro last hlast
    exact (Option.some_ne_none _ hlast.symm).elim
  let s : State := ⟨⟨some 100, some 101, 3600 * 2448⟩, some (hour 2424)⟩
  have hs : Reached (system false) OnTime s := by
    refine .step (a := hour 2424) hstarted ⟨by decide, ?_⟩ ⟨?_, by rfl, by rfl⟩
    · intro last hlast
      obtain rfl := Option.some.inj hlast
      decide
    · intro last hlast
      obtain rfl := Option.some.inj hlast
      decide
  obtain ⟨rings, hrings, hcurrent, hnext, _, _⟩ := (desc_on_rings hs).1 (hour 2424) rfl
  exact ⟨s, rings, hs, rfl, hrings, hcurrent, hnext⟩

/-- The consensuses of half a day are missed: the next descriptor is for the period behind the one
that nodes have their second ring for. -/
theorem late_rotation : ∃ s rings,
    Reached (system false) (fun _ _ => True) s ∧ s.last = some (hour 2436) ∧
      hsdirRings (fun _ => Bytes.zeroFill 32 []) false (hour 2436) = some rings ∧
      rings.storeSecond.tp = 101 ∧ s.service.descNext = some 102 := by
  let s : State := ⟨⟨some 100, some 102, 3600 * 2448⟩, some (hour 2436)⟩
  have hs : Reached (system false) (fun _ _ => True) s := by
    refine .step (a := hour 2436) (.step (.init rfl) trivial step_startedLate) trivial
      ⟨?_, by rfl, by rfl⟩
    intro last hlast
    obtain rfl := Option.some.inj hlast
    decide
  refine ⟨s, _, hs, rfl, hsdirRings_eq _ (by rfl) (by decide), ?_, rfl⟩
  decide

end HsDescRotation
