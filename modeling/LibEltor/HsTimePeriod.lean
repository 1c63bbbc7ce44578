/-
Time periods of onion services and the directory ring of a node (`hs_common.c`,
`node_set_hsdir_index`).

A time period is as long as a run of the shared-random protocol and begins half a run later.  With
`q` the number of the run that a consensus is from, its SRVs are those of the periods `q - 1` and
`q`, and these are the two periods that a service stores descriptors for, however far the run has
gone (`hsdirRings_eq`).  A client asks for the one that has begun.
-/
import LibEltor.SharedRandomState
import Mathlib.Order.Bounds.Basic

open Bytes SharedRandom

namespace HsTimePeriod

abbrev Srv := Block 32

/-- A consensus that is reasonably live, with what it says about SRVs and periods. -/
structure Consensus where
  validAfter : ℕ
  freshUntil : ℕ
  currentSrv : Option Srv
  previousSrv : Option Srv
  hsdirInterval : Option ℤ
  fresh : validAfter < freshUntil

def getVotingInterval (ns : Consensus) : ℕ := ns.freshUntil - ns.validAfter

def getPhaseDuration (ns : Consensus) : ℕ := sharedRandomNRounds * getVotingInterval ns

def getProtocolRunDuration (ns : Consensus) : ℕ :=
  sharedRandomNRounds * sharedRandomNPhases * getVotingInterval ns

def getStartTimeOfCurrentProtocolRun (ns : Consensus) : ℕ :=
  let currRoundSlot :=
    ns.validAfter / getVotingInterval ns % (sharedRandomNRounds * sharedRandomNPhases)
  ns.validAfter - currRoundSlot * getVotingInterval ns

/-- In minutes; `testing` is `TestingTorNetwork`. -/
def getTimePeriodLength (testing : Bool) (ns : Consensus) : ℕ :=
  if testing then getProtocolRunDuration ns / 60
  else (max 30 (min 14400 (ns.hsdirInterval.getD 1440))).toNat

/-- None where an assertion fails or the length is zero; `now` may be 0 for a time not set. -/
def getTimePeriodNum (testing : Bool) (ns : Consensus) (now : ℕ) : Option ℕ :=
  let currentTime := if now ≠ 0 then now else ns.validAfter
  let timePeriodLength := getTimePeriodLength testing ns
  let minutesSinceEpoch := currentTime / 60
  let timePeriodRotationOffset := getPhaseDuration ns / 60
  if timePeriodRotationOffset < minutesSinceEpoch then
    if timePeriodLength = 0 then none
    else some ((minutesSinceEpoch - timePeriodRotationOffset) / timePeriodLength)
  else none

def getNextTimePeriodNum (testing : Bool) (ns : Consensus) (now : ℕ) : Option ℕ :=
  (getTimePeriodNum testing ns now).map fun num => num + 1

/-- A `uint64_t`: the period before the first has the greatest number. -/
def getPreviousTimePeriodNum (testing : Bool) (ns : Consensus) (now : ℕ) : Option ℕ :=
  (getTimePeriodNum testing ns now).map fun num => if num = 0 then 2 ^ 64 - 1 else num - 1

def getStartTimeOfNextTimePeriod (testing : Bool) (ns : Consensus) (now : ℕ) : Option ℕ :=
  (getNextTimePeriodNum testing ns now).map fun nextTimePeriodNum =>
    nextTimePeriodNum * getTimePeriodLength testing ns * 60 + getPhaseDuration ns

def inPeriodBetweenTpAndSrv (testing : Bool) (ns : Consensus) : Option Bool :=
  let srvStartTime := getStartTimeOfCurrentProtocolRun ns
  (getStartTimeOfNextTimePeriod testing ns srvStartTime).map fun tpStartTime =>
    !decide (srvStartTime ≤ ns.validAfter ∧ ns.validAfter < tpStartTime)

/-! ### The rings of a node -/

def srvDisasterPrefix : Bytes := ascii "shared-random-disaster"

def hsdirIndexPrefix : Bytes := ascii "node-idx"

variable (sha3 : Bytes → Block 32)

def int8 (n : ℕ) : Bytes := be64 (UInt64.ofNat n)

def computeDisasterSrv (timePeriodLength timePeriodNum : ℕ) : Srv :=
  sha3 (srvDisasterPrefix ++ int8 timePeriodLength ++ int8 timePeriodNum)

def getCurrentSrv (testing : Bool) (ns : Consensus) (timePeriodNum : ℕ) : Srv :=
  ns.currentSrv.getD (computeDisasterSrv sha3 (getTimePeriodLength testing ns) timePeriodNum)

def getPreviousSrv (testing : Bool) (ns : Consensus) (timePeriodNum : ℕ) : Srv :=
  ns.previousSrv.getD (computeDisasterSrv sha3 (getTimePeriodLength testing ns) timePeriodNum)

structure Ring where
  tp : ℕ
  srv : Srv
deriving DecidableEq

def buildHsdirIndex (timePeriodLength : ℕ) (identity : Block 32) (ring : Ring) : Block 32 :=
  sha3 (hsdirIndexPrefix ++ identity.toList ++ ring.srv.toList ++ int8 ring.tp ++
    int8 timePeriodLength)

structure Indexes (α : Type) where
  fetch : α
  storeFirst : α
  storeSecond : α

def hsdirRings (testing : Bool) (ns : Consensus) : Option (Indexes Ring) := do
  let currentTimePeriodNum ← getTimePeriodNum testing ns 0
  let nextTimePeriodNum ← getNextTimePeriodNum testing ns 0
  let previousTimePeriodNum ← getPreviousTimePeriodNum testing ns 0
  let fetchTp := currentTimePeriodNum
  let between ← inPeriodBetweenTpAndSrv testing ns
  let (fetchSrv, storeFirstTp, storeSecondTp) :=
    if between then
      (getCurrentSrv sha3 testing ns fetchTp, previousTimePeriodNum, currentTimePeriodNum)
    else (getPreviousSrv sha3 testing ns fetchTp, currentTimePeriodNum, nextTimePeriodNum)
  some {
    fetch := ⟨fetchTp, fetchSrv⟩
    storeFirst := ⟨storeFirstTp, getPreviousSrv sha3 testing ns storeFirstTp⟩
    storeSecond := ⟨storeSecondTp, getCurrentSrv sha3 testing ns storeSecondTp⟩ }

def nodeSetHsdirIndex (testing : Bool) (ns : Consensus) (identity : Block 32) :
    Option (Indexes (Block 32)) := do
  let rings ← hsdirRings sha3 testing ns
  let between ← inPeriodBetweenTpAndSrv testing ns
  let build := buildHsdirIndex sha3 (getTimePeriodLength testing ns) identity
  let fetch := build rings.fetch
  some {
    fetch
    storeFirst := if !between then fetch else build rings.storeFirst
    storeSecond := if between then fetch else build rings.storeSecond }

/-! ### Where a time lies -/

variable {sha3} {testing : Bool} {ns : Consensus} {t : ℕ}

def WholeRun (testing : Bool) (ns : Consensus) : Prop :=
  60 * getTimePeriodLength testing ns = getProtocolRunDuration ns

def runAt (ns : Consensus) (t : ℕ) : ℕ := t / getProtocolRunDuration ns

def inSecondPhase (ns : Consensus) (t : ℕ) : Bool :=
  decide (getPhaseDuration ns ≤ t % getProtocolRunDuration ns)

theorem getVotingInterval_pos (ns : Consensus) : 0 < getVotingInterval ns :=
  Nat.sub_pos_of_lt ns.fresh

theorem getPhaseDuration_eq (ns : Consensus) :
    getPhaseDuration ns = 12 * getVotingInterval ns := rfl

theorem getProtocolRunDuration_eq (ns : Consensus) :
    getProtocolRunDuration ns = 24 * getVotingInterval ns := rfl

theorem WholeRun.durations (h : WholeRun testing ns) : ∃ o, 0 < o ∧ getVotingInterval ns = 5 * o ∧
    getTimePeriodLength testing ns = 2 * o ∧ getProtocolRunDuration ns = 120 * o ∧
    getPhaseDuration ns = 60 * o := by
  have hpos := getVotingInterval_pos ns
  have hlen : 60 * getTimePeriodLength testing ns = 24 * getVotingInterval ns := h
  rw [getProtocolRunDuration_eq, getPhaseDuration_eq]
  exact ⟨getVotingInterval ns / 5, by omega, by omega, by omega, by omega, by omega⟩

theorem getTimePeriodNum_zero (testing : Bool) (ns : Consensus) :
    getTimePeriodNum testing ns 0 = getTimePeriodNum testing ns ns.validAfter := by
  have htime : (if ns.validAfter ≠ 0 then ns.validAfter else ns.validAfter) = ns.validAfter := by
    split_ifs <;> rfl
  simp only [getTimePeriodNum, htime, ne_eq, not_true_eq_false, if_false]

theorem period_quotient {o q s : ℕ} (ho : 0 < o) (hs : s < 120 * o) (hq : 0 < q) :
    ((120 * o * q + s) / 60 - o) / (2 * o) = if 60 * o ≤ s then q else q - 1 := by
  obtain ⟨p, rfl⟩ : ∃ p, q = p + 1 := ⟨q - 1, by omega⟩
  have hminutes : (120 * o * (p + 1) + s) / 60 = 2 * o * p + 2 * o + s / 60 := by
    rw [show 120 * o * (p + 1) + s = s + 60 * (2 * o * p + 2 * o) by ring,
      Nat.add_mul_div_left _ _ (by decide)]
    omega
  rw [hminutes]
  split_ifs with hphase
  · apply Nat.div_eq_of_lt_le
    · rw [show (p + 1) * (2 * o) = 2 * o * p + 2 * o by ring]
      omega
    · rw [show (p + 1 + 1) * (2 * o) = 2 * o * p + 2 * o + 2 * o by ring]
      omega
  · apply Nat.div_eq_of_lt_le
    · rw [show (p + 1 - 1) * (2 * o) = 2 * o * p by rw [Nat.add_sub_cancel]; ring]
      omega
    · rw [show (p + 1 - 1 + 1) * (2 * o) = 2 * o * p + 2 * o by rw [Nat.add_sub_cancel]; ring]
      omega

theorem getTimePeriodNum_eq (h : WholeRun testing ns) (ht : getProtocolRunDuration ns ≤ t) :
    getTimePeriodNum testing ns t =
      some (if inSecondPhase ns t then runAt ns t else runAt ns t - 1) := by
  obtain ⟨o, ho, hv, hlen, hrun, hphase⟩ := h.durations
  have hsplit : t = 120 * o * (t / (120 * o)) + t % (120 * o) := (Nat.div_add_mod _ _).symm
  have hoffset : 60 * o / 60 = o := by omega
  rw [hrun] at ht
  have hlt : o < t / 60 := by omega
  have hne : ¬ 2 * o = 0 := by omega
  have hquot := period_quotient ho (Nat.mod_lt t (by omega : 0 < 120 * o))
    (Nat.div_pos ht (by omega))
  rw [← hsplit] at hquot
  simp only [getTimePeriodNum, runAt, inSecondPhase, hrun, hphase, hlen, hoffset,
    if_pos (show t ≠ 0 by omega), if_pos hlt, if_neg hne, hquot, decide_eq_true_eq]

theorem getStartTimeOfCurrentProtocolRun_eq (ns : Consensus) :
    getStartTimeOfCurrentProtocolRun ns =
      getProtocolRunDuration ns * runAt ns ns.validAfter + ns.validAfter % getVotingInterval ns := by
  have hslot := Nat.div_add_mod ns.validAfter (getVotingInterval ns)
  have hround := Nat.div_add_mod (ns.validAfter / getVotingInterval ns) 24
  have hrun : ns.validAfter / getVotingInterval ns / 24 =
      ns.validAfter / (24 * getVotingInterval ns) := by
    rw [Nat.div_div_eq_div_mul, Nat.mul_comm]
  rw [hrun] at hround
  rw [← hround, Nat.mul_add] at hslot
  rw [getProtocolRunDuration_eq, runAt, getProtocolRunDuration_eq]
  show ns.validAfter - ns.validAfter / getVotingInterval ns % 24 * getVotingInterval ns = _
  rw [Nat.mul_comm _ (getVotingInterval ns),
    show 24 * getVotingInterval ns * (ns.validAfter / (24 * getVotingInterval ns)) =
      getVotingInterval ns * (24 * (ns.validAfter / (24 * getVotingInterval ns))) by ring]
  omega

theorem inPeriodBetweenTpAndSrv_eq (h : WholeRun testing ns)
    (ha : getProtocolRunDuration ns ≤ ns.validAfter) :
    inPeriodBetweenTpAndSrv testing ns = some (inSecondPhase ns ns.validAfter) := by
  obtain ⟨o, ho, hv, hlen, hrun, hphase⟩ := h.durations
  have hstart := getStartTimeOfCurrentProtocolRun_eq ns
  have hq : 0 < runAt ns ns.validAfter := Nat.div_pos ha (by omega)
  have hmod : ns.validAfter % getVotingInterval ns < 5 * o := by
    rw [hv]
    exact Nat.mod_lt _ (by omega)
  have hmodle : ns.validAfter % getVotingInterval ns ≤ ns.validAfter % getProtocolRunDuration ns := by
    rw [getProtocolRunDuration_eq, ← Nat.mod_mod_of_dvd ns.validAfter (Dvd.intro_left 24 rfl)]
    exact Nat.mod_le _ _
  have hsplit := Nat.div_add_mod ns.validAfter (getProtocolRunDuration ns)
  -- The run began in its first phase, so the next period is the one that begins in it.
  have hdiv : getStartTimeOfCurrentProtocolRun ns / getProtocolRunDuration ns =
      runAt ns ns.validAfter := by
    rw [hstart, Nat.mul_add_div (by omega), Nat.div_eq_of_lt (by omega), Nat.add_zero]
  have hfirst : inSecondPhase ns (getStartTimeOfCurrentProtocolRun ns) = false := by
    rw [inSecondPhase, hstart, Nat.mul_add_mod, Nat.mod_eq_of_lt (by omega)]
    exact decide_eq_false (by omega)
  have hnext : getStartTimeOfNextTimePeriod testing ns (getStartTimeOfCurrentProtocolRun ns) =
      some (getProtocolRunDuration ns * runAt ns ns.validAfter + getPhaseDuration ns) := by
    have hle : getProtocolRunDuration ns ≤ getStartTimeOfCurrentProtocolRun ns := by
      have := Nat.mul_le_mul_left (getProtocolRunDuration ns) hq
      omega
    rw [getStartTimeOfNextTimePeriod, getNextTimePeriodNum, getTimePeriodNum_eq h hle, hfirst,
      Option.map_some, Option.map_some, if_neg (by decide), runAt, hdiv,
      show runAt ns ns.validAfter - 1 + 1 = runAt ns ns.validAfter by omega, ← h]
    congr 2
    ring
  rw [inPeriodBetweenTpAndSrv, hnext, Option.map_some, inSecondPhase]
  congr 1
  rw [Bool.eq_iff_iff]
  simp only [Bool.not_eq_true', decide_eq_false_iff_not, decide_eq_true_eq]
  have hrunAt : runAt ns ns.validAfter = ns.validAfter / getProtocolRunDuration ns := rfl
  rw [hstart, hrunAt]
  omega

variable (sha3) in
theorem hsdirRings_eq (h : WholeRun testing ns) (ha : getProtocolRunDuration ns ≤ ns.validAfter) :
    let q := runAt ns ns.validAfter
    let first : Ring := ⟨q - 1, getPreviousSrv sha3 testing ns (q - 1)⟩
    let second : Ring := ⟨q, getCurrentSrv sha3 testing ns q⟩
    hsdirRings sha3 testing ns =
      some ⟨if inSecondPhase ns ns.validAfter then second else first, first, second⟩ := by
  have hq : 0 < runAt ns ns.validAfter :=
    Nat.div_pos ha (by have := getVotingInterval_pos ns; rw [getProtocolRunDuration_eq]; omega)
  have hnum := getTimePeriodNum_eq h ha
  rw [← getTimePeriodNum_zero] at hnum
  simp only [hsdirRings, getNextTimePeriodNum, getPreviousTimePeriodNum, hnum,
    inPeriodBetweenTpAndSrv_eq h ha, Option.map_some, Option.bind_eq_bind, Option.bind_some]
  cases inSecondPhase ns ns.validAfter with
  | true => simp [hq.ne']
  | false => simp [Nat.sub_add_cancel hq]

/-! ### The same index for the same ring -/

theorem nodeSetHsdirIndex_eq (testing : Bool) (ns : Consensus) (identity : Block 32) :
    nodeSetHsdirIndex sha3 testing ns identity =
      (hsdirRings sha3 testing ns).map fun rings =>
        let build := buildHsdirIndex sha3 (getTimePeriodLength testing ns) identity
        ⟨build rings.fetch, build rings.storeFirst, build rings.storeSecond⟩ := by
  rw [nodeSetHsdirIndex, hsdirRings]
  cases hnum : getTimePeriodNum testing ns 0 with
  | none => rfl
  | some num =>
    cases hbetween : inPeriodBetweenTpAndSrv testing ns with
    | none => simp [getNextTimePeriodNum, getPreviousTimePeriodNum, hnum]
    | some between =>
      cases between <;> simp [getNextTimePeriodNum, getPreviousTimePeriodNum, hnum]

def OnStoredRing (sha3 : Bytes → Block 32) (tc ts : Bool) (client service : Consensus) : Prop :=
  ∃ c s, hsdirRings sha3 tc client = some c ∧ hsdirRings sha3 ts service = some s ∧
    (c.fetch = s.storeFirst ∨ c.fetch = s.storeSecond) ∧
    ∀ identity, ∃ i j, nodeSetHsdirIndex sha3 tc client identity = some i ∧
      nodeSetHsdirIndex sha3 ts service identity = some j ∧
      (c.fetch = s.storeFirst → i.fetch = j.storeFirst) ∧
      (c.fetch = s.storeSecond → i.fetch = j.storeSecond)

/-- Two consensuses of one network, not further apart than one phase.  `srvOf (q + 1)` is the SRV
that run `q` begins with, and `tc` and `ts` are their `TestingTorNetwork`. -/
structure Consistent (tc ts : Bool) (client service : Consensus)
    (srvOf : ℕ → Option Srv) : Prop where
  interval : getVotingInterval client = getVotingInterval service
  minutes : 60 ∣ getVotingInterval client
  clientLength : getTimePeriodLength tc client = 24 * (getVotingInterval client / 60)
  serviceLength : getTimePeriodLength ts service = 24 * (getVotingInterval service / 60)
  clientAligned : getVotingInterval client ∣ client.validAfter
  serviceAligned : getVotingInterval service ∣ service.validAfter
  clientLate : client.validAfter ≤ service.validAfter + getPhaseDuration service
  serviceLate : service.validAfter ≤ client.validAfter + getPhaseDuration client
  clientSrv : client.currentSrv = srvOf (runAt client client.validAfter + 1) ∧
    client.previousSrv = srvOf (runAt client client.validAfter)
  serviceSrv : service.currentSrv = srvOf (runAt service service.validAfter + 1) ∧
    service.previousSrv = srvOf (runAt service service.validAfter)

section Agreement

variable {tc ts : Bool} {client service : Consensus} {srvOf : ℕ → Option Srv}

theorem Consistent.wholeRun_client (h : Consistent tc ts client service srvOf) :
    WholeRun tc client := by
  have hminutes := Nat.mul_div_cancel' h.minutes
  rw [WholeRun, h.clientLength, getProtocolRunDuration_eq]
  omega

theorem Consistent.wholeRun_service (h : Consistent tc ts client service srvOf) :
    WholeRun ts service := by
  have hminutes := Nat.mul_div_cancel' (h.interval ▸ h.minutes)
  rw [WholeRun, h.serviceLength, getProtocolRunDuration_eq]
  omega

theorem Consistent.length_eq (h : Consistent tc ts client service srvOf) :
    getTimePeriodLength tc client = getTimePeriodLength ts service := by
  rw [h.clientLength, h.serviceLength, h.interval]

theorem onStoredRing_iff
    (hlen : getTimePeriodLength tc client = getTimePeriodLength ts service) :
    OnStoredRing sha3 tc ts client service ↔
      ∃ c s, hsdirRings sha3 tc client = some c ∧ hsdirRings sha3 ts service = some s ∧
        (c.fetch = s.storeFirst ∨ c.fetch = s.storeSecond) := by
  constructor
  · rintro ⟨c, s, hc, hs, hring, _⟩
    exact ⟨c, s, hc, hs, hring⟩
  · rintro ⟨c, s, hc, hs, hring⟩
    refine ⟨c, s, hc, hs, hring, fun identity => ?_⟩
    rw [nodeSetHsdirIndex_eq, nodeSetHsdirIndex_eq, hc, hs, hlen]
    refine ⟨_, _, rfl, rfl, fun heq => ?_, fun heq => ?_⟩
    · exact congrArg (buildHsdirIndex sha3 _ identity) heq
    · exact congrArg (buildHsdirIndex sha3 _ identity) heq

variable (sha3) in
theorem hsdirRings_firstRun (h : WholeRun testing ns) (hv : getVotingInterval ns ∣ ns.validAfter)
    (hminutes : 60 ∣ getVotingInterval ns) (ha : ns.validAfter < getProtocolRunDuration ns) :
    hsdirRings sha3 testing ns =
      if getPhaseDuration ns < ns.validAfter then
        let first : Ring := ⟨0, getPreviousSrv sha3 testing ns 0⟩
        some ⟨first, first, ⟨1, getCurrentSrv sha3 testing ns 1⟩⟩
      else none := by
  have hpos := getVotingInterval_pos ns
  obtain ⟨m, hm⟩ := hminutes
  obtain ⟨k, hk⟩ := hv
  have hphase : getPhaseDuration ns = 720 * m := by rw [getPhaseDuration_eq]; omega
  have hrun : getProtocolRunDuration ns = 1440 * m := by rw [getProtocolRunDuration_eq]; omega
  have hlen : getTimePeriodLength testing ns = 24 * m := by
    have : 60 * getTimePeriodLength testing ns = getProtocolRunDuration ns := h
    omega
  have hminute : ns.validAfter / 60 = m * k := by
    rw [hk, hm, Nat.mul_assoc, Nat.mul_div_cancel_left _ (by decide)]
  have hsixty : ns.validAfter = 60 * (m * k) := by rw [hk, hm, Nat.mul_assoc]
  have hoffset : 720 * m / 60 = 12 * m := by omega
  have hnum : getTimePeriodNum testing ns 0 =
      if getPhaseDuration ns < ns.validAfter then some 0 else none := by
    rw [getTimePeriodNum]
    simp only [ne_eq, not_true_eq_false, if_false, hminute, hphase, hoffset, hlen]
    by_cases hlt : 12 * m < m * k
    · rw [if_pos hlt, if_neg (by omega), if_pos (by omega), Nat.div_eq_of_lt (by omega)]
    · rw [if_neg hlt, if_neg (by omega)]
  by_cases hlt : getPhaseDuration ns < ns.validAfter
  · rw [if_pos hlt] at hnum ⊢
    have hstart : getStartTimeOfCurrentProtocolRun ns = 0 := by
      rw [getStartTimeOfCurrentProtocolRun_eq, runAt, Nat.div_eq_of_lt ha, hk, Nat.mul_mod_right,
        Nat.mul_zero]
    have hbetween : inPeriodBetweenTpAndSrv testing ns = some false := by
      have hnext : ns.validAfter < 1 * getTimePeriodLength testing ns * 60 +
          getPhaseDuration ns := by
        rw [hlen]
        omega
      simp only [inPeriodBetweenTpAndSrv, hstart, getStartTimeOfNextTimePeriod,
        getNextTimePeriodNum, hnum, Option.map_some, Nat.zero_add]
      rw [decide_eq_true ⟨Nat.zero_le _, hnext⟩]
      rfl
    simp [hsdirRings, getNextTimePeriodNum, getPreviousTimePeriodNum, hnum, hbetween]
  · rw [if_neg hlt] at hnum ⊢
    simp [hsdirRings, hnum]

def ringOf (sha3 : Bytes → Block 32) (timePeriodLength : ℕ) (srvOf : ℕ → Option Srv) (p : ℕ) :
    Ring :=
  ⟨p, (srvOf (p + 1)).getD (computeDisasterSrv sha3 timePeriodLength p)⟩

def fetchPeriod (ns : Consensus) : ℕ :=
  if inSecondPhase ns ns.validAfter then runAt ns ns.validAfter else runAt ns ns.validAfter - 1

variable (sha3) in
theorem hsdirRings_ringOf (h : WholeRun testing ns)
    (ha : getProtocolRunDuration ns ≤ ns.validAfter)
    (hsrv : ns.currentSrv = srvOf (runAt ns ns.validAfter + 1) ∧
      ns.previousSrv = srvOf (runAt ns ns.validAfter)) :
    hsdirRings sha3 testing ns =
      let ring := ringOf sha3 (getTimePeriodLength testing ns) srvOf
      some ⟨ring (fetchPeriod ns), ring (runAt ns ns.validAfter - 1),
        ring (runAt ns ns.validAfter)⟩ := by
  have hq : 0 < runAt ns ns.validAfter :=
    Nat.div_pos ha (by have := getVotingInterval_pos ns; rw [getProtocolRunDuration_eq]; omega)
  have hfirst : (⟨runAt ns ns.validAfter - 1,
      getPreviousSrv sha3 testing ns (runAt ns ns.validAfter - 1)⟩ : Ring) =
      ringOf sha3 (getTimePeriodLength testing ns) srvOf (runAt ns ns.validAfter - 1) := by
    rw [ringOf, getPreviousSrv, hsrv.2, Nat.sub_add_cancel hq]
  have hsecond : (⟨runAt ns ns.validAfter,
      getCurrentSrv sha3 testing ns (runAt ns ns.validAfter)⟩ : Ring) =
      ringOf sha3 (getTimePeriodLength testing ns) srvOf (runAt ns ns.validAfter) := by
    rw [ringOf, getCurrentSrv, hsrv.1]
  rw [hsdirRings_eq sha3 h ha, hfirst, hsecond, fetchPeriod]
  split_ifs <;> rfl

theorem fetchPeriod_stored (hv : getVotingInterval client = getVotingInterval service)
    (hclient : client.validAfter ≤ service.validAfter + getPhaseDuration service)
    (hservice : service.validAfter ≤ client.validAfter + getPhaseDuration client)
    (ha : getProtocolRunDuration client ≤ client.validAfter) :
    fetchPeriod client = runAt service service.validAfter - 1 ∨
      fetchPeriod client = runAt service service.validAfter := by
  have hpos := getVotingInterval_pos service
  rw [getPhaseDuration_eq] at hclient hservice
  rw [getProtocolRunDuration_eq] at ha
  rw [hv] at hservice ha
  rw [fetchPeriod, inSecondPhase]
  simp only [runAt, getPhaseDuration_eq, getProtocolRunDuration_eq, hv, decide_eq_true_eq]
  generalize getVotingInterval service = v at *
  generalize client.validAfter = a at *
  generalize service.validAfter = b at *
  have hasplit := Nat.div_add_mod a (24 * v)
  have hbsplit := Nat.div_add_mod b (24 * v)
  have hamod := Nat.mod_lt a (by omega : 0 < 24 * v)
  have hbmod := Nat.mod_lt b (by omega : 0 < 24 * v)
  have haq : 0 < a / (24 * v) := Nat.div_pos ha (by omega)
  generalize a / (24 * v) = qa at *
  generalize b / (24 * v) = qb at *
  -- Two runs that are two apart are more than a phase apart.
  have hnot : ∀ x y : ℕ, x + 2 ≤ y → 24 * v * x + 48 * v ≤ 24 * v * y := fun x y hxy =>
    calc 24 * v * x + 48 * v = 24 * v * (x + 2) := by ring
      _ ≤ 24 * v * y := Nat.mul_le_mul_left _ hxy
  have hup : qa ≤ qb + 1 := by
    by_contra hgt
    have := hnot qb qa (by omega)
    omega
  have hdown : qb ≤ qa + 1 := by
    by_contra hgt
    have := hnot qa qb (by omega)
    omega
  obtain heq | heq | heq : qa = qb ∨ qa = qb + 1 ∨ qb = qa + 1 := by omega
  · subst heq
    split_ifs <;> omega
  · subst heq
    have hexpand : 24 * v * (qb + 1) = 24 * v * qb + 24 * v := by ring
    rw [if_neg (by omega)]
    omega
  · subst heq
    have hexpand : 24 * v * (qa + 1) = 24 * v * qa + 24 * v := by ring
    rw [if_pos (by omega)]
    omega

theorem Consistent.onStoredRing_iff (h : Consistent tc ts client service srvOf) :
    OnStoredRing sha3 tc ts client service ↔
      (getPhaseDuration client < client.validAfter ∧
        getPhaseDuration service < service.validAfter) ∧
      ((client.validAfter < getProtocolRunDuration client ↔
          service.validAfter < getProtocolRunDuration service) ∨
        getPreviousSrv sha3 tc client 0 = getPreviousSrv sha3 ts service 0) := by
  have hc := h.wholeRun_client
  have hs := h.wholeRun_service
  have hlen := h.length_eq
  have hv := h.interval
  have hpos := getVotingInterval_pos service
  have hrun : getProtocolRunDuration client = getProtocolRunDuration service := by
    rw [getProtocolRunDuration_eq, getProtocolRunDuration_eq, hv]
  have hphase : getPhaseDuration client = getPhaseDuration service := by
    rw [getPhaseDuration_eq, getPhaseDuration_eq, hv]
  have hhalf : getProtocolRunDuration service = 2 * getPhaseDuration service := by
    rw [getProtocolRunDuration_eq, getPhaseDuration_eq]
    omega
  have hphasepos : 0 < getPhaseDuration service := by
    rw [getPhaseDuration_eq]
    omega
  have hclientLate := h.clientLate
  have hserviceLate := h.serviceLate
  rw [HsTimePeriod.onStoredRing_iff hlen]
  by_cases ha : client.validAfter < getProtocolRunDuration client
  · have hcrings := hsdirRings_firstRun sha3 hc h.clientAligned h.minutes ha
    by_cases hac : getPhaseDuration client < client.validAfter
    swap
    · rw [if_neg hac] at hcrings
      simp [hcrings, hac]
    rw [if_pos hac] at hcrings
    by_cases hb : service.validAfter < getProtocolRunDuration service
    · have hsrings := hsdirRings_firstRun sha3 hs h.serviceAligned (hv ▸ h.minutes) hb
      have hsrv : getPreviousSrv sha3 tc client 0 = getPreviousSrv sha3 ts service 0 := by
        rw [getPreviousSrv, getPreviousSrv, h.clientSrv.2, h.serviceSrv.2, runAt, runAt,
          Nat.div_eq_of_lt ha, Nat.div_eq_of_lt hb, hlen]
      by_cases hbs : getPhaseDuration service < service.validAfter
      · rw [if_pos hbs] at hsrings
        simp [hcrings, hsrings, hsrv, hac, hbs]
      · rw [if_neg hbs] at hsrings
        simp [hsrings, hbs]
    · -- The service is in the run after, and its first period is period 0.
      have hq : runAt service service.validAfter = 1 :=
        Nat.div_eq_of_lt_le (by omega) (by omega)
      have hsrings := hsdirRings_eq sha3 hs (not_lt.mp hb)
      have hbs : getPhaseDuration service < service.validAfter := by omega
      rw [hq] at hsrings
      simp [hcrings, hsrings, ha, hb, hac, hbs]
  · by_cases hb : service.validAfter < getProtocolRunDuration service
    · have hsrings := hsdirRings_firstRun sha3 hs h.serviceAligned (hv ▸ h.minutes) hb
      by_cases hbs : getPhaseDuration service < service.validAfter
      swap
      · rw [if_neg hbs] at hsrings
        simp [hsrings, hbs]
      rw [if_pos hbs] at hsrings
      have hq : runAt client client.validAfter = 1 :=
        Nat.div_eq_of_lt_le (by omega) (by omega)
      have hfirst : inSecondPhase client client.validAfter = false := by
        rw [inSecondPhase, hrun, hphase, Nat.mod_eq_sub_mod (by omega), Nat.mod_eq_of_lt (by omega)]
        exact decide_eq_false (by omega)
      have hcrings := hsdirRings_eq sha3 hc (not_lt.mp ha)
      have hac : getPhaseDuration client < client.validAfter := by omega
      rw [hq, hfirst] at hcrings
      simp [hcrings, hsrings, ha, hb, hac, hbs]
    · have hcrings := hsdirRings_ringOf sha3 hc (not_lt.mp ha) h.clientSrv
      have hsrings := hsdirRings_ringOf sha3 hs (not_lt.mp hb) h.serviceSrv
      have hac : getPhaseDuration client < client.validAfter := by omega
      have hbs : getPhaseDuration service < service.validAfter := by omega
      rw [← hlen] at hsrings
      simp only [hcrings, hsrings, ha, hb, hac, hbs, Option.some.injEq, and_self, iff_self,
        true_or, iff_true]
      refine ⟨_, _, rfl, rfl, ?_⟩
      rcases fetchPeriod_stored hv hclientLate hserviceLate (not_lt.mp ha) with
        hperiod | hperiod
      · exact .inl (congrArg (ringOf sha3 (getTimePeriodLength tc client) srvOf) hperiod)
      · exact .inr (congrArg (ringOf sha3 (getTimePeriodLength tc client) srvOf) hperiod)

end Agreement

def StartsNextPeriod (testing : Bool) (ns : Consensus) (t : ℕ) : Prop :=
  ∃ num start, getTimePeriodNum testing ns t = some num ∧
    getStartTimeOfNextTimePeriod testing ns t = some start ∧
    IsLeast {t' | t < t' ∧ getTimePeriodNum testing ns t' = some (num + 1)} start

theorem getTimePeriodNum_isSome :
    (getTimePeriodNum testing ns t).isSome ↔
      getPhaseDuration ns / 60 < (if t ≠ 0 then t else ns.validAfter) / 60 ∧
        getTimePeriodLength testing ns ≠ 0 := by
  simp only [getTimePeriodNum]
  split_ifs <;> simp_all

theorem isLeast_period {num : ℕ} (h : getTimePeriodNum testing ns t = some num) :
    IsLeast {t' | t < t' ∧ getTimePeriodNum testing ns t' = some (num + 1)}
      ((num + 1) * getTimePeriodLength testing ns * 60 + getPhaseDuration ns / 60 * 60) := by
  obtain ⟨hlate, hlen⟩ := getTimePeriodNum_isSome.mp (Option.isSome_of_eq_some h)
  have hnum : ((if t ≠ 0 then t else ns.validAfter) / 60 - getPhaseDuration ns / 60) /
      getTimePeriodLength testing ns = num := by
    simpa only [getTimePeriodNum, if_pos hlate, if_neg hlen, Option.some.injEq] using h
  have hpos : 0 < getTimePeriodLength testing ns := Nat.pos_of_ne_zero hlen
  generalize hoffset : getPhaseDuration ns / 60 = o at *
  generalize hL : getTimePeriodLength testing ns = L at *
  have hbegin : L ≤ (num + 1) * L := Nat.le_mul_of_pos_left L (Nat.succ_pos num)
  have hbefore : (if t ≠ 0 then t else ns.validAfter) / 60 - o < (num + 1) * L := by
    rw [← hnum]
    exact Nat.lt_mul_of_div_lt (Nat.lt_succ_self _) hpos
  constructor
  · refine ⟨?_, ?_⟩
    · split_ifs at hbefore with ht
      · omega
      · omega
    · have hstart : ((num + 1) * L * 60 + o * 60) / 60 = (num + 1) * L + o := by omega
      simp only [getTimePeriodNum, hoffset, hL]
      rw [if_pos (show (num + 1) * L * 60 + o * 60 ≠ 0 by omega), hstart,
        if_pos (show o < (num + 1) * L + o by omega), if_neg hlen, Nat.add_sub_cancel,
        Nat.mul_div_cancel _ hpos]
  · rintro t' ⟨hlater, hperiod⟩
    obtain ⟨hlate', -⟩ := getTimePeriodNum_isSome.mp (Option.isSome_of_eq_some hperiod)
    have hne : t' ≠ 0 := by omega
    have hnum' : (t' / 60 - o) / L = num + 1 := by
      rw [hoffset, if_pos hne] at hlate'
      simpa only [getTimePeriodNum, hoffset, hL, if_pos hne, if_pos hlate', if_neg hlen,
        Option.some.injEq] using hperiod
    have hle : (num + 1) * L ≤ t' / 60 - o := by
      rw [← hnum']
      exact Nat.div_mul_le_self _ _
    omega

theorem startsNextPeriod_iff : StartsNextPeriod testing ns t ↔
    (getPhaseDuration ns / 60 < (if t ≠ 0 then t else ns.validAfter) / 60 ∧
      getTimePeriodLength testing ns ≠ 0) ∧ 60 ∣ getPhaseDuration ns := by
  rw [← getTimePeriodNum_isSome]
  constructor
  · rintro ⟨num, start, hnum, hstart, hleast⟩
    refine ⟨Option.isSome_of_eq_some hnum, ?_⟩
    have heq := hleast.unique (isLeast_period hnum)
    rw [getStartTimeOfNextTimePeriod, getNextTimePeriodNum, hnum] at hstart
    have hval : (num + 1) * getTimePeriodLength testing ns * 60 + getPhaseDuration ns = start :=
      Option.some.inj hstart
    omega
  · rintro ⟨hsome, hdvd⟩
    obtain ⟨num, hnum⟩ := Option.isSome_iff_exists.mp hsome
    have hleast := isLeast_period hnum
    rw [Nat.div_mul_cancel hdvd] at hleast
    refine ⟨num, _, hnum, ?_, hleast⟩
    rw [getStartTimeOfNextTimePeriod, getNextTimePeriodNum, hnum]
    rfl

variable (sha3) in
/-- Client and service agree on a ring when no assertion fails and the first run after the epoch
does not come between them; a period begins where it is said to when the phase duration is a whole
number of minutes. -/
theorem client_ring_stored_iff {tc ts : Bool} {client service : Consensus}
    {srvOf : ℕ → Option Srv} (h : Consistent tc ts client service srvOf) :
    (OnStoredRing sha3 tc ts client service ↔
      (getPhaseDuration client < client.validAfter ∧
        getPhaseDuration service < service.validAfter) ∧
      ((client.validAfter < getProtocolRunDuration client ↔
          service.validAfter < getProtocolRunDuration service) ∨
        getPreviousSrv sha3 tc client 0 = getPreviousSrv sha3 ts service 0)) ∧
    ∀ testing ns t, StartsNextPeriod testing ns t ↔
      (getPhaseDuration ns / 60 < (if t ≠ 0 then t else ns.validAfter) / 60 ∧
        getTimePeriodLength testing ns ≠ 0) ∧ 60 ∣ getPhaseDuration ns :=
  ⟨h.onStoredRing_iff, fun _ _ _ => startsNextPeriod_iff⟩

def exampleConsensus (validAfter interval : ℕ) (h : 0 < interval) : Consensus :=
  ⟨validAfter, validAfter + interval, none, none, none, by omega⟩

def exampleClient : Consensus := exampleConsensus (3600 * 1000) 3600 (by decide)

def exampleService : Consensus := exampleConsensus (3600 * 1012) 3600 (by decide)

/-- Half a day apart, with a run of one day. -/
theorem client_ring_stored_hours :
    OnStoredRing (fun _ => zeroFill 32 []) false false exampleClient exampleService ∧
      StartsNextPeriod false exampleClient 5000000 := by
  have h : Consistent false false exampleClient exampleService fun _ => none := by
    refine ⟨rfl, ?_, rfl, rfl, ?_, ?_, ?_, ?_, ⟨rfl, rfl⟩, ⟨rfl, rfl⟩⟩ <;> decide
  obtain ⟨hring, hstart⟩ := client_ring_stored_iff (fun _ => zeroFill 32 []) h
  refine ⟨hring.mpr ⟨by decide, .inl ?_⟩, (hstart false exampleClient 5000000).mpr (by decide)⟩
  decide

/-- A voting interval of twelve seconds, as a test network may have: the next period begins at
1080, and 1104 is what the code gives. -/
theorem start_of_next_period_late :
    ¬ StartsNextPeriod true (exampleConsensus 996 12 (by decide)) 1000 := by
  rintro ⟨num, start, hnum, hstart, hleast⟩
  have hnum3 : num = 3 := Option.some.inj (hnum.symm.trans (by decide))
  have hstart1104 : start = 1104 := Option.some.inj (hstart.symm.trans (by decide))
  subst hnum3 hstart1104
  have hle : 1104 ≤ 1080 := hleast.2 ⟨by decide, by decide⟩
  exact absurd hle (by decide)

end HsTimePeriod
