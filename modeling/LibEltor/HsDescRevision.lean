/-
Revision counters of the descriptors of an onion service (`set_descriptor_revision_counter`).

A counter is the encryption of the seconds since a run of the shared-random protocol began: the run
before for the current descriptor, the run of the consensus for the next one.  A descriptor becomes the
current one with the first consensus of a new run, so that the run stays the same for it.
-/
import LibEltor.CryptoOpe
import LibEltor.HsCache
import LibEltor.HsDescRotation
import Mathlib

open CryptoOpe HsDescRotation HsTimePeriod Transition

namespace HsDescRevision

def getStartTimeOfPreviousProtocolRun (ns : Consensus) : ℤ :=
  getStartTimeOfCurrentProtocolRun ns - getProtocolRunDuration ns

def srvStart (ns : Consensus) (isCurrent : Bool) : ℤ :=
  if isCurrent then getStartTimeOfPreviousProtocolRun ns else getStartTimeOfCurrentProtocolRun ns

def secondsSinceStartOfSrv (ns : Consensus) (now : ℕ) (isCurrent : Bool) : ℤ :=
  now - srvStart ns isCurrent + 1

/-- Inputs that are too big are cut, and the rest is converted to an `int`. -/
def opePlaintext (ns : Consensus) (now : ℕ) (isCurrent : Bool) : ℤ :=
  let seconds := secondsSinceStartOfSrv ns now isCurrent
  Int.bmod (if seconds > opeInputMax then opeInputMax else seconds) (2 ^ 32)

def setDescriptorRevisionCounter (ope : Ope) (ns : Consensus) (now : ℕ) (isCurrent : Bool) :
    Option ℕ :=
  cryptoOpeEncrypt ope (opePlaintext ns now isCurrent)

/-! ### Rounds -/

/-- An upload of a descriptor, and the consensus that it was made under. -/
structure Upload where
  now : ℕ
  ns : Consensus
  isCurrent : Bool
  counter : ℕ

def Upload.seconds (u : Upload) : ℤ := secondsSinceStartOfSrv u.ns u.now u.isCurrent

def Upload.plaintext (u : Upload) : ℤ := opePlaintext u.ns u.now u.isCurrent

/-- What has been uploaded of each of the two descriptors, the last upload first. -/
structure Uploads where
  current : List Upload
  next : List Upload

/-- One run of the scheduled events, and the descriptors that are to be uploaded in it. -/
structure Round where
  now : ℕ
  ns : Consensus
  uploadCurrent : Bool
  uploadNext : Bool

structure State where
  service : Service
  uploads : Uploads
  last : Option Round

/-- A descriptor takes its uploads along when it becomes the current one. -/
def rotateUploads (ns : Consensus) (s : State) : Uploads :=
  if shouldRotateDescriptors ns (runHousekeepingEvent ns s.service) then ⟨s.uploads.next, []⟩
  else s.uploads

/-- `key` has the stream of the cipher of each time period. -/
def uploadDescriptor (key : ℕ → Keystream) (r : Round) (isCurrent wanted : Bool)
    (desc : Option ℕ) (uploads : List Upload) : Option (List Upload) :=
  match desc with
  | none => some uploads
  | some tp =>
    if wanted then
      ((cryptoOpeNew (key tp)).bind fun ope =>
        setDescriptorRevisionCounter ope r.ns r.now isCurrent).map fun counter =>
          ⟨r.now, r.ns, isCurrent, counter⟩ :: uploads
    else some uploads

/-- None where an assertion fails. -/
def runRound (key : ℕ → Keystream) (testing : Bool) (r : Round) (s : State) : Option State := do
  let service ← runScheduledEvents testing r.ns s.service
  let uploads := rotateUploads r.ns s
  let current ← uploadDescriptor key r true r.uploadCurrent service.descCurrent uploads.current
  let next ← uploadDescriptor key r false r.uploadNext service.descNext uploads.next
  some ⟨service, ⟨current, next⟩, some r⟩

def reasonablyLiveTime : ℕ := 24 * 60 * 60

/-- Neither the clock nor the consensus goes back, and the two are not more than a day apart. -/
structure Timely (s : State) (r : Round) : Prop where
  clock : ∀ last, s.last = some last → last.now ≤ r.now
  consensus : ∀ last, s.last = some last → last.ns.validAfter ≤ r.ns.validAfter
  notFuture : r.ns.validAfter ≤ r.now + reasonablyLiveTime
  notOld : r.now ≤ r.ns.validAfter + reasonablyLiveTime

def system (key : ℕ → Keystream) (testing : Bool) : System State Round where
  init s := s = ⟨⟨none, none, 0⟩, ⟨[], []⟩, none⟩
  step s r s' := Timely s r ∧ runRound key testing r s = some s'

def SameSchedule (a b : Consensus) : Prop :=
  getVotingInterval a = getVotingInterval b ∧
    a.validAfter % getVotingInterval a = b.validAfter % getVotingInterval b

def skippedRuns (a b : Consensus) : ℕ := runOf b - (runOf a + 1)

/-- The run that is counted from has begun.  When runs have been skipped since an upload as the next
descriptor, more time than they take has gone by. -/
structure OnTime (s : State) (r : Round) : Prop where
  room : 47 * getVotingInterval r.ns + reasonablyLiveTime < opeInputMax
  schedule : ∀ last, s.last = some last → SameSchedule last.ns r.ns
  begun : r.uploadNext = true → getStartTimeOfCurrentProtocolRun r.ns ≤ r.now
  previousBegun : r.uploadCurrent = true →
    getStartTimeOfCurrentProtocolRun r.ns ≤ r.now + getProtocolRunDuration r.ns
  skipped : r.uploadCurrent = true → ∀ u ∈ (rotateUploads r.ns s).current, u.isCurrent = false →
    skippedRuns u.ns r.ns = 0 ∨
      u.now + skippedRuns u.ns r.ns * getProtocolRunDuration r.ns < r.now

variable {key : ℕ → Keystream} {testing : Bool} {a b c : Consensus} {s s' : State} {r : Round}

/-! ### Starts of runs -/

theorem SameSchedule.symm (h : SameSchedule a b) : SameSchedule b a :=
  ⟨Eq.symm h.1, Eq.symm h.2⟩

theorem SameSchedule.trans (hab : SameSchedule a b) (hbc : SameSchedule b c) :
    SameSchedule a c :=
  ⟨Eq.trans hab.1 hbc.1, Eq.trans hab.2 hbc.2⟩

theorem SameSchedule.duration (h : SameSchedule a b) :
    getProtocolRunDuration a = getProtocolRunDuration b := by
  rw [getProtocolRunDuration_eq, getProtocolRunDuration_eq, h.1]

theorem getProtocolRunDuration_pos (ns : Consensus) : 0 < getProtocolRunDuration ns := by
  have hpos := getVotingInterval_pos ns
  rw [getProtocolRunDuration_eq]
  omega

theorem start_le_validAfter (ns : Consensus) :
    getStartTimeOfCurrentProtocolRun ns ≤ ns.validAfter ∧
      ns.validAfter ≤ getStartTimeOfCurrentProtocolRun ns + 23 * getVotingInterval ns := by
  have hslot : ns.validAfter / getVotingInterval ns % 24 ≤ 23 :=
    Nat.le_of_lt_succ (Nat.mod_lt _ (by decide))
  have helapsed := Nat.mul_le_mul_right (getVotingInterval ns) hslot
  have hstart : getStartTimeOfCurrentProtocolRun ns = ns.validAfter -
      ns.validAfter / getVotingInterval ns % 24 * getVotingInterval ns := rfl
  rw [hstart]
  omega

theorem SameSchedule.start_eq (h : SameSchedule a b) {k : ℕ} (hrun : runOf b = runOf a + k) :
    getStartTimeOfCurrentProtocolRun b =
      getStartTimeOfCurrentProtocolRun a + k * getProtocolRunDuration b := by
  have hb : runAt b b.validAfter = runAt a a.validAfter + k := hrun
  rw [getStartTimeOfCurrentProtocolRun_eq, getStartTimeOfCurrentProtocolRun_eq, hb, h.duration, h.2]
  ring

theorem SameSchedule.runOf_le (h : SameSchedule a b) (hle : a.validAfter ≤ b.validAfter) :
    runOf a ≤ runOf b := by
  rw [runOf, runOf, runAt, runAt, h.duration]
  exact Nat.div_le_div_right hle

theorem SameSchedule.start_stay (h : SameSchedule a b) (hle : a.validAfter ≤ b.validAfter)
    (hdue : ¬ getStartTimeOfCurrentProtocolRun a + getProtocolRunDuration a ≤ b.validAfter) :
    getStartTimeOfCurrentProtocolRun b = getStartTimeOfCurrentProtocolRun a := by
  obtain ⟨k, hk⟩ := Nat.exists_eq_add_of_le (h.runOf_le hle)
  have hstart := h.start_eq hk
  have hafter := (start_le_validAfter b).1
  rw [h.duration] at hdue
  cases k with
  | zero => rw [hstart, Nat.zero_mul, Nat.add_zero]
  | succ k =>
    rw [Nat.succ_mul] at hstart
    omega

theorem SameSchedule.start_rotate (h : SameSchedule a b) (hle : a.validAfter ≤ b.validAfter)
    (hdue : getStartTimeOfCurrentProtocolRun a + getProtocolRunDuration a ≤ b.validAfter) :
    getStartTimeOfCurrentProtocolRun a + getProtocolRunDuration b ≤
      getStartTimeOfCurrentProtocolRun b := by
  obtain ⟨k, hk⟩ := Nat.exists_eq_add_of_le (h.runOf_le hle)
  have hstart := h.start_eq hk
  have hafter := (start_le_validAfter b).2
  have hpos := getVotingInterval_pos b
  rw [h.duration, getProtocolRunDuration_eq] at hdue
  cases k with
  | zero =>
    rw [Nat.zero_mul, Nat.add_zero] at hstart
    omega
  | succ k =>
    rw [Nat.succ_mul] at hstart
    omega

theorem SameSchedule.start_skipped (h : SameSchedule a b)
    (hlater : getStartTimeOfCurrentProtocolRun a + getProtocolRunDuration b ≤
      getStartTimeOfCurrentProtocolRun b) :
    getStartTimeOfCurrentProtocolRun b = getStartTimeOfCurrentProtocolRun a +
      getProtocolRunDuration b + skippedRuns a b * getProtocolRunDuration b := by
  have hpos := getProtocolRunDuration_pos b
  have hrun : runOf a + 1 ≤ runOf b := by
    by_contra hnot
    obtain ⟨k, hk⟩ := Nat.exists_eq_add_of_le (Nat.le_of_lt_succ (not_le.mp hnot))
    have hstart := h.symm.start_eq hk
    omega
  obtain ⟨k, hk⟩ := Nat.exists_eq_add_of_le hrun
  have hskipped : skippedRuns a b = k := by
    rw [skippedRuns, hk, Nat.add_sub_cancel_left]
  rw [hskipped, h.start_eq (hk.trans (Nat.add_assoc _ 1 k))]
  ring

/-! ### Counters -/

variable {u w : Upload} {ns : Consensus} {now tp : ℕ} {isCurrent wanted : Bool}
  {uploads uploads' : List Upload}

theorem Upload.seconds_current (h : u.isCurrent = true) : u.seconds =
    u.now - getStartTimeOfCurrentProtocolRun u.ns + getProtocolRunDuration u.ns + 1 := by
  rw [Upload.seconds, secondsSinceStartOfSrv, srvStart, if_pos h, getStartTimeOfPreviousProtocolRun]
  omega

theorem Upload.seconds_next (h : u.isCurrent = false) :
    u.seconds = u.now - getStartTimeOfCurrentProtocolRun u.ns + 1 := by
  rw [Upload.seconds, secondsSinceStartOfSrv, srvStart, h, if_neg (by decide)]

theorem opePlaintext_eq (hpos : 1 ≤ secondsSinceStartOfSrv ns now isCurrent)
    (hmax : secondsSinceStartOfSrv ns now isCurrent ≤ opeInputMax) :
    opePlaintext ns now isCurrent = secondsSinceStartOfSrv ns now isCurrent := by
  have hbound : (opeInputMax : ℤ) = 262144 := by decide
  rw [opePlaintext, if_neg (not_lt.mpr hmax)]
  exact Int.bmod_eq_of_le (by omega) (by omega)

theorem setDescriptorRevisionCounter_eq (key : Keystream)
    (hpos : 1 ≤ secondsSinceStartOfSrv ns now isCurrent)
    (hmax : secondsSinceStartOfSrv ns now isCurrent ≤ opeInputMax) :
    (cryptoOpeNew key).bind (fun ope => setDescriptorRevisionCounter ope ns now isCurrent) =
      some (prefixSum key (secondsSinceStartOfSrv ns now isCurrent).toNat) := by
  have hnat := Int.toNat_of_nonneg (show 0 ≤ secondsSinceStartOfSrv ns now isCurrent by omega)
  have hencrypt := cryptoOpeEncrypt_eq key
    (show 1 ≤ (secondsSinceStartOfSrv ns now isCurrent).toNat by omega) (by omega)
  rw [hnat] at hencrypt
  simp only [setDescriptorRevisionCounter, opePlaintext_eq hpos hmax]
  exact hencrypt

def NotBehind (u w : Upload) : Prop :=
  w.seconds ≤ u.seconds ∧ (w.now < u.now → w.seconds < u.seconds)

theorem notBehind_iff (hu : u.isCurrent = true) (hw : w.isCurrent = false)
    (hsame : SameSchedule w.ns u.ns) (hnow : w.now ≤ u.now)
    (hlater : getStartTimeOfCurrentProtocolRun w.ns + getProtocolRunDuration u.ns ≤
      getStartTimeOfCurrentProtocolRun u.ns) :
    NotBehind u w ↔ skippedRuns w.ns u.ns = 0 ∨
      w.now + skippedRuns w.ns u.ns * getProtocolRunDuration u.ns < u.now := by
  have hstart := hsame.start_skipped hlater
  have hduration := getProtocolRunDuration_pos u.ns
  rw [NotBehind, Upload.seconds_current hu, Upload.seconds_next hw]
  by_cases hnone : skippedRuns w.ns u.ns = 0
  · rw [hnone, Nat.zero_mul] at hstart
    refine iff_of_true ⟨?_, ?_⟩ (.inl hnone)
    · omega
    · omega
  · have hlong := Nat.le_mul_of_pos_left (getProtocolRunDuration u.ns) (Nat.pos_of_ne_zero hnone)
    constructor
    · rintro ⟨hle, hlt⟩
      right
      omega
    · rintro (hnot | hlong)
      · exact absurd hnot hnone
      · constructor
        · omega
        · omega

/-- The uploads of a descriptor, with the cipher of its time period. -/
structure InOrder (key : Keystream) (uploads : List Upload) : Prop where
  pos : ∀ u ∈ uploads, 1 ≤ u.seconds
  le_max : ∀ u ∈ uploads, u.seconds ≤ opeInputMax
  counter : ∀ u ∈ uploads, u.counter = prefixSum key u.seconds.toNat
  pairwise : uploads.Pairwise NotBehind

theorem inOrder_nil (key : Keystream) : InOrder key [] where
  pos _ h := (List.not_mem_nil h).elim
  le_max _ h := (List.not_mem_nil h).elim
  counter _ h := (List.not_mem_nil h).elim
  pairwise := List.Pairwise.nil

theorem InOrder.cons {key : Keystream} (h : InOrder key uploads) (hpos : 1 ≤ u.seconds)
    (hmax : u.seconds ≤ opeInputMax) (hcounter : u.counter = prefixSum key u.seconds.toNat)
    (hbehind : ∀ w ∈ uploads, NotBehind u w) : InOrder key (u :: uploads) where
  pos := List.forall_mem_cons.mpr ⟨hpos, h.pos⟩
  le_max := List.forall_mem_cons.mpr ⟨hmax, h.le_max⟩
  counter := List.forall_mem_cons.mpr ⟨hcounter, h.counter⟩
  pairwise := List.pairwise_cons.mpr ⟨hbehind, h.pairwise⟩

theorem uploadDescriptor_cases
    (h : uploadDescriptor key r isCurrent wanted (some tp) uploads = some uploads') :
    (wanted = false ∧ uploads' = uploads) ∨
      (wanted = true ∧ ∃ u : Upload, u.now = r.now ∧ u.ns = r.ns ∧ u.isCurrent = isCurrent ∧
        uploads' = u :: uploads ∧
        (1 ≤ u.seconds → u.seconds ≤ opeInputMax →
          u.counter = prefixSum (key tp) u.seconds.toNat)) := by
  cases wanted with
  | false => exact .inl ⟨rfl, (Option.some.inj h).symm⟩
  | true =>
    obtain ⟨counter, hcounter, hupload⟩ := Option.map_eq_some_iff.mp h
    refine .inr ⟨rfl, ⟨r.now, r.ns, isCurrent, counter⟩, rfl, rfl, rfl, hupload.symm, ?_⟩
    intro hpos hmax
    exact Option.some.inj (hcounter.symm.trans (setDescriptorRevisionCounter_eq (key tp) hpos hmax))

/-! ### What a round keeps -/

/-- An earlier upload of the next descriptor was counted from the same run; one of the current
descriptor too, or it was counted from an earlier run when the descriptor was the next one. -/
structure Placed (key : ℕ → Keystream) (r : Round) (service : Service) (uploads : Uploads) :
    Prop where
  rotation : service.nextRotationTime =
    getStartTimeOfCurrentProtocolRun r.ns + getProtocolRunDuration r.ns
  current : ∃ tp, service.descCurrent = some tp ∧ InOrder (key tp) uploads.current
  next : ∃ tp, service.descNext = some tp ∧ InOrder (key tp) uploads.next
  currentBefore : ∀ u ∈ uploads.current, u.now ≤ r.now ∧ SameSchedule u.ns r.ns
  nextBefore : ∀ u ∈ uploads.next, u.now ≤ r.now ∧ SameSchedule u.ns r.ns
  currentRun : ∀ u ∈ uploads.current, u.isCurrent = true →
    getStartTimeOfCurrentProtocolRun u.ns = getStartTimeOfCurrentProtocolRun r.ns
  earlierRun : ∀ u ∈ uploads.current, u.isCurrent = false →
    getStartTimeOfCurrentProtocolRun u.ns + getProtocolRunDuration r.ns ≤
      getStartTimeOfCurrentProtocolRun r.ns
  nextRun : ∀ u ∈ uploads.next, u.isCurrent = false ∧
    getStartTimeOfCurrentProtocolRun u.ns = getStartTimeOfCurrentProtocolRun r.ns

theorem runScheduledEvents_first {service : Service}
    (h : runScheduledEvents testing ns ⟨none, none, 0⟩ = some service) :
    service.nextRotationTime =
        getStartTimeOfCurrentProtocolRun ns + getProtocolRunDuration ns ∧
      (∃ tp, service.descCurrent = some tp) ∧ ∃ tp, service.descNext = some tp := by
  rw [runScheduledEvents, runHousekeepingEvent, if_pos rfl, rotateAllDescriptors_new rfl] at h
  obtain ⟨between, -, hbuild⟩ := Option.bind_eq_some_iff.mp h
  obtain ⟨current, -, hbuild⟩ := Option.bind_eq_some_iff.mp hbuild
  cases between with
  | true =>
    obtain ⟨previous, -, hbuild⟩ := Option.bind_eq_some_iff.mp hbuild
    obtain rfl := Option.some.inj hbuild
    exact ⟨rfl, ⟨previous, rfl⟩, current, rfl⟩
  | false =>
    obtain ⟨next, -, hbuild⟩ := Option.bind_eq_some_iff.mp hbuild
    obtain rfl := Option.some.inj hbuild
    exact ⟨rfl, ⟨current, rfl⟩, next, rfl⟩

theorem placed_first {service : Service}
    (h : runScheduledEvents testing r.ns ⟨none, none, 0⟩ = some service) :
    Placed key r service ⟨[], []⟩ := by
  obtain ⟨hrotation, ⟨current, hcurrent⟩, next, hnext⟩ := runScheduledEvents_first h
  refine ⟨hrotation, ⟨current, hcurrent, inOrder_nil _⟩, ⟨next, hnext, inOrder_nil _⟩, ?_, ?_, ?_,
    ?_, ?_⟩ <;>
  · intro u hu
    exact (List.not_mem_nil hu).elim

theorem uploads_before {last : Round} (hclock : last.now ≤ r.now)
    (hschedule : SameSchedule last.ns r.ns)
    (h : ∀ u ∈ uploads, u.now ≤ last.now ∧ SameSchedule u.ns last.ns) :
    ∀ u ∈ uploads, u.now ≤ r.now ∧ SameSchedule u.ns r.ns := by
  intro u hu
  obtain ⟨hnow, hsame⟩ := h u hu
  exact ⟨hnow.trans hclock, hsame.trans hschedule⟩

theorem Placed.rotate {last : Round} {service : Service} {current next : ℕ}
    (h : Placed key last s.service s.uploads) (hclock : last.now ≤ r.now)
    (hconsensus : last.ns.validAfter ≤ r.ns.validAfter) (hschedule : SameSchedule last.ns r.ns)
    (hcurrent : s.service.descCurrent = some current) (hnext : s.service.descNext = some next)
    (hset : s.service.nextRotationTime ≠ 0) (hdue : s.service.nextRotationTime ≤ r.ns.validAfter)
    (hevents : runScheduledEvents testing r.ns s.service = some service) :
    Placed key r service (rotateUploads r.ns s) := by
  have hrotate : rotateUploads r.ns s = ⟨s.uploads.next, []⟩ := by
    rw [rotateUploads, runHousekeepingEvent, if_neg hset, shouldRotateDescriptors,
      decide_eq_true hdue, hcurrent, hnext]
    rfl
  obtain ⟨nextOf, hnextOf, hnextOrder⟩ := h.next
  obtain rfl := Option.some.inj (hnextOf.symm.trans hnext)
  rw [runScheduledEvents_rotate hcurrent hnext hset hdue] at hevents
  obtain ⟨tp, -, hservice⟩ := Option.map_eq_some_iff.mp hevents
  subst hservice
  rw [h.rotation] at hdue
  have hlater := hschedule.start_rotate hconsensus hdue
  rw [hrotate]
  refine ⟨rfl, ⟨nextOf, rfl, hnextOrder⟩, ⟨tp, rfl, inOrder_nil _⟩,
    uploads_before hclock hschedule h.nextBefore, ?_, ?_, ?_, ?_⟩
  · intro u hu
    exact (List.not_mem_nil hu).elim
  · intro u hu hrole
    exact absurd ((h.nextRun u hu).1.symm.trans hrole) (by decide)
  · intro u hu _
    rw [(h.nextRun u hu).2]
    exact hlater
  · intro u hu
    exact (List.not_mem_nil hu).elim

theorem Placed.stay {last : Round} {service : Service} {current next : ℕ}
    (h : Placed key last s.service s.uploads) (hclock : last.now ≤ r.now)
    (hconsensus : last.ns.validAfter ≤ r.ns.validAfter) (hschedule : SameSchedule last.ns r.ns)
    (hcurrent : s.service.descCurrent = some current) (hnext : s.service.descNext = some next)
    (hset : s.service.nextRotationTime ≠ 0) (hdue : ¬ s.service.nextRotationTime ≤ r.ns.validAfter)
    (hevents : runScheduledEvents testing r.ns s.service = some service) :
    Placed key r service (rotateUploads r.ns s) := by
  have hstay : rotateUploads r.ns s = s.uploads := by
    rw [rotateUploads, runHousekeepingEvent, if_neg hset, shouldRotateDescriptors,
      decide_eq_false hdue, Bool.false_and, if_neg (by decide)]
  rw [runScheduledEvents_stay hcurrent hnext hset hdue] at hevents
  obtain rfl := Option.some.inj hevents
  have hrotation := h.rotation
  rw [hrotation] at hdue
  have hstart := hschedule.start_stay hconsensus hdue
  rw [hstay]
  refine ⟨?_, h.current, h.next, uploads_before hclock hschedule h.currentBefore,
    uploads_before hclock hschedule h.nextBefore, ?_, ?_, ?_⟩
  · rw [hrotation, hstart, hschedule.duration]
  · intro u hu hrole
    rw [hstart]
    exact h.currentRun u hu hrole
  · intro u hu hrole
    rw [hstart, ← hschedule.duration]
    exact h.earlierRun u hu hrole
  · intro u hu
    rw [hstart]
    exact h.nextRun u hu

theorem Placed.events {last : Round} {service : Service} (h : Placed key last s.service s.uploads)
    (hclock : last.now ≤ r.now) (hconsensus : last.ns.validAfter ≤ r.ns.validAfter)
    (hschedule : SameSchedule last.ns r.ns)
    (hevents : runScheduledEvents testing r.ns s.service = some service) :
    Placed key r service (rotateUploads r.ns s) := by
  obtain ⟨current, hcurrent, -⟩ := h.current
  obtain ⟨next, hnext, -⟩ := h.next
  have hset : s.service.nextRotationTime ≠ 0 := by
    rw [h.rotation]
    exact rotationTime_ne_zero last.ns
  by_cases hdue : s.service.nextRotationTime ≤ r.ns.validAfter
  · exact h.rotate hclock hconsensus hschedule hcurrent hnext hset hdue hevents
  · exact h.stay hclock hconsensus hschedule hcurrent hnext hset hdue hevents

theorem Placed.uploadCurrent {service : Service} {uploads : Uploads} {current : List Upload}
    (h : Placed key r service uploads) (ht : Timely s r) (hok : OnTime s r)
    (hrotated : uploads = rotateUploads r.ns s)
    (hupload : uploadDescriptor key r true r.uploadCurrent service.descCurrent uploads.current =
      some current) : Placed key r service ⟨current, uploads.next⟩ := by
  obtain ⟨tp, hdesc, horder⟩ := h.current
  rw [hdesc] at hupload
  obtain ⟨-, rfl⟩ | ⟨hwanted, u, hnow, hns, hrole, rfl, hcounter⟩ := uploadDescriptor_cases hupload
  · exact h
  have hseconds := Upload.seconds_current hrole
  rw [hnow, hns] at hseconds
  have hbegun := hok.previousBegun hwanted
  have hafter := (start_le_validAfter r.ns).2
  have hroom := hok.room
  have hnotOld := ht.notOld
  have hduration := getProtocolRunDuration_eq r.ns
  have hpos : 1 ≤ u.seconds := by omega
  have hmax : u.seconds ≤ opeInputMax := by omega
  have hbehind : ∀ w ∈ uploads.current, NotBehind u w := by
    intro w hw
    obtain ⟨hwnow, hsame⟩ := h.currentBefore w hw
    cases hwrole : w.isCurrent with
    | true =>
      have hwseconds := Upload.seconds_current hwrole
      rw [h.currentRun w hw hwrole, hsame.duration] at hwseconds
      constructor
      · omega
      · omega
    | false =>
      -- uploaded as the next descriptor, before the rotation
      have hlater := h.earlierRun w hw hwrole
      subst hrotated
      have hskipped := hok.skipped hwanted w hw hwrole
      rw [← hns] at hsame hlater hskipped
      rw [← hnow] at hwnow hskipped
      exact (notBehind_iff hrole hwrole hsame hwnow hlater).mpr hskipped
  refine ⟨h.rotation, ⟨tp, hdesc, horder.cons hpos hmax (hcounter hpos hmax) hbehind⟩, h.next, ?_,
    h.nextBefore, ?_, ?_, h.nextRun⟩
  · exact List.forall_mem_cons.mpr ⟨⟨hnow.le, by rw [hns]; exact ⟨rfl, rfl⟩⟩, h.currentBefore⟩
  · exact List.forall_mem_cons.mpr ⟨fun _ => by rw [hns], h.currentRun⟩
  · exact List.forall_mem_cons.mpr
      ⟨fun hnot => absurd (hrole.symm.trans hnot) (by decide), h.earlierRun⟩

theorem Placed.uploadNext {service : Service} {uploads : Uploads} {next : List Upload}
    (h : Placed key r service uploads) (ht : Timely s r) (hok : OnTime s r)
    (hupload : uploadDescriptor key r false r.uploadNext service.descNext uploads.next =
      some next) : Placed key r service ⟨uploads.current, next⟩ := by
  obtain ⟨tp, hdesc, horder⟩ := h.next
  rw [hdesc] at hupload
  obtain ⟨-, rfl⟩ | ⟨hwanted, u, hnow, hns, hrole, rfl, hcounter⟩ := uploadDescriptor_cases hupload
  · exact h
  have hseconds := Upload.seconds_next hrole
  rw [hnow, hns] at hseconds
  have hbegun := hok.begun hwanted
  have hafter := (start_le_validAfter r.ns).2
  have hroom := hok.room
  have hnotOld := ht.notOld
  have hpos : 1 ≤ u.seconds := by omega
  have hmax : u.seconds ≤ opeInputMax := by omega
  have hbehind : ∀ w ∈ uploads.next, NotBehind u w := by
    intro w hw
    obtain ⟨hwnow, -⟩ := h.nextBefore w hw
    obtain ⟨hwrole, hstart⟩ := h.nextRun w hw
    have hwseconds := Upload.seconds_next hwrole
    constructor
    · omega
    · omega
  refine ⟨h.rotation, h.current, ⟨tp, hdesc, horder.cons hpos hmax (hcounter hpos hmax) hbehind⟩,
    h.currentBefore, ?_, h.currentRun, h.earlierRun, ?_⟩
  · exact List.forall_mem_cons.mpr ⟨⟨hnow.le, by rw [hns]; exact ⟨rfl, rfl⟩⟩, h.nextBefore⟩
  · exact List.forall_mem_cons.mpr ⟨⟨hrole, by rw [hns]⟩, h.nextRun⟩

/-- Before the first round nothing is there; after one the descriptors are placed in it. -/
def Kept (key : ℕ → Keystream) (s : State) : Prop :=
  match s.last with
  | none => s.service = ⟨none, none, 0⟩ ∧ s.uploads = ⟨[], []⟩
  | some r => Placed key r s.service s.uploads

theorem kept_events {service : Service} (h : Kept key s) (ht : Timely s r) (hok : OnTime s r)
    (hevents : runScheduledEvents testing r.ns s.service = some service) :
    Placed key r service (rotateUploads r.ns s) := by
  cases hlast : s.last with
  | none =>
    rw [Kept, hlast] at h
    obtain ⟨hservice, huploads⟩ := h
    have hrotate : rotateUploads r.ns s = ⟨[], []⟩ := by
      rw [rotateUploads, huploads]
      split_ifs <;> rfl
    rw [hservice] at hevents
    rw [hrotate]
    exact placed_first hevents
  | some last =>
    rw [Kept, hlast] at h
    exact h.events (ht.clock last hlast) (ht.consensus last hlast) (hok.schedule last hlast) hevents

theorem kept_inductive (key : ℕ → Keystream) (testing : Bool) :
    Inductive (system key testing) OnTime (Kept key) where
  init := by
    rintro _ rfl
    exact ⟨rfl, rfl⟩
  step s r s' h hok hs := by
    obtain ⟨ht, hround⟩ := hs
    obtain ⟨service, hevents, hround⟩ := Option.bind_eq_some_iff.mp hround
    obtain ⟨current, hcurrent, hround⟩ := Option.bind_eq_some_iff.mp hround
    obtain ⟨next, hnext, hround⟩ := Option.bind_eq_some_iff.mp hround
    obtain rfl := Option.some.inj hround
    have hplaced := kept_events h ht hok hevents
    exact (hplaced.uploadCurrent ht hok rfl hcurrent).uploadNext ht hok hnext

theorem Kept.inOrder (h : Kept key s) :
    (∃ tp, InOrder (key tp) s.uploads.current) ∧ ∃ tp, InOrder (key tp) s.uploads.next := by
  cases hlast : s.last with
  | none =>
    rw [Kept, hlast] at h
    rw [h.2]
    exact ⟨⟨0, inOrder_nil _⟩, 0, inOrder_nil _⟩
  | some last =>
    rw [Kept, hlast] at h
    obtain ⟨tp, -, hcurrent⟩ := h.current
    obtain ⟨tp', -, hnext⟩ := h.next
    exact ⟨⟨tp, hcurrent⟩, tp', hnext⟩

/-- A directory that holds the counter of `w` stores the one of `u`. -/
def StoredAfter (u w : Upload) : Prop :=
  ∀ sizes (desc cacheEntry : HsCache.DirDescriptor) (C : HsCache.Cache),
    KeyedList.get HsCache.DirDescriptor.key desc.key C.v3Dir = some cacheEntry →
    cacheEntry.plaintextData.revisionCounter = w.counter →
    desc.plaintextData.revisionCounter = u.counter →
    (HsCache.cacheStoreV3AsDir sizes desc C).2 = 0

structure CountersInOrder (uploads : List Upload) : Prop where
  pos : ∀ u ∈ uploads, 1 ≤ u.plaintext
  le_max : ∀ u ∈ uploads, u.plaintext ≤ opeInputMax
  notCut : ∀ u ∈ uploads, u.plaintext = u.seconds
  plaintexts : uploads.Pairwise fun u w =>
    w.plaintext ≤ u.plaintext ∧ (w.now < u.now → w.plaintext < u.plaintext)
  counters : uploads.Pairwise fun u w =>
    w.counter ≤ u.counter ∧ (w.now < u.now → w.counter < u.counter)
  stored : uploads.Pairwise fun u w => w.now < u.now → StoredAfter u w

theorem storedAfter_of_lt (h : w.counter < u.counter) : StoredAfter u w := by
  intro sizes desc cacheEntry C hget hheld hnew
  rw [HsCache.cacheStoreV3AsDir, hget]
  dsimp only
  rw [if_neg (by omega)]

theorem InOrder.countersInOrder {key : Keystream} (h : InOrder key uploads) :
    CountersInOrder uploads := by
  have hplaintext : ∀ u ∈ uploads, u.plaintext = u.seconds := fun u hu =>
    opePlaintext_eq (h.pos u hu) (h.le_max u hu)
  have hstrict : ∀ u ∈ uploads, ∀ w ∈ uploads, NotBehind u w → w.now < u.now →
      w.counter < u.counter := by
    intro u hu w hw hbehind hnow
    rw [h.counter u hu, h.counter w hw]
    have hlt := hbehind.2 hnow
    have hpos := h.pos w hw
    exact prefixSum_strictMono key (by omega)
  refine ⟨?_, ?_, hplaintext, ?_, ?_, ?_⟩
  · intro u hu
    rw [hplaintext u hu]
    exact h.pos u hu
  · intro u hu
    rw [hplaintext u hu]
    exact h.le_max u hu
  · refine h.pairwise.imp_of_mem fun hu hw hbehind => ?_
    rw [hplaintext _ hu, hplaintext _ hw]
    exact hbehind
  · refine h.pairwise.imp_of_mem fun {u w} hu hw hbehind => ⟨?_, hstrict u hu w hw hbehind⟩
    rw [h.counter u hu, h.counter w hw]
    have hle := hbehind.1
    exact (prefixSum_strictMono key).monotone (Int.toNat_le_toNat hle)
  · refine h.pairwise.imp_of_mem fun {u w} hu hw hbehind hnow => ?_
    exact storedAfter_of_lt (hstrict u hu w hw hbehind hnow)

/-- In a run whose rounds are on time the counters of each descriptor are in the order of its
uploads. -/
theorem revision_counters_ordered (hr : Reached (system key testing) OnTime s) :
    CountersInOrder s.uploads.current ∧ CountersInOrder s.uploads.next := by
  have h : Kept key s := hr.invariant (kept_inductive key testing)
  obtain ⟨⟨tp, hcurrent⟩, tp', hnext⟩ := h.inOrder
  exact ⟨hcurrent.countersInOrder, hnext.countersInOrder⟩

/-! ### Three runs -/

theorem runRound_eq {service : Service} {current next : List Upload}
    (hevents : runScheduledEvents testing r.ns s.service = some service)
    (hcurrent : uploadDescriptor key r true r.uploadCurrent service.descCurrent
      (rotateUploads r.ns s).current = some current)
    (hnext : uploadDescriptor key r false r.uploadNext service.descNext
      (rotateUploads r.ns s).next = some next) :
    runRound key testing r s = some ⟨service, ⟨current, next⟩, some r⟩ := by
  simp only [runRound, hevents, Option.bind_eq_bind, Option.bind_some, hcurrent, hnext]

theorem uploadDescriptor_eq (hpos : 1 ≤ secondsSinceStartOfSrv r.ns r.now isCurrent)
    (hmax : secondsSinceStartOfSrv r.ns r.now isCurrent ≤ opeInputMax) :
    uploadDescriptor key r isCurrent true (some tp) uploads =
      some (⟨r.now, r.ns, isCurrent,
        prefixSum (key tp) (secondsSinceStartOfSrv r.ns r.now isCurrent).toNat⟩ :: uploads) := by
  show Option.map _ (Option.bind _ _) = _
  rw [setDescriptorRevisionCounter_eq (key tp) hpos hmax]
  rfl

def initial : State := ⟨⟨none, none, 0⟩, ⟨[], []⟩, none⟩

def zeroKey : ℕ → Keystream := fun _ => zeroStream

/-- The next descriptor is uploaded under the last consensus of run 100. -/
def startRound (now : ℕ) : Round := ⟨now, hour 2423, false, true⟩

def startUpload (now : ℕ) : Upload :=
  ⟨now, hour 2423, false, prefixSum zeroStream (now + 1 - 3600 * 2400)⟩

def started (now : ℕ) : State :=
  ⟨⟨some 99, some 100, 3600 * 2424⟩, ⟨[], [startUpload now]⟩, some (startRound now)⟩

/-- The current descriptor is uploaded under the first consensus of a run. -/
def rotateRound (k : ℕ) : Round := ⟨3600 * k, hour k, true, false⟩

def rotateUpload (k : ℕ) : Upload := ⟨3600 * k, hour k, true, prefixSum zeroStream 86401⟩

def rotated (now k next : ℕ) : State :=
  ⟨⟨some 100, some next, 3600 * k + 86400⟩, ⟨[rotateUpload k, startUpload now], []⟩,
    some (rotateRound k)⟩

theorem startUpload_seconds (now : ℕ) : (startUpload now).seconds = now - 3600 * 2400 + 1 := by
  have hstart : getStartTimeOfCurrentProtocolRun (hour 2423) = 3600 * 2400 := by decide
  rw [Upload.seconds_next rfl]
  show (now : ℤ) - getStartTimeOfCurrentProtocolRun (hour 2423) + 1 = _
  rw [hstart]
  rfl

theorem rotateUpload_seconds {k : ℕ} (hstart : getStartTimeOfCurrentProtocolRun (hour k) = 3600 * k) :
    (rotateUpload k).seconds = 86401 := by
  have hduration : getProtocolRunDuration (hour k) = 86400 := by
    show 24 * (3600 * k + 3600 - 3600 * k) = 86400
    rw [Nat.add_sub_cancel_left]
  rw [Upload.seconds_current rfl]
  show ((3600 * k : ℕ) : ℤ) - getStartTimeOfCurrentProtocolRun (hour k) +
    getProtocolRunDuration (hour k) + 1 = _
  rw [hstart, hduration]
  omega

theorem step_started {now : ℕ} (hbegun : 3600 * 2423 ≤ now) (hlate : now ≤ 3600 * 2447) :
    (system zeroKey false).step initial (startRound now) (started now) := by
  have hseconds := startUpload_seconds now
  have hmax : (opeInputMax : ℤ) = 262144 := by decide
  have hvalid : (startRound now).ns.validAfter = 3600 * 2423 := rfl
  have hclock : (startRound now).now = now := rfl
  have hlive : reasonablyLiveTime = 86400 := rfl
  have hevents : runScheduledEvents false (hour 2423) ⟨none, none, 0⟩ =
      some ⟨some 99, some 100, 3600 * 2424⟩ := by rfl
  have hrotate : rotateUploads (hour 2423) initial = ⟨[], []⟩ := by rfl
  refine ⟨⟨?_, ?_, ?_, ?_⟩, runRound_eq hevents ?_ ?_⟩
  · intro last hlast
    exact (Option.some_ne_none _ hlast.symm).elim
  · intro last hlast
    exact (Option.some_ne_none _ hlast.symm).elim
  · rw [hvalid, hclock, hlive]
    omega
  · rw [hvalid, hclock, hlive]
    omega
  · show uploadDescriptor zeroKey (startRound now) true false (some 99)
      (rotateUploads (hour 2423) initial).current = _
    rw [hrotate]
    rfl
  · show uploadDescriptor zeroKey (startRound now) false true (some 100)
      (rotateUploads (hour 2423) initial).next = _
    rw [hrotate]
    have hupload := @uploadDescriptor_eq zeroKey (startRound now) 100 false []
      (by change 1 ≤ (startUpload now).seconds; omega)
      (by change (startUpload now).seconds ≤ opeInputMax; omega)
    have hnat : (startUpload now).seconds.toNat = now + 1 - 3600 * 2400 := by omega
    change _ = some (⟨now, hour 2423, false, prefixSum zeroStream (startUpload now).seconds.toNat⟩ ::
      ([] : List Upload)) at hupload
    rw [hnat] at hupload
    exact hupload

theorem step_rotated {now k next : ℕ} (hafter : 2423 ≤ k) (hnow : now ≤ 3600 * k)
    (hstart : getStartTimeOfCurrentProtocolRun (hour k) = 3600 * k)
    (hevents : runScheduledEvents false (hour k) (started now).service =
      some (rotated now k next).service)
    (hrotate : rotateUploads (hour k) (started now) = ⟨[startUpload now], []⟩) :
    (system zeroKey false).step (started now) (rotateRound k) (rotated now k next) := by
  have hseconds := rotateUpload_seconds hstart
  have hmax : (opeInputMax : ℤ) = 262144 := by decide
  refine ⟨⟨?_, ?_, ?_, ?_⟩, runRound_eq hevents ?_ ?_⟩
  · intro last hlast
    obtain rfl := Option.some.inj hlast
    exact hnow
  · intro last hlast
    obtain rfl := Option.some.inj hlast
    exact Nat.mul_le_mul_left 3600 hafter
  · exact Nat.le_add_right _ _
  · exact Nat.le_add_right _ _
  · show uploadDescriptor zeroKey (rotateRound k) true true (some 100)
      (rotateUploads (hour k) (started now)).current = _
    rw [hrotate]
    have hupload := @uploadDescriptor_eq zeroKey (rotateRound k) 100 true [startUpload now]
      (by change 1 ≤ (rotateUpload k).seconds; omega)
      (by change (rotateUpload k).seconds ≤ opeInputMax; omega)
    change _ = some (⟨3600 * k, hour k, true, prefixSum zeroStream (rotateUpload k).seconds.toNat⟩ ::
      [startUpload now]) at hupload
    rw [hseconds] at hupload
    exact hupload
  · show uploadDescriptor zeroKey (rotateRound k) false false (some next)
      (rotateUploads (hour k) (started now)).next = _
    rw [hrotate]
    rfl

/-- First as the next descriptor and then, an hour later, as the current one. -/
theorem revision_counters_ordered_nextRun : ∃ s, Reached (system zeroKey false) OnTime s ∧
    s.uploads.current.map Upload.now = [3600 * 2424, 3600 * 2423 + 10] ∧
    CountersInOrder s.uploads.current := by
  have hstart : getStartTimeOfCurrentProtocolRun (hour 2423) = 3600 * 2400 := by decide
  have hstart' : getStartTimeOfCurrentProtocolRun (hour 2424) = 3600 * 2424 := by decide
  have hfirst : OnTime initial (startRound (3600 * 2423 + 10)) := by
    refine ⟨by decide, ?_, ?_, ?_, ?_⟩
    · intro last hlast
      exact (Option.some_ne_none _ hlast.symm).elim
    · intro _
      exact hstart.le.trans (by decide)
    · intro hnot
      exact absurd hnot (by decide)
    · intro hnot
      exact absurd hnot (by decide)
  have hsecond : OnTime (started (3600 * 2423 + 10)) (rotateRound 2424) := by
    refine ⟨by decide, ?_, ?_, ?_, ?_⟩
    · intro last hlast
      obtain rfl := Option.some.inj hlast
      exact ⟨by decide, by decide⟩
    · intro hnot
      exact absurd hnot (by decide)
    · intro _
      exact hstart'.le.trans (Nat.le_add_right _ _)
    · intro _ u hu _
      obtain rfl := List.mem_singleton.mp hu
      exact .inl (by decide)
  have hr : Reached (system zeroKey false) OnTime (rotated (3600 * 2423 + 10) 2424 101) := by
    refine .step (.step (.init rfl) hfirst
      (@step_started (3600 * 2423 + 10) (by decide) (by decide))) hsecond ?_
    exact step_rotated (by decide) (by decide) hstart' (by rfl) (by rfl)
  exact ⟨_, hr, rfl, (revision_counters_ordered hr).1⟩

/-- The consensuses of a run are missed: the counter of the current descriptor is below the one that it
had an hour before, as the next one. -/
theorem revision_counter_decreases : ∃ s u w,
    Reached (system zeroKey false) (fun _ _ => True) s ∧ s.uploads.current = [u, w] ∧
      w.now < u.now ∧ u.plaintext < w.plaintext ∧ u.counter < w.counter := by
  have hstart : getStartTimeOfCurrentProtocolRun (hour 2448) = 3600 * 2448 := by decide
  have hmax : (opeInputMax : ℤ) = 262144 := by decide
  have hnew := rotateUpload_seconds hstart
  have hold := startUpload_seconds (3600 * 2447)
  refine ⟨rotated (3600 * 2447) 2448 102, rotateUpload 2448, startUpload (3600 * 2447), ?_, rfl,
    by decide, ?_, ?_⟩
  · refine .step (a := rotateRound 2448) (.step (.init rfl) trivial
      (@step_started (3600 * 2447) (by decide) (by decide))) trivial ?_
    exact step_rotated (by decide) (by decide) hstart (by rfl) (by rfl)
  · have hplaintext : (rotateUpload 2448).plaintext = (rotateUpload 2448).seconds :=
      opePlaintext_eq (by change 1 ≤ (rotateUpload 2448).seconds; omega)
        (by change (rotateUpload 2448).seconds ≤ opeInputMax; omega)
    have hplaintext' : (startUpload (3600 * 2447)).plaintext = (startUpload (3600 * 2447)).seconds :=
      opePlaintext_eq (by change 1 ≤ (startUpload (3600 * 2447)).seconds; omega)
        (by change (startUpload (3600 * 2447)).seconds ≤ opeInputMax; omega)
    rw [hplaintext, hplaintext', hnew, hold]
    decide
  · rw [rotateUpload, startUpload, (prefixSum_strictMono zeroStream).lt_iff_lt]
    decide

end HsDescRevision
