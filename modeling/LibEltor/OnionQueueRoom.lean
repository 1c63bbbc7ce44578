/-
Room for another onionskin (`feature/relay/onion_queue.c`, `core/mainloop/cpuworker.c`).

Whether an onionskin is queued depends on how long the queues would take to clear: their lengths
times what the handshakes have taken so far, with the share of the other queue that is served
meanwhile.  The lengths are `int`, the parameter for that share is an `int32_t`, and the times are
64 bits wide; every operation is computed in its type, with whether it was exact.
-/
import LibEltor.Checked
import LibEltor.OnionQueue
import Mathlib

open Word Checked Transition
open Onion (onionHandshakeTypeTap onionHandshakeTypeNtor)
open OnionQueue (maxOnionHandshakeType)

namespace OnionQueueRoom

/-! ### Statistics -/

/-- `onionskins_n_processed` and `onionskins_usec_internal`, of one type. -/
structure Statistics where
  nProcessed : ℕ
  usecInternal : ℕ

abbrev maxBelievableOnionskinDelay : ℤ := 2000000

/-- `n_usec`, as `cpuworker_onion_handshake_threadfn` clips what it has measured. -/
def nUsec (usec : ℤ) : ℕ :=
  if usec < 0 ∨ usec > maxBelievableOnionskinDelay then maxBelievableOnionskinDelay.toNat
  else usec.toNat

/-- What `cpuworker_onion_handshake_replyfn` does to the statistics of the type of a reply that was
timed. -/
def countReply (usec usecRoundtrip : ℤ) (s : Statistics) : Statistics :=
  if 0 ≤ usecRoundtrip ∧ usecRoundtrip < maxBelievableOnionskinDelay then
    let s : Statistics := ⟨u64 (s.nProcessed + 1 : ℕ), u64 (s.usecInternal + nUsec usec : ℕ)⟩
    if s.nProcessed ≥ 500000 then ⟨s.nProcessed / 2, s.usecInternal / 2⟩ else s
  else s

/-- A timed reply: the type of the handshake, what the worker measured, and the round trip. -/
structure Reply where
  handshakeType : UInt16
  usec : ℤ
  usecRoundtrip : ℤ

def statistics : System (UInt16 → Statistics) Reply where
  init s := s = fun _ => ⟨0, 0⟩
  step s r s' := s' = if r.handshakeType ≤ maxOnionHandshakeType then
    Function.update s r.handshakeType (countReply r.usec r.usecRoundtrip (s r.handshakeType)) else s

/-- No type has more than half a million replies, none of which took more than two seconds. -/
def Plausible (s : Statistics) : Prop :=
  s.nProcessed < 500000 ∧ s.usecInternal ≤ 2000000 * s.nProcessed

theorem nUsec_le (usec : ℤ) : nUsec usec ≤ 2000000 := by
  rw [nUsec]
  split_ifs with h
  · exact le_rfl
  · simp only [maxBelievableOnionskinDelay] at h
    omega

theorem Plausible.countReply {s : Statistics} (h : Plausible s) (usec usecRoundtrip : ℤ) :
    Plausible (countReply usec usecRoundtrip s) := by
  obtain ⟨hcount, hsum⟩ := h
  have hnew := nUsec_le usec
  have hn : u64 ((s.nProcessed + 1 : ℕ) : ℤ) = s.nProcessed + 1 := wrap_natCast (by omega)
  have hu : u64 ((s.usecInternal + nUsec usec : ℕ) : ℤ) = s.usecInternal + nUsec usec :=
    wrap_natCast (by omega)
  rw [OnionQueueRoom.countReply]
  simp only [hn, hu]
  split_ifs
  · exact ⟨by dsimp only; omega, by dsimp only; omega⟩
  · exact ⟨by dsimp only; omega, by dsimp only; omega⟩
  · exact ⟨hcount, hsum⟩

def estimatedUsecForOnionskins (stats : UInt16 → Statistics) (nRequests : ℕ)
    (onionskinType : UInt16) : Checked ℕ :=
  if onionskinType > maxOnionHandshakeType then mulUnsigned 64 1000 nRequests
  else if (stats onionskinType).nProcessed < 100 then mulUnsigned 64 1000 nRequests
  else do
    let product ← mulUnsigned 64 (stats onionskinType).usecInternal nRequests
    divUnsigned product (stats onionskinType).nProcessed

/-- What the answer depends on besides the queues: the number of threads, the cached parameters
`NumNTorsPerTAP` and `MaxOnionQueueDelay`, and the statistics. -/
structure Env where
  nThreads : ℤ
  numNtorsPerTap : ℤ
  maxOnionQueueDelay : ℕ
  stats : UInt16 → Statistics

/-- An estimate for `n` onionskins of a type, shared by the threads. -/
def usecPerCpu (env : Env) (n : ℤ) (type : UInt16) : Checked ℕ := do
  let nRequests ← toUnsigned 32 n
  let usec ← estimatedUsecForOnionskins env.stats nRequests type
  let numCpus ← toUnsigned 64 env.nThreads
  divUnsigned usec numCpus

/-- `have_room_for_onionskin`, behind its assertion that there are threads. -/
def haveRoomForOnionskin (env : Env) (olEntries : UInt16 → ℤ) (type : UInt16) : Checked Bool :=
  if olEntries type < 50 then pure true
  else do
    let tapUsec ← usecPerCpu env (olEntries onionHandshakeTypeTap) onionHandshakeTypeTap
    let ntorUsec ← usecPerCpu env (olEntries onionHandshakeTypeNtor) onionHandshakeTypeNtor
    let taps ← divSigned 32 (olEntries onionHandshakeTypeNtor) env.numNtorsPerTap
    let tapDuringNtorUsec ← usecPerCpu env (min (olEntries onionHandshakeTypeTap) taps)
      onionHandshakeTypeTap
    let ntors ← mulSigned 32 (olEntries onionHandshakeTypeTap) env.numNtorsPerTap
    let ntorDuringTapUsec ← usecPerCpu env (min (olEntries onionHandshakeTypeNtor) ntors)
      onionHandshakeTypeNtor
    if type = onionHandshakeTypeNtor then do
      let sum ← addUnsigned 64 ntorUsec tapDuringNtorUsec
      pure (sum / 1000 ≤ env.maxOnionQueueDelay)
    else if type = onionHandshakeTypeTap then do
      let sum ← addUnsigned 64 tapUsec ntorDuringTapUsec
      if sum / 1000 > env.maxOnionQueueDelay then pure false
      else do
        let twice ← mulUnsigned 64 env.maxOnionQueueDelay 2
        pure (tapUsec / 1000 ≤ twice / 3)
    else pure true

/-- What the code admits: at least one thread, parameters in their ranges, and statistics that replies
have left. -/
structure Admitted (env : Env) : Prop where
  nThreads : 1 ≤ env.nThreads ∧ env.nThreads ≤ 2147483647
  numNtorsPerTap : 1 ≤ env.numNtorsPerTap ∧ env.numNtorsPerTap ≤ 100000
  maxOnionQueueDelay : 1 ≤ env.maxOnionQueueDelay ∧ env.maxOnionQueueDelay ≤ 2147483647
  stats : Reached statistics (fun _ _ => True) env.stats

/-- Lengths that an `int` can hold. -/
def Lengths (olEntries : UInt16 → ℤ) : Prop := ∀ i, 0 ≤ olEntries i ∧ olEntries i ≤ 2147483647

/-! ### What the answer means -/

/-- The time for `n` onionskins of a type. -/
def usec (s : Statistics) (n : ℕ) : ℕ :=
  if s.nProcessed < 100 then 1000 * n else s.usecInternal * n / s.nProcessed

/-- The product for `n` onionskins of a type is in range. -/
def ProductFits (s : Statistics) (n : ℤ) : Prop :=
  s.nProcessed < 100 ∨ s.usecInternal * n < 18446744073709551616

theorem usec_mono (s : Statistics) {m n : ℕ} (h : m ≤ n) : usec s m ≤ usec s n := by
  rw [usec, usec]
  split_ifs
  · omega
  · exact Nat.div_le_div_right (Nat.mul_le_mul_left _ h)

def perCpu (env : Env) (type : UInt16) (n : ℤ) : ℕ :=
  usec (env.stats type) n.toNat / env.nThreads.toNat

section
variable {env : Env} {q q' : UInt16 → ℤ} {type : UInt16}

theorem Admitted.usecPerCpu_eq (h : Admitted env) (htype : type ≤ maxOnionHandshakeType) {n : ℤ}
    (h0 : 0 ≤ n) (hn : n ≤ 2147483647) (hfits : ProductFits (env.stats type) n) :
    usecPerCpu env n type = ⟨perCpu env type n, true⟩ := by
  obtain ⟨hlow, hhigh⟩ := h.nThreads
  have hcpus : toUnsigned 64 env.nThreads = ⟨env.nThreads.toNat, true⟩ :=
    toUnsigned_eq (by omega) (by omega)
  have hrequests : toUnsigned 32 n = ⟨n.toNat, true⟩ := toUnsigned_eq h0 (by omega)
  have hestimate : estimatedUsecForOnionskins env.stats n.toNat type =
      ⟨usec (env.stats type) n.toNat, true⟩ := by
    rw [estimatedUsecForOnionskins, if_neg (UInt16.not_lt.mpr htype), usec]
    split_ifs with hfew
    · exact mulUnsigned_eq (by omega)
    · have hprod := hfits.resolve_left hfew
      have hcast : ((env.stats type).usecInternal * n.toNat : ℕ) < 2 ^ 64 := by
        zify
        rw [Int.toNat_of_nonneg h0]
        exact hprod
      rw [mulUnsigned_eq hcast]
      exact divUnsigned_eq _ (by omega)
  rw [usecPerCpu, hrequests, hcpus]
  dsimp only [bind]
  rw [hestimate, divUnsigned_eq _ (by omega)]
  rfl

theorem productFits_of_ok (htype : type ≤ maxOnionHandshakeType) {n : ℤ}
    (hok : (usecPerCpu env n type).ok = true) : ProductFits (env.stats type) n := by
  simp only [usecPerCpu, ok_bind, Bool.and_eq_true] at hok
  obtain ⟨hrequests, hestimate, -⟩ := hok
  by_cases hfew : (env.stats type).nProcessed < 100
  · exact .inl hfew
  · refine .inr ?_
    simp only [toUnsigned, Bool.and_eq_true, decide_eq_true_eq] at hrequests
    rw [toUnsigned_eq hrequests.1 hrequests.2, estimatedUsecForOnionskins,
      if_neg (UInt16.not_lt.mpr htype), if_neg hfew, ok_bind, Bool.and_eq_true] at hestimate
    have hprod : (env.stats type).usecInternal * n.toNat < 2 ^ 64 :=
      of_decide_eq_true hestimate.1
    zify at hprod
    rwa [Int.toNat_of_nonneg hrequests.1] at hprod

/-- Nothing in the answer overflows: there is nothing to compute, or the product of the TAP queue and
the parameter fits an `int` and the products of both estimates fit 64 bits. -/
def Fits (env : Env) (q : UInt16 → ℤ) (type : UInt16) : Prop :=
  q type < 50 ∨ q onionHandshakeTypeTap * env.numNtorsPerTap ≤ 2147483647 ∧
    ProductFits (env.stats onionHandshakeTypeTap) (q onionHandshakeTypeTap) ∧
    ProductFits (env.stats onionHandshakeTypeNtor) (q onionHandshakeTypeNtor)

theorem perCpu_mono (env : Env) (type : UInt16) {m n : ℤ} (h : m ≤ n) :
    perCpu env type m ≤ perCpu env type n :=
  Nat.div_le_div_right (usec_mono _ (Int.toNat_le_toNat h))

def TooLong (env : Env) (q : UInt16 → ℤ) (type : UInt16) : Prop :=
  let tap := q onionHandshakeTypeTap
  let ntor := q onionHandshakeTypeNtor
  50 ≤ q type ∧
    (type = onionHandshakeTypeNtor ∧ env.maxOnionQueueDelay <
        (perCpu env onionHandshakeTypeNtor ntor + perCpu env onionHandshakeTypeTap
          (min tap (ntor / env.numNtorsPerTap))) / 1000 ∨
      type = onionHandshakeTypeTap ∧
        (env.maxOnionQueueDelay < (perCpu env onionHandshakeTypeTap tap +
            perCpu env onionHandshakeTypeNtor (min ntor (tap * env.numNtorsPerTap))) / 1000 ∨
          env.maxOnionQueueDelay * 2 / 3 < perCpu env onionHandshakeTypeTap tap / 1000))

theorem TooLong.mono (h : TooLong env q type) (hk : 0 < env.numNtorsPerTap) (hle : ∀ i, q i ≤ q' i) :
    TooLong env q' type := by
  have htap := hle onionHandshakeTypeTap
  have hntor := hle onionHandshakeTypeNtor
  have hshare : q onionHandshakeTypeNtor / env.numNtorsPerTap ≤
      q' onionHandshakeTypeNtor / env.numNtorsPerTap := Int.ediv_le_ediv hk hntor
  have hprod : q onionHandshakeTypeTap * env.numNtorsPerTap ≤
      q' onionHandshakeTypeTap * env.numNtorsPerTap := Int.mul_le_mul_of_nonneg_right htap hk.le
  have htapTime := perCpu_mono env onionHandshakeTypeTap htap
  have hntorTime := perCpu_mono env onionHandshakeTypeNtor hntor
  have hmeanwhile := perCpu_mono env onionHandshakeTypeTap (min_le_min htap hshare)
  have hmeanwhile' := perCpu_mono env onionHandshakeTypeNtor (min_le_min hntor hprod)
  obtain ⟨hmany, hlong⟩ := h
  refine ⟨hmany.trans (hle type), hlong.imp (And.imp_right fun h => ?_)
    (And.imp_right (Or.imp (fun h => ?_) fun h => ?_))⟩
  · exact h.trans_le (Nat.div_le_div_right (Nat.add_le_add hntorTime hmeanwhile))
  · exact h.trans_le (Nat.div_le_div_right (Nat.add_le_add htapTime hmeanwhile'))
  · exact h.trans_le (Nat.div_le_div_right htapTime)

theorem tap_le_max : onionHandshakeTypeTap ≤ maxOnionHandshakeType := of_decide_eq_true rfl

theorem ntor_le_max : onionHandshakeTypeNtor ≤ maxOnionHandshakeType := of_decide_eq_true rfl

theorem ProductFits.mono {s : Statistics} {m n : ℤ} (h : ProductFits s n) (hle : m ≤ n) :
    ProductFits s m :=
  h.imp id fun hlt => lt_of_le_of_lt (Int.mul_le_mul_of_nonneg_left hle (Int.natCast_nonneg _)) hlt

theorem perCpu_lt (type : UInt16) {n : ℤ} (hn : n ≤ 2147483647)
    (hfits : ProductFits (env.stats type) n) : perCpu env type n < 9223372036854775808 := by
  refine lt_of_le_of_lt (Nat.div_le_self ..) ?_
  rw [usec]
  split_ifs with hfew
  · omega
  · rcases lt_or_ge n 0 with hneg | h0
    · rw [Int.toNat_of_nonpos hneg.le, Nat.mul_zero, Nat.zero_div]
      exact Nat.zero_lt_succ _
    · have hprod : ((env.stats type).usecInternal * n.toNat : ℕ) < 18446744073709551616 := by
        zify
        rw [Int.toNat_of_nonneg h0]
        exact hfits.resolve_left hfew
      refine Nat.div_lt_of_lt_mul (lt_of_lt_of_le hprod ?_)
      calc 18446744073709551616 = 2 * 9223372036854775808 := rfl
        _ ≤ (env.stats type).nProcessed * 9223372036854775808 :=
          Nat.mul_le_mul_right _ (by omega)

theorem haveRoomForOnionskin_of_fits (h : Admitted env) (hq : Lengths q) (hfits : Fits env q type) :
    (haveRoomForOnionskin env q type).ok = true ∧
      ((haveRoomForOnionskin env q type).value = false ↔ TooLong env q type) := by
  obtain ⟨hklow, hkhigh⟩ := h.numNtorsPerTap
  obtain ⟨htap0, htap⟩ := hq onionHandshakeTypeTap
  obtain ⟨hntor0, hntor⟩ := hq onionHandshakeTypeNtor
  by_cases hfew : q type < 50
  · rw [haveRoomForOnionskin, if_pos hfew]
    refine ⟨rfl, iff_of_false (by simp) fun htoo => ?_⟩
    have := htoo.1
    omega
  obtain ⟨hprod, htapFits, hntorFits⟩ := hfits.resolve_left hfew
  have hprod0 : 0 ≤ q onionHandshakeTypeTap * env.numNtorsPerTap :=
    Int.mul_nonneg htap0 (by omega)
  have hshare0 : 0 ≤ q onionHandshakeTypeNtor / env.numNtorsPerTap :=
    Int.ediv_nonneg hntor0 (by omega)
  -- the six operations before the cases, each exact
  have h₁ := h.usecPerCpu_eq tap_le_max htap0 htap htapFits
  have h₂ := h.usecPerCpu_eq ntor_le_max hntor0 hntor hntorFits
  have h₃ := divSigned_eq (w := 32) hntor0 (show 0 < env.numNtorsPerTap by omega)
  have h₄ := h.usecPerCpu_eq tap_le_max (le_min htap0 hshare0) (min_le_of_left_le htap)
    (htapFits.mono (min_le_left ..))
  have h₅ := mulSigned_eq (w := 32) hprod0 (by omega) (by omega)
  have h₆ := h.usecPerCpu_eq ntor_le_max (le_min hntor0 hprod0) (min_le_of_left_le hntor)
    (hntorFits.mono (min_le_left ..))
  have hsum₁ := addUnsigned_eq (w := 64) (a := perCpu env onionHandshakeTypeNtor
      (q onionHandshakeTypeNtor)) (b := perCpu env onionHandshakeTypeTap
      (min (q onionHandshakeTypeTap) (q onionHandshakeTypeNtor / env.numNtorsPerTap))) (by
    have := perCpu_lt onionHandshakeTypeNtor hntor hntorFits
    have := perCpu_lt onionHandshakeTypeTap (min_le_of_left_le htap)
      (htapFits.mono (min_le_left _ (q onionHandshakeTypeNtor / env.numNtorsPerTap)))
    omega)
  have hsum₂ := addUnsigned_eq (w := 64) (a := perCpu env onionHandshakeTypeTap
      (q onionHandshakeTypeTap)) (b := perCpu env onionHandshakeTypeNtor
      (min (q onionHandshakeTypeNtor) (q onionHandshakeTypeTap * env.numNtorsPerTap))) (by
    have := perCpu_lt onionHandshakeTypeTap htap htapFits
    have := perCpu_lt onionHandshakeTypeNtor (min_le_of_left_le hntor)
      (hntorFits.mono (min_le_left _ (q onionHandshakeTypeTap * env.numNtorsPerTap)))
    omega)
  have htwice := mulUnsigned_eq (w := 64) (a := env.maxOnionQueueDelay) (b := 2) (by
    have := h.maxOnionQueueDelay.2
    omega)
  have hmany : 50 ≤ q type := not_lt.mp hfew
  simp only [haveRoomForOnionskin, if_neg hfew, ok_bind, value_bind, h₁, h₂, h₃, h₄, h₅, h₆,
    Bool.true_and, TooLong, hmany, true_and]
  by_cases hntorType : type = onionHandshakeTypeNtor
  · have htapType : type ≠ onionHandshakeTypeTap := fun heq =>
      absurd (heq.symm.trans hntorType) (of_decide_eq_true rfl)
    simp [hntorType, hsum₁]
  · by_cases htapType : type = onionHandshakeTypeTap
    · have htap' := eq_true htapType
      have hntor' := eq_false hntorType
      simp only [hntor', htap', if_true, if_false, ok_bind, value_bind, hsum₂, false_and, false_or,
        true_and, Bool.true_and, gt_iff_lt]
      split_ifs with hlong
      · exact ⟨rfl, iff_of_true rfl (.inl hlong)⟩
      · simp [htwice, hlong]
    · simp [hntorType, htapType]

theorem fits_of_ok (hok : (haveRoomForOnionskin env q type).ok = true) : Fits env q type := by
  by_cases hfew : q type < 50
  · exact .inl hfew
  · simp only [haveRoomForOnionskin, if_neg hfew, ok_bind, Bool.and_eq_true] at hok
    obtain ⟨htap, hntor, -, -, hprod, -⟩ := hok
    simp only [mulSigned, Bool.and_eq_true, decide_eq_true_eq] at hprod
    exact .inr ⟨Int.le_of_lt_add_one hprod.2, productFits_of_ok tap_le_max htap,
      productFits_of_ok ntor_le_max hntor⟩

/-- **Room is computed exactly where everything fits**, for every length of the queues and everything
else the code admits: the answers for shorter and for longer queues have no overflow and no division by
zero, and no longer queue is given room that a shorter one is refused, exactly where the products fit
for both. -/
theorem haveRoom_iff (h : Admitted env) (hq : Lengths q) (hq' : Lengths q') (hle : ∀ i, q i ≤ q' i)
    (type : UInt16) :
    ((haveRoomForOnionskin env q type).ok = true ∧ (haveRoomForOnionskin env q' type).ok = true ∧
      ((haveRoomForOnionskin env q type).value = false →
        (haveRoomForOnionskin env q' type).value = false)) ↔
      Fits env q type ∧ Fits env q' type := by
  constructor
  · rintro ⟨hok, hok', -⟩
    exact ⟨fits_of_ok hok, fits_of_ok hok'⟩
  · rintro ⟨hfits, hfits'⟩
    obtain ⟨hok, hvalue⟩ := haveRoomForOnionskin_of_fits h hq hfits
    obtain ⟨hok', hvalue'⟩ := haveRoomForOnionskin_of_fits h hq' hfits'
    refine ⟨hok, hok', fun hrefused => hvalue'.mpr ?_⟩
    exact (hvalue.mp hrefused).mono (lt_of_lt_of_le one_pos h.numNtorsPerTap.1) hle

end

/-- Two threads, `NumNTorsPerTAP` at its maximum, and no handshake measured yet. -/
def freshEnv : Env := ⟨2, 100000, 100000, fun _ => ⟨0, 0⟩⟩

theorem admitted_freshEnv : Admitted freshEnv :=
  ⟨⟨by decide, by decide⟩, ⟨by decide, by decide⟩, ⟨by decide, by decide⟩, .init rfl⟩

/-- `tap` entries in the TAP queue, and a million in the ntor queue. -/
def lengths (tap : ℤ) : UInt16 → ℤ := fun i =>
  if i = onionHandshakeTypeTap then tap else if i = onionHandshakeTypeNtor then 1000000 else 0

theorem lengths_lengths {tap : ℤ} (h0 : 0 ≤ tap) (h : tap ≤ 2147483647) : Lengths (lengths tap) := by
  intro i
  rw [lengths]
  split_ifs <;> omega

/-- 50 TAP entries leave no room, and neither do 60. -/
theorem haveRoom_iff_freshEnv :
    (haveRoomForOnionskin freshEnv (lengths 50) onionHandshakeTypeTap).value = false ∧
      (haveRoomForOnionskin freshEnv (lengths 60) onionHandshakeTypeTap).value = false := by
  have hrefused : (haveRoomForOnionskin freshEnv (lengths 50) onionHandshakeTypeTap).value = false := by
    decide
  have hfits {tap : ℤ} (h : tap ≤ 21474) : Fits freshEnv (lengths tap) onionHandshakeTypeTap :=
    .inr ⟨show tap * 100000 ≤ 2147483647 by omega, .inl (Nat.zero_lt_succ _),
      .inl (Nat.zero_lt_succ _)⟩
  have hle (i : UInt16) : lengths 50 i ≤ lengths 60 i := by
    rw [lengths, lengths]
    split_ifs <;> omega
  exact ⟨hrefused, ((haveRoom_iff admitted_freshEnv (lengths_lengths (by decide) (by decide))
    (lengths_lengths (by decide) (by decide)) hle onionHandshakeTypeTap).mpr
      ⟨hfits (by decide), hfits (by decide)⟩).2.2 hrefused⟩

/-- With 42950 TAP entries the product with `NumNTorsPerTAP` wraps, and there is room that 50 entries
are refused. -/
theorem longer_queue_admitted :
    ¬∀ env, Admitted env → ∀ q q', Lengths q → Lengths q' → (∀ i, q i ≤ q' i) → ∀ type,
      (haveRoomForOnionskin env q type).ok = true ∧ (haveRoomForOnionskin env q' type).ok = true ∧
        ((haveRoomForOnionskin env q type).value = false →
          (haveRoomForOnionskin env q' type).value = false) := by
  intro hclaim
  have hle (i : UInt16) : lengths 50 i ≤ lengths 42950 i := by
    rw [lengths, lengths]
    split_ifs <;> omega
  have hrefused : (haveRoomForOnionskin freshEnv (lengths 50) onionHandshakeTypeTap).value = false := by
    decide
  have hroom : (haveRoomForOnionskin freshEnv (lengths 42950) onionHandshakeTypeTap).value = true := by
    decide
  have hmono := (hclaim freshEnv admitted_freshEnv _ _ (lengths_lengths (by decide) (by decide))
    (lengths_lengths (by decide) (by decide)) hle onionHandshakeTypeTap).2.2 hrefused
  exact absurd (hmono.symm.trans hroom) (by decide)

end OnionQueueRoom
