/-
The queue of rendezvous requests along every run (`trim_rend_pqueue`, `handle_rend_pqueue_cb`).

While a queue is trimmed, the index field of the requests belongs to two lists.  A call on one of
them leaves the indexes in the other alone, so both stay in order; and what is popped comes before
all that is left, so the list that is kept has the best of the requests that are not too old.
-/
import Mathlib
import LibEltor.HsPowQueue

open Transition PqueueCompare

namespace HsPowQueue

variable {s s' : PowServiceState} {q : Pqueue PendingRend} {req : PendingRend} {now high : ℤ}
  {before held kept : Multiset PendingRend} {w w' : World} {rate burst : ℕ}

theorem compareRendRequestByEffort_totalPreorder : TotalPreorder compareRendRequestByEffort := by
  refine ⟨fun a b => ?_, fun a b c => ?_⟩
  · unfold compareRendRequestByEffort
    split_ifs <;> omega
  · unfold compareRendRequestByEffort
    split_ifs <;> omega

def Precedes (a b : PendingRend) : Prop :=
  b.powEffort < a.powEffort ∨ a.powEffort = b.powEffort ∧ a.enqueuedTs < b.enqueuedTs

theorem compareRendRequestByEffort_le_iff (a b : PendingRend) :
    compareRendRequestByEffort a b ≤ 0 ↔ ¬ Precedes b a := by
  unfold compareRendRequestByEffort Precedes
  split_ifs <;> omega

/-- The queue is in order, its indexes are right, and it holds these requests. -/
def Holds (q : Pqueue PendingRend) (held : Multiset PendingRend) : Prop :=
  Sound compareRendRequestByEffort ⟨q, held⟩

theorem Holds.numUsed_eq (h : Holds q held) : q.numUsed = held.card := h.holds.card_eq

theorem Holds.remaining_eq (h : Holds q held) : (remaining q : Multiset PendingRend) = held :=
  h.holds.items

theorem holds_empty (list : ℕ → PendingRend) (idx : PendingRend → ℤ) : Holds ⟨list, 0, idx⟩ 0 :=
  ⟨fun _ _ hi => absurd hi (Nat.not_lt_zero _), fun _ hi => absurd hi (Nat.not_lt_zero _), rfl⟩

/-! ### Trimming -/

/-- What trimming keeps and discards of what was there before. -/
structure Trims (high now : ℤ) (before kept discarded : Multiset PendingRend) : Prop where
  all : kept + discarded = before
  young : ∀ req ∈ kept, queuedRendRequestIsTooOld req now = false
  best : ∀ req ∈ kept, ∀ other ∈ discarded,
    queuedRendRequestIsTooOld other now = true ∨ ¬ Precedes other req
  size : kept.card = min (high.tdiv 2).toNat
    (before.countP fun req => queuedRendRequestIsTooOld req now = false)

/-- In the middle of trimming, `held` is still in the old list and `kept` in the new one. -/
structure Trimmed (high now : ℤ) (before : Multiset PendingRend) (t : Trimming)
    (held kept : Multiset PendingRend) : Prop where
  old : Holds t.old held
  new : Holds { t.new with idx := t.old.idx } kept
  all : held + kept + (t.discarded : Multiset PendingRend) = before
  young : ∀ req ∈ kept, queuedRendRequestIsTooOld req now = false
  stale : ∀ req ∈ t.discarded, queuedRendRequestIsTooOld req now = true
  best : ∀ req ∈ kept, ∀ other ∈ held, compareRendRequestByEffort req other ≤ 0
  room : kept.card ≤ (high.tdiv 2).toNat

theorem trimLoop_spec (hnodup : before.Nodup) (hsize : before.card ≤ Pqueue.intMax) {n : ℕ}
    {t : Trimming} (h : Trimmed high now before t held kept) (hn : held.card = n) :
    ∃ t' held' kept', trimLoop high now n t = some t' ∧ Trimmed high now before t' held' kept' ∧
      (held' = 0 ∨ (high.tdiv 2).toNat ≤ kept'.card) := by
  induction n generalizing t held kept with
  | zero => exact ⟨t, held, kept, rfl, h, .inl (Multiset.card_eq_zero.mp hn)⟩
  | succ n ih =>
    have hnew : t.new.numUsed = kept.card := h.new.numUsed_eq
    have hcard := congrArg Multiset.card h.all
    simp only [Multiset.card_add, Multiset.coe_card] at hcard
    rw [trimLoop]
    split_ifs with hroom
    · have hold := h.old.numUsed_eq
      obtain ⟨top, q, hpop, ⟨htop, hfirst⟩, hq, hidx⟩ :=
        h.old.pop compareRendRequestByEffort_totalPreorder (by omega) (by omega)
      have hparts : (held + kept).Nodup := (Multiset.nodup_add.mp (h.all ▸ hnodup)).1
      have hdisjoint : ∀ {req}, req ∈ held → req ∉ kept :=
        Multiset.disjoint_left.mp (Multiset.disjoint_of_nodup_add hparts)
      have hheld : held.Nodup := (Multiset.nodup_add.mp hparts).1
      have hkept : Holds { t.new with idx := q.idx } kept :=
        h.new.congr ⟨rfl, rfl, fun req hreq => hidx req fun hmem => hdisjoint hmem hreq⟩
      have hrest : (held.erase top).card = n := by
        rw [Multiset.card_erase_of_mem htop, hn]
        rfl
      have hbest : ∀ req ∈ kept, ∀ other ∈ held.erase top,
          compareRendRequestByEffort req other ≤ 0 := fun req hreq other hother =>
        h.best req hreq other (Multiset.mem_of_mem_erase hother)
      have hall := h.all
      rw [← Multiset.cons_erase htop] at hall
      rw [hpop, Option.bind_some]
      simp only
      split_ifs with hstale
      · refine ih ⟨hq, hkept, ?_, h.young, fun req hreq => ?_, hbest, h.room⟩ hrest
        · rw [← hall, ← Multiset.coe_add, Multiset.coe_singleton, ← Multiset.singleton_add]
          abel
        · obtain hreq | hreq := List.mem_append.mp hreq
          · exact h.stale req hreq
          · rw [List.mem_singleton.mp hreq]
            exact hstale
      · obtain ⟨q', hadd, hq', hidx'⟩ := hkept.add compareRendRequestByEffort_totalPreorder
          (hdisjoint htop) (show t.new.numUsed < Pqueue.intMax by omega)
        rw [hadd, Option.bind_some]
        refine ih ⟨hq.congr ⟨rfl, rfl, fun req hreq => ?_⟩, hq', ?_, ?_, h.stale, ?_, ?_⟩ hrest
        · refine hidx' req fun hmem => ?_
          obtain rfl | hmem := Multiset.mem_cons.mp hmem
          · exact hheld.notMem_erase hreq
          · exact hdisjoint (Multiset.mem_of_mem_erase hreq) hmem
        · rw [← hall, ← Multiset.singleton_add, ← Multiset.singleton_add]
          abel
        · intro req hreq
          obtain rfl | hreq := Multiset.mem_cons.mp hreq
          · exact Bool.eq_false_iff.mpr hstale
          · exact h.young req hreq
        · intro req hreq other hother
          obtain rfl | hreq := Multiset.mem_cons.mp hreq
          · exact hfirst other (Multiset.mem_of_mem_erase hother)
          · exact hbest req hreq other hother
        · rw [Multiset.card_cons]
          omega
    · exact ⟨t, held, kept, rfl, h, .inr (by omega)⟩

theorem isGreatest_foldl_max (l : List PendingRend) (m : ℕ) :
    IsGreatest {e | e = m ∨ ∃ req ∈ l, e = req.powEffort}
      (l.foldl (fun m req => max m req.powEffort) m) := by
  induction l generalizing m with
  | nil =>
    refine ⟨.inl rfl, ?_⟩
    rintro e (rfl | ⟨req, hreq, -⟩)
    · exact le_rfl
    · exact absurd hreq List.not_mem_nil
  | cons req l ih =>
    obtain ⟨hmem, hle⟩ := ih (max m req.powEffort)
    refine ⟨?_, ?_⟩
    · obtain heq | ⟨other, hother, heq⟩ := hmem
      · obtain hmax | hmax := max_choice m req.powEffort
        · exact .inl (heq.trans hmax)
        · exact .inr ⟨req, List.mem_cons_self, heq.trans hmax⟩
      · exact .inr ⟨other, List.mem_cons_of_mem req hother, heq⟩
    · rintro e (rfl | ⟨other, hother, rfl⟩)
      · exact (le_max_left _ _).trans (hle (.inl rfl))
      · obtain rfl | hother := List.mem_cons.mp hother
        · exact (le_max_right _ _).trans (hle (.inl rfl))
        · exact hle (.inr ⟨other, hother, rfl⟩)

theorem Trimmed.trims {t : Trimming} (h : Trimmed high now before t held kept)
    (hdone : held = 0 ∨ (high.tdiv 2).toNat ≤ kept.card) :
    Trims high now before kept (t.discarded + held) := by
  refine ⟨?_, h.young, fun req hreq other hother => ?_, ?_⟩
  · rw [← h.all]
    abel
  · obtain hother | hother := Multiset.mem_add.mp hother
    · exact .inl (h.stale other hother)
    · exact .inr ((compareRendRequestByEffort_le_iff req other).mp (h.best req hreq other hother))
  · have hyoung := Multiset.countP_eq_card.mpr h.young
    have hstale : (t.discarded : Multiset PendingRend).countP
        (fun req => queuedRendRequestIsTooOld req now = false) = 0 :=
      Multiset.countP_eq_zero.mpr fun req hreq => by rw [h.stale req hreq]; decide
    have hroom := h.room
    rw [← h.all, Multiset.countP_add, Multiset.countP_add, hyoung, hstale]
    obtain rfl | hfull := hdone
    · rw [Multiset.countP_zero]
      omega
    · omega

variable (now) in
theorem trimRendPqueue_spec (h : Holds s.rendRequestPqueue held)
    (hsize : held.card ≤ Pqueue.intMax) :
    ∃ s' discarded, trimRendPqueue s now = some (s', discarded) ∧
      Trims s.pqueueHighLevel now held (remaining s'.rendRequestPqueue) discarded ∧
      IsGreatest {e | e = s.maxTrimmedEffort ∨ ∃ req ∈ discarded, e = req.powEffort}
        s'.maxTrimmedEffort ∧
      Holds s'.rendRequestPqueue (remaining s'.rendRequestPqueue) ∧
      s'.pqueueHighLevel = s.pqueueHighLevel := by
  have hbegin : Trimmed s.pqueueHighLevel now held
      ⟨s.rendRequestPqueue, { s.rendRequestPqueue with numUsed := 0 }, []⟩ held 0 :=
    ⟨h, holds_empty _ _, by simp, by simp, by simp, by simp, Nat.zero_le _⟩
  obtain ⟨t, left, kept, hloop, ht, hdone⟩ :=
    trimLoop_spec h.holds.nodup hsize hbegin h.numUsed_eq.symm
  have hkept := ht.new.remaining_eq
  rw [trimRendPqueue, hloop, Option.map_some]
  refine ⟨_, _, rfl, ?_, isGreatest_foldl_max _ _, ?_, rfl⟩
  · rw [← Multiset.coe_add, ht.old.remaining_eq]
    exact hkept ▸ ht.trims hdone
  · exact hkept ▸ ht.new

/-- What accepting a request keeps and discards: the queue is trimmed if it is too long then. -/
structure Enqueues (s s' : PowServiceState) (now : ℤ) (before : Multiset PendingRend)
    (discarded : List PendingRend) : Prop where
  trims : s.pqueueHighLevel ≤ before.card →
    Trims s.pqueueHighLevel now before (remaining s'.rendRequestPqueue) discarded ∧
      IsGreatest {e | e = s.maxTrimmedEffort ∨ ∃ req ∈ discarded, e = req.powEffort}
        s'.maxTrimmedEffort
  keeps : before.card < s.pqueueHighLevel →
    (remaining s'.rendRequestPqueue : Multiset PendingRend) = before ∧ discarded = []

theorem enqueueRendRequest_spec (h : Holds s.rendRequestPqueue held) (hnew : req ∉ held)
    (hsize : held.card < Pqueue.intMax) :
    ∃ s' discarded, enqueueRendRequest s req now = some (s', discarded) ∧
      Enqueues s s' now (req ::ₘ held) discarded ∧
      Holds s'.rendRequestPqueue (remaining s'.rendRequestPqueue) ∧
      s'.pqueueHighLevel = s.pqueueHighLevel := by
  have hcleared : Holds { s.rendRequestPqueue with
      idx := Function.update s.rendRequestPqueue.idx req (-1) } held :=
    h.congr ⟨rfl, rfl, fun other hother =>
      Function.update_of_ne (fun heq : other = req => hnew (heq ▸ hother)) _ _⟩
  obtain ⟨q, hadd, hq, -⟩ := hcleared.add compareRendRequestByEffort_totalPreorder hnew
    (h.numUsed_eq.trans_lt hsize)
  have hlength : q.numUsed = (req ::ₘ held).card := Holds.numUsed_eq hq
  rw [enqueueRendRequest, hadd, Option.bind_some]
  split_ifs with hlong
  · obtain ⟨s', discarded, htrim, htrims, hmax, hholds, hhigh⟩ :=
      trimRendPqueue_spec now (s := { s with rendRequestPqueue := q }) hq
        (by rw [Multiset.card_cons]; exact hsize)
    exact ⟨s', discarded, htrim, ⟨fun _ => ⟨htrims, hmax⟩, fun hshort => by omega⟩, hholds, hhigh⟩
  · have hremaining := Holds.remaining_eq hq
    exact ⟨_, [], rfl, ⟨fun hle => by omega, fun _ => ⟨hremaining, rfl⟩⟩, hremaining ▸ hq, rfl⟩

theorem Enqueues.all {discarded : List PendingRend} (h : Enqueues s s' now before discarded) :
    (remaining s'.rendRequestPqueue : Multiset PendingRend) + discarded = before := by
  obtain hlong | hshort := le_or_gt s.pqueueHighLevel before.card
  · exact (h.trims hlong).1.all
  · obtain ⟨hkept, rfl⟩ := h.keeps hshort
    rw [hkept]
    exact add_zero before

theorem tdiv_two_lt (high : ℤ) : ((high.tdiv 2).toNat : ℤ) < max 1 high := by
  obtain hneg | hpos := lt_or_ge high 0
  · obtain ⟨n, rfl⟩ := Int.exists_eq_neg_ofNat hneg.le
    rw [Int.neg_tdiv, Int.tdiv_eq_ediv_of_nonneg (Int.natCast_nonneg n)]
    omega
  · rw [Int.tdiv_eq_ediv_of_nonneg hpos]
    omega

theorem Enqueues.short {discarded : List PendingRend} (h : Enqueues s s' now before discarded) :
    ((remaining s'.rendRequestPqueue).length : ℤ) < max 1 s.pqueueHighLevel := by
  obtain hlong | hshort := le_or_gt s.pqueueHighLevel before.card
  · have hsize := (h.trims hlong).1.size
    have hhalf := tdiv_two_lt s.pqueueHighLevel
    rw [Multiset.coe_card] at hsize
    omega
  · have hcard := congrArg Multiset.card (h.keeps hshort).1
    rw [Multiset.coe_card] at hcard
    omega

/-- What the callback launches is not too old, and nothing that is left comes before it. -/
def Launches (now : ℤ) (c : Callback) : Prop :=
  ∀ req ∈ c.launched, queuedRendRequestIsTooOld req now = false ∧
    ∀ other ∈ remaining c.pow.rendRequestPqueue, ¬ Precedes other req

structure CallbackOk (s : PowServiceState) (held : Multiset PendingRend) (now : ℤ) (c : Callback) :
    Prop where
  holds : Holds c.pow.rendRequestPqueue (remaining c.pow.rendRequestPqueue)
  all : (c.launched : Multiset PendingRend) + c.discarded + remaining c.pow.rendRequestPqueue = held
  high : c.pow.pqueueHighLevel = s.pqueueHighLevel
  launches : Launches now c

theorem callbackLoop_spec {inFlight : ℕ} {rateLimited : ℕ → Bool} {n : ℕ} {c : Callback}
    (h : CallbackOk s held now c) (hnone : c.launched = [])
    (hn : c.pow.rendRequestPqueue.numUsed = n) (hsize : n ≤ Pqueue.intMax) :
    ∃ c', callbackLoop now inFlight rateLimited n c = some c' ∧ CallbackOk s held now c' := by
  induction n generalizing c with
  | zero => exact ⟨c, rfl, h⟩
  | succ n ih =>
    rw [callbackLoop]
    split_ifs
    · exact ⟨_, rfl, h.holds, h.all, h.high, h.launches⟩
    · exact ⟨_, rfl, h.holds, h.all, h.high, h.launches⟩
    · obtain ⟨top, q, hpop, ⟨htop, hfirst⟩, hq, -⟩ :=
        h.holds.pop compareRendRequestByEffort_totalPreorder (by omega) (by omega)
      have hleft := Holds.remaining_eq hq
      have hq' : Holds q (remaining q) := hleft ▸ hq
      have hall := h.all
      rw [hnone, ← Multiset.cons_erase htop, ← hleft] at hall
      have hcard : q.numUsed + 1 = n + 1 := by
        rw [hq'.numUsed_eq, hleft, ← Multiset.card_cons, Multiset.cons_erase htop,
          ← h.holds.numUsed_eq, hn]
      rw [hpop, Option.bind_some]
      simp only
      split_ifs with hstale
      · -- one that is too old is freed, and the loop goes on
        refine ih ⟨hq', ?_, h.high, ?_⟩ hnone (Nat.succ.inj hcard) (by omega)
        · rw [hnone, ← hall, ← Multiset.coe_add, Multiset.coe_singleton, ← Multiset.singleton_add]
          abel
        · rw [Launches, hnone]
          exact fun req hreq => absurd hreq List.not_mem_nil
      · -- the first that is not is launched, and was the best of those left
        refine ⟨_, rfl, hq', ?_, h.high, fun req hreq => ?_⟩
        · rw [← hall, Multiset.coe_singleton, ← Multiset.singleton_add, Multiset.coe_nil]
          abel
        · obtain rfl := List.mem_singleton.mp hreq
          refine ⟨Bool.eq_false_iff.mpr hstale, fun other hother => ?_⟩
          rw [← compareRendRequestByEffort_le_iff]
          refine hfirst other (Multiset.mem_of_mem_erase (b := req) ?_)
          exact hleft ▸ hother

variable (now) in
theorem handleRendPqueueCb_spec (inFlight : ℕ) (rateLimited : ℕ → Bool)
    (h : Holds s.rendRequestPqueue (remaining s.rendRequestPqueue))
    (hsize : s.rendRequestPqueue.numUsed ≤ Pqueue.intMax) :
    ∃ c, handleRendPqueueCb s now inFlight rateLimited = some c ∧
      CallbackOk s (remaining s.rendRequestPqueue) now c := by
  have hbegin : CallbackOk s (remaining s.rendRequestPqueue) now ⟨s, [], [], false⟩ :=
    ⟨h, by simp, rfl, fun req hreq => absurd hreq List.not_mem_nil⟩
  obtain ⟨c, hloop, hc⟩ := callbackLoop_spec hbegin rfl rfl hsize
  rw [handleRendPqueueCb, hloop, Option.map_some]
  refine ⟨_, rfl, ?_⟩
  split_ifs
  · exact hc
  · exact ⟨hc.holds, hc.all, hc.high, hc.launches⟩
  · exact hc

/-! ### Runs -/

def startWorld (rate burst : ℕ) : World := ⟨initializePowDefenses rate burst, [], [], [], [], []⟩

def queueSystem (rate burst : ℕ) : System World Action where
  init w := w = startWorld rate burst
  step := system.step

/-- What holds of the queue, and what the next request and the next callback do. -/
structure QueueSound (rate burst : ℕ) (w : World) : Prop where
  accounted : (w.launched : Multiset PendingRend) + w.discarded +
    remaining w.pow.rendRequestPqueue = w.accepted
  distinct : w.accepted.Nodup
  ordered : ∀ i, 0 < i → i < w.pow.rendRequestPqueue.numUsed →
    ¬ Precedes (w.pow.rendRequestPqueue.list i)
      (w.pow.rendRequestPqueue.list (Pqueue.parent i))
  indexes : ∀ i < w.pow.rendRequestPqueue.numUsed,
    w.pow.rendRequestPqueue.idx (w.pow.rendRequestPqueue.list i) = i
  short : (0 < rate ∧ rate ≤ burst → burst + rate * maxRendTimeout * 2 < 2 ^ 31) →
    (w.pow.rendRequestPqueue.numUsed : ℤ) < w.pow.pqueueHighLevel
  enqueues : ∀ effort now, ∃ s' discarded,
    enqueueRendRequest w.pow ⟨w.accepted.length, effort, now⟩ now = some (s', discarded) ∧
      Enqueues w.pow s' now
        (⟨w.accepted.length, effort, now⟩ ::ₘ remaining w.pow.rendRequestPqueue) discarded
  launches : ∀ now inFlight rateLimited, ∃ c,
    handleRendPqueueCb w.pow now inFlight rateLimited = some c ∧ Launches now c

/-- The invariant, with the high level the service began with. -/
structure Kept (high : ℤ) (w : World) : Prop where
  holds : Holds w.pow.rendRequestPqueue (remaining w.pow.rendRequestPqueue)
  all : (w.launched : Multiset PendingRend) + w.discarded +
    remaining w.pow.rendRequestPqueue = w.accepted
  nodup : w.accepted.Nodup
  numbers : ∀ req ∈ w.accepted, req.number < w.accepted.length
  short : ((remaining w.pow.rendRequestPqueue).length : ℤ) < max 1 w.pow.pqueueHighLevel
  high : w.pow.pqueueHighLevel = high

theorem length_remaining (q : Pqueue PendingRend) : (remaining q).length = q.numUsed := by
  rw [remaining, List.length_map, List.length_range]

theorem Kept.room (h : Kept high w) (hhigh : high < 2 ^ 31) :
    w.pow.rendRequestPqueue.numUsed < Pqueue.intMax := by
  have hshort := h.short
  rw [length_remaining, h.high] at hshort
  unfold Pqueue.intMax
  omega

theorem Kept.enqueues (h : Kept high w) (hhigh : high < 2 ^ 31) (effort : ℕ) (now : ℤ) :
    ∃ s' discarded,
      enqueueRendRequest w.pow ⟨w.accepted.length, effort, now⟩ now = some (s', discarded) ∧
        Enqueues w.pow s' now
          (⟨w.accepted.length, effort, now⟩ ::ₘ remaining w.pow.rendRequestPqueue) discarded ∧
        Holds s'.rendRequestPqueue (remaining s'.rendRequestPqueue) ∧
        s'.pqueueHighLevel = w.pow.pqueueHighLevel := by
  refine enqueueRendRequest_spec h.holds (fun hmem => ?_) ?_
  · have haccepted : PendingRend.mk w.accepted.length effort now ∈ (w.accepted : Multiset _) := by
      rw [← h.all]
      exact Multiset.mem_add.mpr (.inr hmem)
    exact absurd (h.numbers _ haccepted) (lt_irrefl _)
  · rw [Multiset.coe_card, length_remaining]
    exact h.room hhigh

theorem Kept.step (h : Kept high w) (hhigh : high < 2 ^ 31) {a : Action}
    (hstep : perform w a = some w') : Kept high w' := by
  cases a with
  | introduce2 effort now =>
    obtain ⟨s', discarded, henqueue, hs', hholds, hlevel⟩ := h.enqueues hhigh effort now
    rw [perform, henqueue, Option.map_some] at hstep
    obtain rfl := Option.some.inj hstep
    refine ⟨hholds, ?_, List.nodup_cons.mpr ⟨fun hmem => ?_, h.nodup⟩, fun req hreq => ?_, ?_,
      hlevel.trans h.high⟩
    · have hall := hs'.all
      rw [← Multiset.cons_coe, ← h.all, ← Multiset.add_cons, ← hall, ← Multiset.coe_add]
      abel
    · exact absurd (h.numbers _ hmem) (lt_irrefl _)
    · obtain rfl | hreq := List.mem_cons.mp hreq
      · exact Nat.lt_succ_self _
      · exact (h.numbers req hreq).trans (Nat.lt_succ_self _)
    · show ((remaining s'.rendRequestPqueue).length : ℤ) < max 1 s'.pqueueHighLevel
      rw [hlevel]
      exact hs'.short
  | callback now inFlight rateLimited =>
    obtain ⟨c, hcallback, hc⟩ :=
      handleRendPqueueCb_spec now inFlight rateLimited h.holds (h.room hhigh).le
    rw [perform, hcallback, Option.map_some] at hstep
    obtain rfl := Option.some.inj hstep
    refine ⟨hc.holds, ?_, h.nodup, h.numbers, ?_, hc.high.trans h.high⟩
    · have hall := hc.all
      rw [← h.all, ← hall, ← Multiset.coe_add, ← Multiset.coe_add]
      abel
    · have hle := congrArg Multiset.card hc.all
      have hshort := h.short
      simp only [Multiset.card_add, Multiset.coe_card] at hle
      show ((remaining c.pow.rendRequestPqueue).length : ℤ) < max 1 c.pow.pqueueHighLevel
      rw [hc.high]
      omega
  | update =>
    obtain ⟨s', hupdate, rfl⟩ := Option.map_eq_some_iff.mp hstep
    obtain ⟨effort, -, rfl⟩ := Option.map_eq_some_iff.mp hupdate
    exact ⟨h.holds, h.all, h.nodup, h.numbers, h.short, h.high⟩

theorem highLevel_lt (rate burst : ℕ) :
    (initializePowDefenses rate burst).pqueueHighLevel < 2 ^ 31 := by
  unfold initializePowDefenses
  simp only
  split_ifs
  · exact Int.bmod_lt (by decide)
  · decide

theorem highLevel_pos (h : 0 < rate ∧ rate ≤ burst → burst + rate * maxRendTimeout * 2 < 2 ^ 31) :
    0 < (initializePowDefenses rate burst).pqueueHighLevel := by
  unfold initializePowDefenses
  simp only
  split_ifs with hrate
  · have hlt := h hrate
    unfold maxRendTimeout at hlt ⊢
    rw [Int.bmod_eq_of_le (by omega) (by omega)]
    omega
  · decide

/-- **The queue of rendezvous requests is sound along every run**: no request is lost or handled
twice, the best ones are kept, and the best one is launched. -/
theorem queue_sound (hr : Reached (queueSystem rate burst) (fun _ _ => True) w) :
    QueueSound rate burst w := by
  have hhigh := highLevel_lt rate burst
  have hkept : Kept (initializePowDefenses rate burst).pqueueHighLevel w := by
    refine hr.invariant ⟨?_, fun w a w' h _ hstep => h.step hhigh hstep.2⟩
    rintro w rfl
    exact ⟨holds_empty _ _, rfl, List.nodup_nil, fun req hreq => absurd hreq List.not_mem_nil,
      lt_max_of_lt_left zero_lt_one, rfl⟩
  refine ⟨hkept.all, hkept.nodup, fun i hpos hi => ?_, hkept.holds.holds.indices,
    fun hfits => ?_, fun effort now => ?_, fun now inFlight rateLimited => ?_⟩
  · rw [← compareRendRequestByEffort_le_iff]
    exact hkept.holds.ordered i hpos hi
  · have hpos := highLevel_pos hfits
    have hshort := hkept.short
    rw [length_remaining, hkept.high] at hshort
    rw [hkept.high]
    omega
  · obtain ⟨s', discarded, henqueue, hs', -⟩ := hkept.enqueues hhigh effort now
    exact ⟨s', discarded, henqueue, hs'⟩
  · obtain ⟨c, hcallback, hc⟩ :=
      handleRendPqueueCb_spec now inFlight rateLimited hkept.holds (hkept.room hhigh).le
    exact ⟨c, hcallback, hc.launches⟩

/-- A request of effort 5 is launched. -/
theorem queue_sound_example : ∃ w, w.launched.length = 1 ∧ QueueSound 8 8 w := by
  have heval : ((perform (startWorld 8 8) (.introduce2 5 0)).bind fun w =>
      perform w (.callback 0 0 fun _ => false)).any fun w => decide (w.launched.length = 1) := by
    decide +kernel
  obtain ⟨w, hrun, hlaunched⟩ := (Option.any_eq_true _ _).mp heval
  obtain ⟨mid, hmid, hrun⟩ := Option.bind_eq_some_iff.mp hrun
  have hr : Reached (queueSystem 8 8) (fun _ _ => True) mid := by
    refine (Reached.init rfl).step trivial ⟨fun effort now heq => ?_, hmid⟩
    obtain ⟨rfl, -⟩ := Action.introduce2.inj heq
    decide
  exact ⟨w, of_decide_eq_true hlaunched,
    queue_sound (hr.step trivial ⟨fun _ _ => Action.noConfusion, hrun⟩)⟩

end HsPowQueue
