/-
One numbered stream over several first-in first-out paths.

A sender numbers its items 1, 2, 3, …, and puts each on one of several paths.  The
numbers are not sent: each end counts on each path, and where the sender takes up a
path again it sends how many numbers that path has to skip.  The receiver delivers
the next number at once and holds later ones back until it is their turn.
-/
import Mathlib.Tactic.Common
import Mathlib.Data.List.Sort

namespace Multipath

/-- What travels on a path: an item, or how many numbers to skip before the next
one. -/
inductive Item (κ : Type*)
  | skip (n : ℕ)
  | item (x : κ)
  deriving DecidableEq

variable {ι κ : Type*}

/-- Between what was received and what was sent on a path: items with one number
each, and skips, each right before an item. -/
inductive InFlight : ℕ → List (Item κ) → ℕ → Prop
  | nil (n : ℕ) : InFlight n [] n
  | item {n s : ℕ} {q : List (Item κ)} (x : κ) :
      InFlight (n + 1) q s → InFlight n (.item x :: q) s
  | skip {n s k : ℕ} {q : List (Item κ)} (x : κ) :
      InFlight (n + k + 1) q s → InFlight n (.skip k :: .item x :: q) s

section InFlight

variable {r s : ℕ} {q : List (Item κ)}

theorem InFlight.le (h : InFlight r q s) : r ≤ s := by
  induction h with
  | nil n => exact le_rfl
  | item x _ ih => omega
  | skip x _ ih => omega

theorem InFlight.eq_nil_iff (h : InFlight r q s) : q = [] ↔ r = s := by
  cases h with
  | nil n => simp
  | item x hq =>
    have hle := hq.le
    simp only [List.cons_ne_nil, false_iff]
    omega
  | skip x hq =>
    have hle := hq.le
    simp only [List.cons_ne_nil, false_iff]
    omega

theorem InFlight.no_item_iff (h : InFlight r q s) : (∀ x, Item.item x ∉ q) ↔ q = [] := by
  refine ⟨fun hno => ?_, fun hq => by simp [hq]⟩
  cases h with
  | nil n => rfl
  | item x _ => exact absurd List.mem_cons_self (hno x)
  | skip x _ => exact absurd (List.mem_cons_of_mem _ List.mem_cons_self) (hno x)

theorem InFlight.snoc_item (h : InFlight r q s) (x : κ) :
    InFlight r (q ++ [.item x]) (s + 1) := by
  induction h with
  | nil n => exact .item x (.nil _)
  | item y _ ih => exact .item y ih
  | skip y _ ih => exact .skip y ih

end InFlight

/-! ### Paths and the log of the sender -/

/-- What is on its way on path `c` from counter `r` to counter `s`: items as they
stand in the log, with the skips leading past entries of other paths; after `s`
nothing was sent on this path. -/
inductive Walk (log : List (ι × κ)) (c : ι) : ℕ → List (Item κ) → ℕ → Prop
  | nil {r : ℕ} : (∀ (n : ℕ) (x : κ), r ≤ n → log[n]? ≠ some (c, x)) → Walk log c r [] r
  | item {r s : ℕ} {q : List (Item κ)} {x : κ} :
      log[r]? = some (c, x) → Walk log c (r + 1) q s → Walk log c r (.item x :: q) s
  | skip {r s k : ℕ} {q : List (Item κ)} {x : κ} :
      (∀ (n : ℕ) (y : κ), r ≤ n → n < r + k → log[n]? ≠ some (c, y)) → log[r + k]? = some (c, x) →
      Walk log c (r + k + 1) q s → Walk log c r (.skip k :: .item x :: q) s

section Walk

variable {log : List (ι × κ)} {c : ι} {r s : ℕ} {q : List (Item κ)} {x : κ}

theorem Walk.inFlight (h : Walk log c r q s) : InFlight r q s := by
  induction h with
  | nil _ => exact .nil _
  | item _ _ ih => exact .item _ ih
  | skip _ _ _ ih => exact .skip _ ih

theorem Walk.no_entry (h : Walk log c r [] s) {n : ℕ} (hn : r ≤ n) (x : κ) :
    log[n]? ≠ some (c, x) := by
  cases h with
  | nil hfree => exact hfree n x hn

theorem getElem?_snoc_of_some {log : List (ι × κ)} {n : ℕ} {e : ι × κ} (e' : ι × κ)
    (h : log[n]? = some e) : (log ++ [e'])[n]? = some e := by
  rw [List.getElem?_append_left (List.getElem?_eq_some_iff.mp h).1, h]

theorem getElem?_snoc_eq_some {log : List (ι × κ)} {n : ℕ} {e e' : ι × κ}
    (h : (log ++ [e'])[n]? = some e) : log[n]? = some e ∨ n = log.length ∧ e = e' := by
  rcases Nat.lt_trichotomy n log.length with hlt | rfl | hgt
  · rw [List.getElem?_append_left hlt] at h
    exact .inl h
  · rw [List.getElem?_concat_length] at h
    exact .inr ⟨rfl, (Option.some.inj h).symm⟩
  · rw [List.getElem?_eq_none (by simp; omega)] at h
    exact absurd h (by simp)

theorem Walk.snoc_other (h : Walk log c r q s) {c' : ι} (hc : c' ≠ c) (y : κ) :
    Walk (log ++ [(c', y)]) c r q s := by
  have hkeep : ∀ (n : ℕ) (x : κ), log[n]? ≠ some (c, x) → (log ++ [(c', y)])[n]? ≠ some (c, x) := by
    intro n x hn hsome
    rcases getElem?_snoc_eq_some hsome with hold | ⟨-, heq⟩
    · exact hn hold
    · exact hc (Prod.mk.inj heq).1.symm
  induction h with
  | nil hfree => exact .nil fun n x hn => hkeep n x (hfree n x hn)
  | item hx _ ih => exact .item (getElem?_snoc_of_some _ hx) ih
  | skip hfree hx _ ih =>
    exact .skip (fun n y hn hlt => hkeep n y (hfree n y hn hlt)) (getElem?_snoc_of_some _ hx) ih

theorem no_entry_snoc {m : ℕ} {e e' : ι × κ} (hfree : ∀ (n : ℕ) (y : κ), r ≤ n → n < m →
    log[n]? ≠ some (c, y)) (hx : log[m]? = some e) :
    ∀ (n : ℕ) (y : κ), r ≤ n → n < m → (log ++ [e'])[n]? ≠ some (c, y) := by
  intro n y hn hlt hsome
  rcases getElem?_snoc_eq_some hsome with hold | ⟨hlen, -⟩
  · exact hfree n y hn hlt hold
  · have hle := (List.getElem?_eq_some_iff.mp hx).1
    omega

theorem no_entry_of_length_le (c : ι) (x : κ) {n : ℕ} (hn : log.length ≤ n) :
    log[n]? ≠ some (c, x) := by
  rw [List.getElem?_eq_none hn]
  simp

theorem Walk.snoc_new (log : List (ι × κ)) (c : ι) (x : κ) :
    Walk (log ++ [(c, x)]) c (log.length + 1) [] (log.length + 1) :=
  .nil fun _ y hn => no_entry_of_length_le c y (by simpa using hn)

theorem Walk.snoc_item (h : Walk log c r q s) (hs : s = log.length) (x : κ) :
    Walk (log ++ [(c, x)]) c r (q ++ [.item x]) (log.length + 1) := by
  induction h with
  | nil _ =>
    subst hs
    exact .item List.getElem?_concat_length (.snoc_new log c x)
  | item hx _ ih => exact .item (getElem?_snoc_of_some _ hx) (ih hs)
  | skip hfree hx hq ih =>
    exact .skip (no_entry_snoc hfree hx) (getElem?_snoc_of_some _ hx) (ih hs)

theorem Walk.snoc_skip (h : Walk log c r q s) {k : ℕ} (hs : s + k = log.length) (x : κ) :
    Walk (log ++ [(c, x)]) c r (q ++ [.skip k, .item x]) (log.length + 1) := by
  induction h with
  | nil hfree =>
    refine .skip (fun n y hn hlt hsome => ?_) ?_ ?_
    · rcases getElem?_snoc_eq_some hsome with hold | ⟨hlen, -⟩
      · exact hfree n y hn hold
      · omega
    · rw [hs]
      exact List.getElem?_concat_length
    · rw [hs]
      exact .snoc_new log c x
  | item hx _ ih => exact .item (getElem?_snoc_of_some _ hx) (ih hs)
  | skip hfree hx hq ih =>
    exact .skip (no_entry_snoc hfree hx) (getElem?_snoc_of_some _ hx) (ih hs)

end Walk

/-! ### The channel -/

/-- The log of the sender, the counters of both ends on each path, what is on its
way, and what the receiver holds back and has delivered.  A path without a counter at
the receiver is not open. -/
structure Chan (ι κ : Type*) where
  log : List (ι × κ)
  sent : ι → Option ℕ
  recv : ι → Option ℕ
  inq : ι → List (Item κ)
  held : List (ℕ × κ)
  delivered : ℕ
  out : List κ

/-- What the ends and the paths keep between them.  A path that is open at the
receiver alone has nothing on its way. -/
structure Chan.Inv (ch : Chan ι κ) : Prop where
  walk : ∀ c r, ch.recv c = some r → Walk ch.log c r (ch.inq c) ((ch.sent c).getD r)
  idle : ∀ c, ch.recv c = none → ch.inq c = [] ∧ ∀ (n : ℕ) (x : κ), ch.log[n]? ≠ some (c, x)
  sent_le : ∀ c s, ch.sent c = some s → s ≤ ch.log.length
  recv_le : ∀ c r, ch.recv c = some r → r ≤ ch.log.length
  delivered_le : ch.delivered ≤ ch.log.length
  done : ∀ (n : ℕ) c x, n < ch.delivered → ch.log[n]? = some (c, x) → ∃ r, ch.recv c = some r ∧ n < r
  held_iff : ∀ (n : ℕ) (x : κ), (n, x) ∈ ch.held ↔ ch.delivered < n ∧
    ∃ c r, ch.log[n - 1]? = some (c, x) ∧ ch.recv c = some r ∧ n ≤ r
  sorted : ch.held.Pairwise fun a b => a.1 < b.1
  out_eq : ch.out = (ch.log.take ch.delivered).map Prod.snd

def Chan.Settled (ch : Chan ι κ) : Prop := ∀ x, (ch.delivered + 1, x) ∉ ch.held

namespace Chan.Inv

variable {ch ch' : Chan ι κ}

theorem out_isPrefix (h : ch.Inv) : ch.out <+: ch.log.map Prod.snd := by
  rw [h.out_eq, List.map_take]
  exact List.take_prefix _ _

theorem delivered_eq (h : ch.Inv) (hset : ch.Settled) (hidle : ∀ c x, .item x ∉ ch.inq c) :
    ch.held = [] ∧ ch.out = ch.log.map Prod.snd := by
  have hall : ∀ (n : ℕ) (c : ι) (x : κ), ch.log[n]? = some (c, x) → ∃ r, ch.recv c = some r ∧ n < r := by
    intro n c x hn
    cases hr : ch.recv c with
    | none => exact absurd hn ((h.idle c hr).2 n x)
    | some r =>
      refine ⟨r, rfl, ?_⟩
      by_contra hle
      have hwalk := h.walk c r hr
      rw [hwalk.inFlight.no_item_iff.mp (hidle c)] at hwalk
      exact hwalk.no_entry (by omega) x hn
  have heq : ch.delivered = ch.log.length := by
    refine le_antisymm h.delivered_le ?_
    by_contra hlt
    obtain ⟨e, he⟩ : ∃ e, ch.log[ch.delivered]? = some e :=
      ⟨_, List.getElem?_eq_getElem (by omega)⟩
    obtain ⟨r, hr, hle⟩ := hall ch.delivered e.1 e.2 he
    exact hset e.2 ((h.held_iff _ _).mpr ⟨by omega, e.1, r, he, hr, by omega⟩)
  constructor
  · refine List.eq_nil_iff_forall_not_mem.mpr fun ⟨n, x⟩ hmem => ?_
    obtain ⟨hlt, c, r, -, hr, hle⟩ := (h.held_iff n x).mp hmem
    have hlen := h.recv_le c r hr
    omega
  · rw [h.out_eq, heq, List.take_length]

theorem exists_sent (h : ch.Inv) {c : ι} {r : ℕ} (hr : ch.recv c = some r) {i : Item κ}
    {q : List (Item κ)} (hq : ch.inq c = i :: q) :
    ∃ s, ch.sent c = some s ∧ Walk ch.log c r (i :: q) s := by
  have hwalk := h.walk c r hr
  rw [hq] at hwalk
  cases hs : ch.sent c with
  | none =>
    rw [hs, Option.getD_none] at hwalk
    exact absurd (hwalk.inFlight.eq_nil_iff.mpr rfl) (List.cons_ne_nil i q)
  | some s =>
    rw [hs, Option.getD_some] at hwalk
    exact ⟨s, rfl, hwalk⟩

theorem entry (h : ch.Inv) {c : ι} {r : ℕ} (hr : ch.recv c = some r) {x : κ} {q : List (Item κ)}
    (hq : ch.inq c = .item x :: q) :
    ch.log[r]? = some (c, x) ∧ ch.delivered ≤ r ∧ r < ch.log.length ∧
      Walk ch.log c (r + 1) q ((ch.sent c).getD (r + 1)) := by
  obtain ⟨s, hs, hwalk⟩ := h.exists_sent hr hq
  rw [hs, Option.getD_some]
  cases hwalk with
  | item hx hrest =>
    refine ⟨hx, ?_, (List.getElem?_eq_some_iff.mp hx).1, hrest⟩
    by_contra hlt
    obtain ⟨r', hr', hlt'⟩ := h.done r c x (by omega) hx
    rw [hr] at hr'
    obtain rfl := Option.some.inj hr'
    exact absurd hlt' (lt_irrefl _)

theorem skip_entry (h : ch.Inv) {c : ι} {r k : ℕ} (hr : ch.recv c = some r)
    {q : List (Item κ)} (hq : ch.inq c = .skip k :: q) :
    (∀ (n : ℕ) (y : κ), r ≤ n → n < r + k → ch.log[n]? ≠ some (c, y)) ∧
      r + k < ch.log.length ∧ Walk ch.log c (r + k) q ((ch.sent c).getD (r + k)) := by
  obtain ⟨s, hs, hwalk⟩ := h.exists_sent hr hq
  rw [hs, Option.getD_some]
  cases hwalk with
  | skip hfree hx hrest =>
    exact ⟨hfree, (List.getElem?_eq_some_iff.mp hx).1, .item hx hrest⟩

end Chan.Inv

/-! ### The steps of a channel -/

namespace Chan

variable [DecidableEq ι] (ch : Chan ι κ) (c : ι)

def send (items : List (Item κ)) (x : κ) : Chan ι κ :=
  { ch with
    log := ch.log ++ [(c, x)]
    sent := Function.update ch.sent c (some (ch.log.length + 1))
    inq := Function.update ch.inq c (ch.inq c ++ items) }

def arriveSkip (r : ℕ) (q : List (Item κ)) : Chan ι κ :=
  { ch with recv := Function.update ch.recv c (some r), inq := Function.update ch.inq c q }

def arriveNext (r : ℕ) (q : List (Item κ)) (x : κ) : Chan ι κ :=
  { ch with
    recv := Function.update ch.recv c (some r)
    inq := Function.update ch.inq c q
    delivered := ch.delivered + 1
    out := ch.out ++ [x] }

def arriveEarly (r : ℕ) (q : List (Item κ)) (held : List (ℕ × κ)) : Chan ι κ :=
  { ch with
    recv := Function.update ch.recv c (some r)
    inq := Function.update ch.inq c q
    held := held }

def release (held : List (ℕ × κ)) (x : κ) : Chan ι κ :=
  { ch with held := held, delivered := ch.delivered + 1, out := ch.out ++ [x] }

def openPath (r : ℕ) (s : Option ℕ) : Chan ι κ :=
  { ch with recv := Function.update ch.recv c (some r), sent := Function.update ch.sent c s }

end Chan

namespace Chan.Inv

variable [DecidableEq ι] {ch : Chan ι κ} {c : ι}

theorem update_cases {α : Type*} {f : ι → Option α} {c d : ι} {a b : α}
    (h : Function.update f c (some a) d = some b) :
    (d = c ∧ b = a) ∨ (d ≠ c ∧ f d = some b) := by
  by_cases hd : d = c
  · subst hd
    rw [Function.update_self] at h
    exact .inl ⟨rfl, (Option.some.inj h).symm⟩
  · rw [Function.update_of_ne hd] at h
    exact .inr ⟨hd, h⟩

theorem send (h : ch.Inv) {s : ℕ} (hs : ch.sent c = some s) (hr : ch.recv c ≠ none) (x : κ)
    {items : List (Item κ)}
    (hitems : (items = [.item x] ∧ s = ch.log.length) ∨
      ∃ k, items = [.skip k, .item x] ∧ s + k = ch.log.length) :
    (ch.send c items x).Inv := by
  have hlen : (ch.log ++ [(c, x)]).length = ch.log.length + 1 := by simp
  have hkeep : ∀ (n : ℕ) (d : ι) (y : κ), n < ch.log.length →
      ((ch.log ++ [(c, x)])[n]? = some (d, y) ↔ ch.log[n]? = some (d, y)) := by
    intro n d y hn
    rw [List.getElem?_append_left hn]
  refine ⟨?_, ?_, ?_, ?_, ?_, ?_, ?_, h.sorted, ?_⟩
  · intro d r hd
    by_cases hdc : d = c
    · subst hdc
      have hwalk := h.walk d r hd
      rw [hs, Option.getD_some] at hwalk
      simp only [Chan.send, Function.update_self, Option.getD_some]
      rcases hitems with ⟨rfl, hslen⟩ | ⟨k, rfl, hslen⟩
      · exact hwalk.snoc_item hslen x
      · exact hwalk.snoc_skip hslen x
    · simp only [Chan.send, Function.update_of_ne hdc]
      exact (h.walk d r hd).snoc_other (Ne.symm hdc) x
  · intro d hd
    have hdc : d ≠ c := by
      rintro rfl
      exact hr hd
    simp only [Chan.send, Function.update_of_ne hdc]
    refine ⟨(h.idle d hd).1, fun n y hn => ?_⟩
    rcases getElem?_snoc_eq_some hn with hold | ⟨-, heq⟩
    · exact (h.idle d hd).2 n y hold
    · exact hdc (Prod.mk.inj heq).1
  · intro d s' hd
    simp only [Chan.send, hlen]
    rcases update_cases hd with ⟨-, rfl⟩ | ⟨-, hold⟩
    · exact le_rfl
    · exact (h.sent_le d s' hold).trans (Nat.le_succ _)
  · intro d r hd
    simp only [Chan.send, hlen]
    exact (h.recv_le d r hd).trans (Nat.le_succ _)
  · simp only [Chan.send, hlen]
    exact h.delivered_le.trans (Nat.le_succ _)
  · intro n d y hn hlog
    exact h.done n d y hn ((hkeep n d y (lt_of_lt_of_le hn h.delivered_le)).mp hlog)
  · intro n y
    rw [show (ch.send c items x).held = ch.held from rfl, h.held_iff]
    refine and_congr_right fun hn => exists_congr fun d => exists_congr fun r => ?_
    refine and_congr_left fun hrn => ?_
    have hle := h.recv_le d r hrn.1
    have hnr : n ≤ r := hrn.2
    have hn' : ch.delivered < n := hn
    exact (hkeep _ d y (by omega)).symm
  · simp only [Chan.send, h.out_eq]
    rw [List.take_append_of_le_length h.delivered_le]

/-- What has been received once the counter of a path has moved on from `r` to `r'`. -/
theorem recv_update_iff {r r' : ℕ} (hr : ch.recv c = some r) (hle : r ≤ r')
    (n : ℕ) (d : ι) :
    (∃ m, Function.update ch.recv c (some r') d = some m ∧ n < m) ↔
      (∃ m, ch.recv d = some m ∧ n < m) ∨ (d = c ∧ r ≤ n ∧ n < r') := by
  by_cases hd : d = c
  · subst hd
    simp only [Function.update_self, Option.some.injEq, exists_eq_left', hr, true_and]
    omega
  · simp [hd]

theorem arriveSkip (h : ch.Inv) {r k : ℕ} (hr : ch.recv c = some r) {q : List (Item κ)}
    (hq : ch.inq c = .skip k :: q) : (ch.arriveSkip c (r + k) q).Inv := by
  obtain ⟨hfree, hlen, hrest⟩ := h.skip_entry hr hq
  have hrecv := recv_update_iff hr (Nat.le_add_right r k)
  refine ⟨?_, ?_, h.sent_le, ?_, h.delivered_le, ?_, ?_, h.sorted, h.out_eq⟩
  · intro d m hd
    by_cases hdc : d = c
    · subst hdc
      simp only [Chan.arriveSkip, Function.update_self, Option.some.injEq] at hd ⊢
      exact hd ▸ hrest
    · simp only [Chan.arriveSkip, Function.update_of_ne hdc] at hd ⊢
      exact h.walk d m hd
  · intro d hd
    have hdc : d ≠ c := by
      rintro rfl
      simp [Chan.arriveSkip] at hd
    simp only [Chan.arriveSkip, Function.update_of_ne hdc] at hd ⊢
    exact h.idle d hd
  · intro d m hd
    rcases update_cases hd with ⟨-, rfl⟩ | ⟨-, hold⟩
    · exact hlen.le
    · exact h.recv_le d m hold
  · intro n d x hn hlog
    exact (hrecv n d).mpr (.inl (h.done n d x hn hlog))
  · intro n x
    rw [show (ch.arriveSkip c (r + k) q).held = ch.held from rfl, h.held_iff]
    refine and_congr_right fun hn => ?_
    have hn' : ch.delivered < n := hn
    constructor
    · rintro ⟨d, m, hlog, hm, hle⟩
      obtain ⟨m', hm', hlt⟩ := (hrecv (n - 1) d).mpr (.inl ⟨m, hm, by omega⟩)
      exact ⟨d, m', hlog, hm', by omega⟩
    · rintro ⟨d, m, hlog, hm, hle⟩
      rcases (hrecv (n - 1) d).mp ⟨m, hm, by omega⟩ with ⟨m', hm', hlt⟩ | ⟨rfl, hge, hlt⟩
      · exact ⟨d, m', hlog, hm', by omega⟩
      · exact absurd hlog (hfree _ x hge hlt)

theorem received_next_iff {r : ℕ} (hr : ch.recv c = some r) {x : κ}
    (hx : ch.log[r]? = some (c, x)) {n : ℕ} (hn : 0 < n) (y : κ) :
    (∃ d m, ch.log[n - 1]? = some (d, y) ∧ Function.update ch.recv c (some (r + 1)) d = some m ∧
        n ≤ m) ↔
      (∃ d m, ch.log[n - 1]? = some (d, y) ∧ ch.recv d = some m ∧ n ≤ m) ∨ (n = r + 1 ∧ y = x) := by
  have hrecv := recv_update_iff hr (Nat.le_add_right r 1)
  constructor
  · rintro ⟨d, m, hlog, hm, hle⟩
    rcases (hrecv (n - 1) d).mp ⟨m, hm, by omega⟩ with ⟨m', hm', hlt⟩ | ⟨rfl, hge, hlt⟩
    · exact .inl ⟨d, m', hlog, hm', by omega⟩
    · obtain rfl : n = r + 1 := by omega
      rw [Nat.add_sub_cancel, hx] at hlog
      exact .inr ⟨rfl, (Prod.mk.inj (Option.some.inj hlog)).2.symm⟩
  · rintro (⟨d, m, hlog, hm, hle⟩ | ⟨rfl, rfl⟩)
    · obtain ⟨m', hm', hlt⟩ := (hrecv (n - 1) d).mpr (.inl ⟨m, hm, by omega⟩)
      exact ⟨d, m', hlog, hm', by omega⟩
    · exact ⟨c, r + 1, hx, by simp, le_rfl⟩

theorem arrive_frame (h : ch.Inv) {r : ℕ} (hr : ch.recv c = some r) {x : κ} {q : List (Item κ)}
    (hq : ch.inq c = .item x :: q) :
    (∀ d m, Function.update ch.recv c (some (r + 1)) d = some m →
        Walk ch.log d m (Function.update ch.inq c q d) ((ch.sent d).getD m) ∧ m ≤ ch.log.length) ∧
      ∀ d, Function.update ch.recv c (some (r + 1)) d = none →
        Function.update ch.inq c q d = [] ∧ ∀ (n : ℕ) (y : κ), ch.log[n]? ≠ some (d, y) := by
  obtain ⟨-, -, hlen, hrest⟩ := h.entry hr hq
  constructor
  · intro d m hd
    rcases update_cases hd with ⟨rfl, rfl⟩ | ⟨hdc, hold⟩
    · simp only [Function.update_self]
      exact ⟨hrest, hlen⟩
    · rw [Function.update_of_ne hdc]
      exact ⟨h.walk d m hold, h.recv_le d m hold⟩
  · intro d hd
    have hdc : d ≠ c := by
      rintro rfl
      simp at hd
    rw [Function.update_of_ne hdc] at hd ⊢
    exact h.idle d hd

theorem arriveNext (h : ch.Inv) {r : ℕ} (hr : ch.recv c = some r) {x : κ} {q : List (Item κ)}
    (hq : ch.inq c = .item x :: q) (hnext : r = ch.delivered) :
    (ch.arriveNext c (r + 1) q x).Inv := by
  obtain ⟨hx, -, hlen, -⟩ := h.entry hr hq
  obtain ⟨hwalk, hidle⟩ := h.arrive_frame hr hq
  have hrecv := recv_update_iff hr (Nat.le_add_right r 1)
  refine ⟨fun d m hd => (hwalk d m hd).1, hidle, h.sent_le, fun d m hd => (hwalk d m hd).2,
    hnext ▸ hlen, ?_, ?_, h.sorted, ?_⟩
  · intro n d y hn hlog
    rcases Nat.lt_succ_iff_lt_or_eq.mp hn with hlt | rfl
    · exact (hrecv n d).mpr (.inl (h.done n d y hlt hlog))
    · rw [← hnext] at hlog ⊢
      obtain rfl : c = d := (Prod.mk.inj (Option.some.inj (hx.symm.trans hlog))).1
      exact ⟨r + 1, by simp [Chan.arriveNext], Nat.lt_succ_self r⟩
  · intro n y
    simp only [Chan.arriveNext]
    rw [h.held_iff]
    constructor
    · rintro ⟨hlt, d, m, hlog, hm, hle⟩
      refine ⟨?_, (received_next_iff hr hx (by omega) y).mpr (.inl ⟨d, m, hlog, hm, hle⟩)⟩
      -- the item that arrives was not received before
      by_contra hge
      obtain rfl : n = r + 1 := by omega
      rw [Nat.add_sub_cancel, hx] at hlog
      obtain rfl : c = d := (Prod.mk.inj (Option.some.inj hlog)).1
      obtain rfl : r = m := Option.some.inj (hr.symm.trans hm)
      omega
    · rintro ⟨hlt, hreceived⟩
      rcases (received_next_iff hr hx (by omega) y).mp hreceived with hold | ⟨rfl, -⟩
      · exact ⟨by omega, hold⟩
      · omega
  · subst hnext
    simp only [Chan.arriveNext, h.out_eq]
    rw [List.take_add_one, hx]
    simp

theorem arriveEarly (h : ch.Inv) {r : ℕ} (hr : ch.recv c = some r) {x : κ} {q : List (Item κ)}
    (hq : ch.inq c = .item x :: q) {held : List (ℕ × κ)}
    (hmem : ∀ e, e ∈ held ↔ e = (r + 1, x) ∨ e ∈ ch.held)
    (hsorted : (∀ y, (r + 1, y) ∉ ch.held) → held.Pairwise fun a b => a.1 < b.1) :
    (ch.arriveEarly c (r + 1) q held).Inv := by
  obtain ⟨hx, hge, hlen, -⟩ := h.entry hr hq
  obtain ⟨hwalk, hidle⟩ := h.arrive_frame hr hq
  have hrecv := recv_update_iff hr (Nat.le_add_right r 1)
  refine ⟨fun d m hd => (hwalk d m hd).1, hidle, h.sent_le, fun d m hd => (hwalk d m hd).2,
    h.delivered_le, ?_, ?_, hsorted ?_, h.out_eq⟩
  · intro n d y hn hlog
    exact (hrecv n d).mpr (.inl (h.done n d y hn hlog))
  · intro n y
    simp only [Chan.arriveEarly]
    rw [hmem, h.held_iff]
    constructor
    · rintro (heq | ⟨hlt, hold⟩)
      · obtain ⟨rfl, rfl⟩ := Prod.mk.inj heq
        exact ⟨by omega, (received_next_iff hr hx (by omega) _).mpr (.inr ⟨rfl, rfl⟩)⟩
      · exact ⟨hlt, (received_next_iff hr hx (by omega) y).mpr (.inl hold)⟩
    · rintro ⟨hlt, hreceived⟩
      rcases (received_next_iff hr hx (by omega) y).mp hreceived with hold | ⟨rfl, rfl⟩
      · exact .inr ⟨hlt, hold⟩
      · exact .inl rfl
  · -- it was not received before, so it is not held back yet
    intro y hy
    obtain ⟨-, d, m, hlog, hm, hle⟩ := (h.held_iff _ _).mp hy
    rw [Nat.add_sub_cancel, hx] at hlog
    obtain rfl : c = d := (Prod.mk.inj (Option.some.inj hlog)).1
    obtain rfl : r = m := Option.some.inj (hr.symm.trans hm)
    omega

omit [DecidableEq ι] in
theorem release (h : ch.Inv) {x : κ} {held : List (ℕ × κ)}
    (hheld : ch.held = (ch.delivered + 1, x) :: held) : (ch.release held x).Inv := by
  have hmem : (ch.delivered + 1, x) ∈ ch.held := hheld ▸ List.mem_cons_self
  obtain ⟨-, c, r, hlog, hr, hle⟩ := (h.held_iff _ _).mp hmem
  rw [Nat.add_sub_cancel] at hlog
  have hsorted := h.sorted
  rw [hheld, List.pairwise_cons] at hsorted
  refine ⟨h.walk, h.idle, h.sent_le, h.recv_le, (List.getElem?_eq_some_iff.mp hlog).1, ?_, ?_,
    hsorted.2, ?_⟩
  · intro n d y hn hy
    rcases Nat.lt_succ_iff_lt_or_eq.mp hn with hlt | rfl
    · exact h.done n d y hlt hy
    · obtain rfl : c = d := (Prod.mk.inj (Option.some.inj (hlog.symm.trans hy))).1
      exact ⟨r, hr, hle⟩
  · intro n y
    have hiff := h.held_iff n y
    rw [hheld, List.mem_cons] at hiff
    simp only [Chan.release]
    constructor
    · intro hn
      have hlt : ch.delivered + 1 < n := hsorted.1 _ hn
      exact ⟨hlt, (hiff.mp (.inr hn)).2⟩
    · rintro ⟨hlt, hrest⟩
      rcases hiff.mpr ⟨by omega, hrest⟩ with heq | hn
      · have hn : n = ch.delivered + 1 := (Prod.mk.inj heq).1
        omega
      · exact hn
  · simp only [Chan.release, h.out_eq]
    rw [List.take_add_one, hlog]
    simp

theorem openPath (h : ch.Inv) (hr : ch.recv c = none) {r : ℕ} (hle : r ≤ ch.log.length)
    {s : Option ℕ} (hs : s.getD r = r) : (ch.openPath c r s).Inv := by
  obtain ⟨hq, hfree⟩ := h.idle c hr
  have hother : ∀ (n : ℕ) (d : ι) (y : κ) (m : ℕ), ch.log[n]? = some (d, y) →
      (Function.update ch.recv c (some r) d = some m ↔ ch.recv d = some m) := by
    intro n d y m hlog
    have hdc : d ≠ c := by
      rintro rfl
      exact hfree n y hlog
    rw [Function.update_of_ne hdc]
  refine ⟨?_, ?_, ?_, ?_, h.delivered_le, ?_, ?_, h.sorted, h.out_eq⟩
  · intro d m hd
    rcases update_cases hd with ⟨rfl, rfl⟩ | ⟨hdc, hold⟩
    · simp only [Chan.openPath, Function.update_self, hs, hq]
      exact .nil fun n y _ => hfree n y
    · simp only [Chan.openPath, Function.update_of_ne hdc]
      exact h.walk d m hold
  · intro d hd
    have hdc : d ≠ c := by
      rintro rfl
      simp [Chan.openPath] at hd
    simp only [Chan.openPath, Function.update_of_ne hdc] at hd ⊢
    exact h.idle d hd
  · intro d m hd
    by_cases hdc : d = c
    · subst hdc
      simp only [Chan.openPath, Function.update_self] at hd
      subst hd
      rw [Option.getD_some] at hs
      exact hs ▸ hle
    · simp only [Chan.openPath, Function.update_of_ne hdc] at hd
      exact h.sent_le d m hd
  · intro d m hd
    rcases update_cases hd with ⟨-, rfl⟩ | ⟨-, hold⟩
    · exact hle
    · exact h.recv_le d m hold
  · intro n d y hn hlog
    obtain ⟨m, hm, hlt⟩ := h.done n d y hn hlog
    exact ⟨m, (hother n d y m hlog).mpr hm, hlt⟩
  · intro n y
    rw [show (ch.openPath c r s).held = ch.held from rfl, h.held_iff]
    refine and_congr_right fun _ => exists_congr fun d => exists_congr fun m => ?_
    refine and_congr_right fun hlog => and_congr_left fun _ => ?_
    exact (hother _ d y m hlog).symm

omit [DecidableEq ι] in
theorem join (h : ch.Inv) {sent : ι → Option ℕ}
    (hsent : ∀ c, sent c = ch.sent c ∨ ch.sent c = none ∧ sent c = ch.recv c) :
    ({ ch with sent := sent } : Chan ι κ).Inv := by
  refine ⟨?_, h.idle, ?_, h.recv_le, h.delivered_le, h.done, h.held_iff, h.sorted, h.out_eq⟩
  · intro c r hr
    have hwalk := h.walk c r hr
    rcases hsent c with heq | ⟨hnone, heq⟩
    · simpa only [heq] using hwalk
    · simpa only [heq, show ch.recv c = some r from hr, hnone, Option.getD_none,
        Option.getD_some] using hwalk
  · intro c s hs
    rcases hsent c with heq | ⟨-, heq⟩
    · exact h.sent_le c s (heq ▸ hs)
    · exact h.recv_le c s (heq ▸ hs)

end Chan.Inv

end Multipath
