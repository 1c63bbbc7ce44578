/-
The replay cache (`feature/hs_common/replaycache.c`).

A cache holds the digest of what was presented with the time at which it was last presented.  Digests
whose time is behind the horizon are removed now and then, at most once per scrub interval.
-/
import Mathlib.Data.List.Induction
import Mathlib.Data.List.Pairwise
import Mathlib.Logic.Function.Basic
import LibEltor.Bytes

open Bytes

namespace Replaycache

/-- `digestsSeen` is the time at which each digest was last seen; `scrubbed` is zero before the first
scrub. -/
structure Cache (δ : Type) where
  scrubInterval : ℤ
  scrubbed : ℤ
  horizon : ℤ
  digestsSeen : δ → Option ℤ

variable {δ : Type}

def replaycacheNew (δ : Type) (horizon interval : ℤ) : Option (Cache δ) :=
  if horizon < 0 then none
  else some
    { scrubInterval := if interval < 0 then 0 else interval
      scrubbed := 0
      horizon := horizon
      digestsSeen := fun _ => none }

/-- The digests that are left when those behind the horizon are removed. -/
def scrub (present horizon : ℤ) (digestsSeen : δ → Option ℤ) : δ → Option ℤ := fun d =>
  (digestsSeen d).filter fun accessTime => !decide (accessTime < present - horizon)

def replaycacheScrubIfNeededInternal (present : ℤ) (r : Cache δ) : Cache δ :=
  if present - r.scrubbed < r.scrubInterval ∧ r.scrubbed > 0 then r
  else if r.horizon = 0 then r
  else
    { r with
      digestsSeen := scrub present r.horizon r.digestsSeen
      scrubbed := if present > r.scrubbed then present else r.scrubbed }

structure Outcome (δ : Type) where
  rv : ℤ
  elapsed : Option ℤ
  cache : Option (Cache δ)

/-- A cache that could not be made, and data without a length, are refused. -/
def replaycacheAddAndTestInternal [DecidableEq δ] (digest : Bytes → δ) (present : ℤ) (r : Option (Cache δ))
    (data : Bytes) : Outcome δ :=
  match r with
  | none => ⟨0, none, none⟩
  | some r =>
    if present ≤ 0 ∨ data = [] then ⟨0, none, some r⟩
    else
      match r.digestsSeen (digest data) with
      | some accessTime =>
        let hit := decide (accessTime ≥ present - r.horizon) || decide (r.horizon = 0)
        let elapsed :=
          if hit then some (if present ≥ accessTime then present - accessTime else 0) else none
        let r := { r with
          digestsSeen := if accessTime < present then
              Function.update r.digestsSeen (digest data) (some present)
            else r.digestsSeen }
        ⟨if hit then 1 else 0, elapsed, some (replaycacheScrubIfNeededInternal present r)⟩
      | none =>
        let r := { r with
          digestsSeen := Function.update r.digestsSeen (digest data) (some present) }
        ⟨0, none, some (replaycacheScrubIfNeededInternal present r)⟩

/-! ### Runs -/

structure Call where
  present : ℤ
  data : Bytes

def after [DecidableEq δ] (digest : Bytes → δ) (horizon interval : ℤ) (calls : List Call) :
    Option (Cache δ) :=
  calls.foldl (fun r c => (replaycacheAddAndTestInternal digest c.present r c.data).cache)
    (replaycacheNew δ horizon interval)

structure Forward (calls : List Call) : Prop where
  pos : ∀ c ∈ calls, 0 < c.present
  mono : calls.Pairwise fun b c => b.present ≤ c.present

/-- A call presents what the data of `c` is, and is within the horizon of `c`. -/
def Presents (horizon : ℤ) (c b : Call) : Prop :=
  b.data = c.data ∧ (horizon = 0 ∨ c.present - horizon ≤ b.present)

/-- What is in the cache was presented at its time, and what is not is behind the horizon. -/
structure Holds (digest : Bytes → δ) (horizon : ℤ) (calls : List Call) (present : ℤ)
    (digestsSeen : δ → Option ℤ) : Prop where
  sound : ∀ d t, digestsSeen d = some t →
    ∃ b ∈ calls, b.data ≠ [] ∧ digest b.data = d ∧ b.present = t
  complete : ∀ b ∈ calls, b.data ≠ [] →
    (∃ t, digestsSeen (digest b.data) = some t ∧ b.present ≤ t) ∨
      horizon ≠ 0 ∧ b.present < present - horizon

variable {digest : Bytes → δ} {horizon interval : ℤ} {calls : List Call} {present : ℤ}
  {seen : δ → Option ℤ}

theorem Holds.later (h : Holds digest horizon calls present seen) {present' : ℤ}
    (hle : present ≤ present') : Holds digest horizon calls present' seen where
  sound := h.sound
  complete b hb hdata := by
    rcases h.complete b hb hdata with hin | ⟨hzero, hold⟩
    · exact Or.inl hin
    · exact Or.inr ⟨hzero, by omega⟩

theorem Holds.scrub (h : Holds digest horizon calls present seen) (hzero : horizon ≠ 0) :
    Holds digest horizon calls present (scrub present horizon seen) where
  sound d t ht := h.sound d t (Option.filter_eq_some_iff.mp ht).1
  complete b hb hdata := by
    rcases h.complete b hb hdata with ⟨t, ht, hle⟩ | hold
    · by_cases hout : t < present - horizon
      · exact Or.inr ⟨hzero, by omega⟩
      · exact Or.inl ⟨t, Option.filter_eq_some_iff.mpr ⟨ht, by simp [hout]⟩, hle⟩
    · exact Or.inr hold

theorem Holds.update [DecidableEq δ] {c : Call} (h : Holds digest horizon calls c.present seen)
    (hdata : c.data ≠ []) (hmono : ∀ b ∈ calls, b.present ≤ c.present) :
    Holds digest horizon (calls ++ [c]) c.present
      (Function.update seen (digest c.data) (some c.present)) where
  sound d t ht := by
    by_cases hd : d = digest c.data
    · rw [hd, Function.update_self] at ht
      exact ⟨c, by simp, hdata, hd.symm, Option.some.inj ht⟩
    · rw [Function.update_of_ne hd] at ht
      obtain ⟨b, hb, hrest⟩ := h.sound d t ht
      exact ⟨b, List.mem_append_left _ hb, hrest⟩
  complete b hb hbdata := by
    have hle : b.present ≤ c.present := by
      rcases List.mem_append.mp hb with hb | hb
      · exact hmono b hb
      · rw [List.mem_singleton.mp hb]
    by_cases hd : digest b.data = digest c.data
    · exact Or.inl ⟨c.present, by rw [hd, Function.update_self], hle⟩
    · rw [Function.update_of_ne hd]
      rcases List.mem_append.mp hb with hb | hb
      · exact h.complete b hb hbdata
      · rw [List.mem_singleton.mp hb] at hd
        exact absurd rfl hd

theorem Holds.again {c : Call} (h : Holds digest horizon calls c.present seen)
    (hseen : seen (digest c.data) = some c.present) :
    Holds digest horizon (calls ++ [c]) c.present seen where
  sound d t ht := by
    obtain ⟨b, hb, hrest⟩ := h.sound d t ht
    exact ⟨b, List.mem_append_left _ hb, hrest⟩
  complete b hb hbdata := by
    rcases List.mem_append.mp hb with hb | hb
    · exact h.complete b hb hbdata
    · rw [List.mem_singleton.mp hb]
      exact Or.inl ⟨c.present, hseen, le_refl _⟩

theorem Holds.refused {c : Call} (h : Holds digest horizon calls present seen)
    (hdata : c.data = []) : Holds digest horizon (calls ++ [c]) present seen where
  sound d t ht := by
    obtain ⟨b, hb, hrest⟩ := h.sound d t ht
    exact ⟨b, List.mem_append_left _ hb, hrest⟩
  complete b hb hbdata := by
    rcases List.mem_append.mp hb with hb | hb
    · exact h.complete b hb hbdata
    · rw [List.mem_singleton.mp hb] at hbdata
      exact absurd hdata hbdata

/-- The cache of a run: it has the horizon it was made with, and holds what was presented. -/
def Inv (digest : Bytes → δ) (horizon : ℤ) (calls : List Call) (present : ℤ) (r : Cache δ) : Prop :=
  r.horizon = horizon ∧ Holds digest horizon calls present r.digestsSeen

theorem replaycacheScrubIfNeededInternal_cases (present : ℤ) (r : Cache δ) :
    replaycacheScrubIfNeededInternal present r = r ∨
      r.horizon ≠ 0 ∧
        (replaycacheScrubIfNeededInternal present r).horizon = r.horizon ∧
        (replaycacheScrubIfNeededInternal present r).digestsSeen =
          scrub present r.horizon r.digestsSeen := by
  rw [replaycacheScrubIfNeededInternal]
  by_cases hwait : present - r.scrubbed < r.scrubInterval ∧ r.scrubbed > 0
  · exact Or.inl (if_pos hwait)
  rw [if_neg hwait]
  by_cases hnever : r.horizon = 0
  · exact Or.inl (if_pos hnever)
  rw [if_neg hnever]
  exact Or.inr ⟨hnever, rfl, rfl⟩

theorem replaycacheScrubIfNeededInternal_removed {r : Cache δ} {d : δ} {t : ℤ}
    (hin : r.digestsSeen d = some t)
    (hout : (replaycacheScrubIfNeededInternal present r).digestsSeen d = none) :
    r.horizon ≠ 0 ∧ t < present - r.horizon := by
  rcases replaycacheScrubIfNeededInternal_cases present r with hsame | ⟨hzero, -, hseen⟩
  · rw [hsame, hin] at hout
    cases hout
  · refine ⟨hzero, ?_⟩
    by_contra hnot
    have hkept : scrub present r.horizon r.digestsSeen d = some t :=
      Option.filter_eq_some_iff.mpr ⟨hin, by simp [hnot]⟩
    rw [hseen, hkept] at hout
    cases hout

theorem Inv.scrubbed {r : Cache δ} (h : Inv digest horizon calls present r) :
    Inv digest horizon calls present (replaycacheScrubIfNeededInternal present r) := by
  obtain ⟨rfl, hholds⟩ := h
  rcases replaycacheScrubIfNeededInternal_cases present r with hsame | ⟨hzero, hhorizon, hseen⟩
  · rw [hsame]
    exact ⟨rfl, hholds⟩
  · refine ⟨hhorizon, ?_⟩
    rw [hseen]
    exact hholds.scrub hzero

theorem Holds.presents_iff (hinj : Function.Injective digest) {seen : δ → Option ℤ} {c : Call}
    (h : Holds digest horizon calls c.present seen) (hdata : c.data ≠ []) :
    (∃ b ∈ calls, Presents horizon c b) ↔
      ∃ t, seen (digest c.data) = some t ∧ (horizon = 0 ∨ c.present - horizon ≤ t) := by
  constructor
  · rintro ⟨b, hb, hsame, hwithin⟩
    rcases h.complete b hb (by rwa [hsame]) with ⟨t, ht, hle⟩ | ⟨hzero, hold⟩
    · rw [hsame] at ht
      exact ⟨t, ht, hwithin.imp_right fun h => by omega⟩
    · rcases hwithin with hwithin | hwithin
      · exact absurd hwithin hzero
      · omega
  · rintro ⟨t, ht, hwithin⟩
    obtain ⟨b, hb, -, hsame, rfl⟩ := h.sound _ t ht
    exact ⟨b, hb, hinj hsame, hwithin⟩

theorem Inv.step [DecidableEq δ] (hinj : Function.Injective digest) {r : Cache δ} {c : Call}
    (h : Inv digest horizon calls c.present r) (hpos : 0 < c.present)
    (hmono : ∀ b ∈ calls, b.present ≤ c.present) :
    (∃ r', (replaycacheAddAndTestInternal digest c.present (some r) c.data).cache = some r' ∧
        Inv digest horizon (calls ++ [c]) c.present r') ∧
      ((replaycacheAddAndTestInternal digest c.present (some r) c.data).rv = 1 ↔
        c.data ≠ [] ∧ ∃ b ∈ calls, Presents horizon c b) := by
  obtain ⟨hhorizon, hholds⟩ := h
  by_cases hdata : c.data = []
  · have hout : replaycacheAddAndTestInternal digest c.present (some r) c.data = ⟨0, none, some r⟩ :=
      if_pos (Or.inr hdata)
    rw [hout]
    exact ⟨⟨r, rfl, hhorizon, hholds.refused hdata⟩, by simp [hdata]⟩
  have hgo : ¬ (c.present ≤ 0 ∨ c.data = []) := by
    rintro (hle | hnil)
    · omega
    · exact hdata hnil
  have hpresents := hholds.presents_iff hinj hdata
  rw [hpresents, replaycacheAddAndTestInternal, if_neg hgo]
  cases hseen : r.digestsSeen (digest c.data) with
  | none =>
    refine ⟨⟨_, rfl, Inv.scrubbed ⟨hhorizon, hholds.update hdata hmono⟩⟩, ?_⟩
    simp
  | some t =>
    obtain ⟨b, hb, -, -, ht⟩ := hholds.sound _ t hseen
    have hle : t ≤ c.present := ht ▸ hmono b hb
    refine ⟨⟨_, rfl, Inv.scrubbed ⟨hhorizon, ?_⟩⟩, ?_⟩
    · dsimp only
      split_ifs with hlt
      · exact hholds.update hdata hmono
      · have hsame : t = c.present := by omega
        exact hholds.again (hsame ▸ hseen)
    · -- a hit is what the horizon of the cache reaches
      have hhit : (decide (t ≥ c.present - r.horizon) || decide (r.horizon = 0)) = true ↔
          horizon = 0 ∨ c.present - horizon ≤ t := by
        rw [Bool.or_eq_true, decide_eq_true_iff, decide_eq_true_iff, hhorizon]
        exact or_comm
      by_cases hwithin : horizon = 0 ∨ c.present - horizon ≤ t
      · simp only [hhit.mpr hwithin, if_true, true_iff]
        exact ⟨hdata, t, rfl, hwithin⟩
      · have hmiss := mt hhit.mp hwithin
        simp only [if_neg hmiss]
        refine iff_of_false (by decide) ?_
        rintro ⟨-, t', ht', hin⟩
        obtain rfl := Option.some.inj ht'
        exact hwithin hin

theorem after_concat [DecidableEq δ] (digest : Bytes → δ) (horizon interval : ℤ) (calls : List Call)
    (c : Call) : after digest horizon interval (calls ++ [c]) =
      (replaycacheAddAndTestInternal digest c.present (after digest horizon interval calls)
        c.data).cache := by
  rw [after, List.foldl_append]
  rfl

theorem Forward.concat {c : Call} (h : Forward (calls ++ [c])) :
    Forward calls ∧ 0 < c.present ∧ ∀ b ∈ calls, b.present ≤ c.present := by
  obtain ⟨hpos, hmono⟩ := h
  rw [List.pairwise_append] at hmono
  exact ⟨⟨fun b hb => hpos b (List.mem_append_left _ hb), hmono.1⟩, hpos c (by simp),
    fun b hb => hmono.2.2 b hb c (by simp)⟩

theorem after_inv [DecidableEq δ] (hinj : Function.Injective digest) (interval : ℤ) :
    ∀ calls present, Forward calls → (∀ b ∈ calls, b.present ≤ present) →
      (horizon < 0 ∧ after digest horizon interval calls = none) ∨
        ∃ r, after digest horizon interval calls = some r ∧ Inv digest horizon calls present r := by
  intro calls
  induction calls using List.reverseRecOn with
  | nil =>
    intro present _ _
    by_cases hneg : horizon < 0
    · exact Or.inl ⟨hneg, if_pos hneg⟩
    · exact Or.inr ⟨_, if_neg hneg, rfl, ⟨fun d t ht => by simp at ht, fun b hb => by simp at hb⟩⟩
  | append_singleton calls c ih =>
    intro present hforward hle
    obtain ⟨hbefore, hpos, hmono⟩ := hforward.concat
    rw [after_concat]
    rcases ih c.present hbefore hmono with ⟨hneg, hnone⟩ | ⟨r, hr, hinv⟩
    · refine Or.inl ⟨hneg, ?_⟩
      rw [hnone]
      rfl
    · obtain ⟨⟨r', hr', hhorizon, hholds⟩, -⟩ := hinv.step hinj hpos hmono
      rw [hr]
      exact Or.inr ⟨r', hr', hhorizon, hholds.later (hle c (by simp))⟩

/-- A call reports a replay exactly if its data was presented within the horizon, and what a scrub
removes from a cache could not be a hit at any later time. -/
theorem replaycacheAddAndTestInternal_spec [DecidableEq δ] (hinj : Function.Injective digest)
    (horizon interval : ℤ) (calls : List Call) (c : Call) (hforward : Forward (calls ++ [c])) :
    ((replaycacheAddAndTestInternal digest c.present (after digest horizon interval calls)
        c.data).rv = 1 ↔ c.data ≠ [] ∧ ∃ b ∈ calls, Presents horizon c b) ∧
      ∀ (r : Cache δ) d t present later, r.digestsSeen d = some t →
        (replaycacheScrubIfNeededInternal present r).digestsSeen d = none →
        present ≤ later → ¬ (r.horizon = 0 ∨ later - r.horizon ≤ t) := by
  constructor
  · obtain ⟨hbefore, hpos, hmono⟩ := hforward.concat
    rcases after_inv hinj interval calls c.present hbefore hmono with ⟨hneg, hnone⟩ | ⟨r, hr, hinv⟩
    · rw [hnone]
      refine iff_of_false (by simp [replaycacheAddAndTestInternal]) ?_
      rintro ⟨-, b, hb, -, hwithin⟩
      have := hmono b hb
      omega
    · rw [hr]
      exact (hinv.step hinj hpos hmono).2
  · intro r d t present later hin hout hle
    obtain ⟨hzero, hold⟩ := replaycacheScrubIfNeededInternal_removed hin hout
    rintro (hnever | hwithin)
    · exact hzero hnever
    · omega

/-- Something is presented at 10, again at 15, and again at 30, which is beyond the horizon. -/
theorem replaycacheAddAndTestInternal_at30 :
    (replaycacheAddAndTestInternal id 30 (after id 10 5 [⟨10, [1]⟩, ⟨15, [1]⟩]) [1]).rv ≠ 1 ∧
      (replaycacheAddAndTestInternal id 15 (after id 10 5 [⟨10, [1]⟩]) [1]).rv = 1 := by
  constructor
  · rw [Ne, (replaycacheAddAndTestInternal_spec Function.injective_id 10 5 [⟨10, [1]⟩, ⟨15, [1]⟩]
      ⟨30, [1]⟩ ⟨by decide, by decide⟩).1]
    simp [Presents]
  · exact (replaycacheAddAndTestInternal_spec Function.injective_id 10 5 [⟨10, [1]⟩]
      ⟨15, [1]⟩ ⟨by decide, by decide⟩).1.mpr ⟨by decide, ⟨10, [1]⟩, by simp, rfl, by simp⟩

/-- Data without a length is never a replay, even of itself. -/
theorem replaycacheAddAndTestInternal_empty :
    ¬ ∀ (calls : List Call) (c : Call), Forward (calls ++ [c]) →
      ((replaycacheAddAndTestInternal id c.present (after id 0 0 calls) c.data).rv = 1 ↔
        ∃ b ∈ calls, Presents 0 c b) := by
  intro h
  have hcall := (h [⟨1, []⟩] ⟨2, []⟩ ⟨by decide, by decide⟩).mpr
    ⟨⟨1, []⟩, List.mem_singleton_self _, rfl, Or.inl rfl⟩
  -- both calls are refused
  have hrefused : replaycacheAddAndTestInternal id 2 (after id 0 0 [⟨1, []⟩]) [] =
      ⟨0, none, replaycacheNew Bytes 0 0⟩ := rfl
  rw [hrefused] at hcall
  exact absurd hcall (by decide)

end Replaycache
