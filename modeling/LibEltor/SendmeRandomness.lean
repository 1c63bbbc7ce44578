/-
The randomness of DATA cells (`core/or/relay.c`).

A SENDME names the digest of a cell, and a peer that has not read the cells could
compute it if all their bytes were known.  So a cell is made short now and then,
and padded with random bytes: at least one in each interval of 50 to 99 cells.
The intervals are drawn by a counter of their own,
wherever the SENDMEs fall.  Two intervals in a row may
leave 196 cells full, the first cell of one and the last of the other being short.
-/
import LibEltor.Transition

open Transition

namespace SendmeRandomness

abbrev cellPayloadSize : ℕ := 2048
abbrev relayHeaderSize : ℕ := 1 + 2 + 2 + 4 + 2
abbrev relayPayloadSize : ℕ := cellPayloadSize - relayHeaderSize
abbrev cellPaddingGap : ℕ := 4
abbrev circwindowIncrement : ℕ := 100

/-- `get_pad_cell_offset`: zero where there is no room. -/
def getPadCellOffset (dataLen : ℕ) : ℕ :=
  let offset := relayHeaderSize + dataLen + cellPaddingGap
  if offset ≥ cellPayloadSize then 0 else offset

/-- The number of random bytes `pad_cell_payload` writes. -/
def padLen (dataLen : ℕ) : ℕ :=
  if getPadCellOffset dataLen = 0 then 0 else cellPayloadSize - getPadCellOffset dataLen

abbrev relayPayloadLengthForRandomSendmes : ℕ := relayPayloadSize - cellPaddingGap - 16

theorem le_padLen_iff (dataLen : ℕ) :
    16 ≤ padLen dataLen ↔ dataLen ≤ relayPayloadLengthForRandomSendmes := by
  unfold padLen
  by_cases hroom : relayHeaderSize + dataLen + cellPaddingGap ≥ cellPayloadSize
  · have hoffset : getPadCellOffset dataLen = 0 := if_pos hroom
    rw [hoffset, if_pos rfl]
    simp only [relayHeaderSize, cellPaddingGap, cellPayloadSize, relayPayloadSize,
      relayPayloadLengthForRandomSendmes] at hroom ⊢
    omega
  · have hoffset : getPadCellOffset dataLen = relayHeaderSize + dataLen + cellPaddingGap :=
      if_neg hroom
    simp only [relayHeaderSize, cellPaddingGap, cellPayloadSize, relayPayloadSize,
      relayPayloadLengthForRandomSendmes] at hroom hoffset ⊢
    rw [hoffset, if_neg (by omega)]
    omega

/-! ### The counter of the circuit -/

/-- What a circuit keeps of the interval, and the lengths of the cells that were packaged on it. -/
structure Packager where
  sendRandomnessAfterNCells : ℕ
  haveSentSufficientlyRandomCell : Bool
  lengths : List ℕ

/-- `circuit_reset_sendme_randomness`, with the number that is drawn. -/
def circuitResetSendmeRandomness (c : Packager) (drawn : Fin (circwindowIncrement / 2)) :
    Packager :=
  { c with
    haveSentSufficientlyRandomCell := false
    sendRandomnessAfterNCells := circwindowIncrement / 2 + drawn }

/-- The length `connection_edge_get_inbuf_bytes_to_package` chooses; zero is no cell. -/
def packageLength (nAvailable : ℕ) (packagePartial : Bool) (c : Packager) : ℕ :=
  let forceRandomBytes :=
    decide (c.sendRandomnessAfterNCells = 0) && !c.haveSentSufficientlyRandomCell
  let targetLength :=
    if forceRandomBytes then relayPayloadLengthForRandomSendmes else relayPayloadSize
  if nAvailable ≥ targetLength then targetLength
  else if packagePartial then nAvailable
  else 0

/-- `connection_edge_get_inbuf_bytes_to_package`, with the cell that is sent after it. -/
def connectionEdgeGetInbufBytesToPackage (nAvailable : ℕ) (packagePartial : Bool)
    (drawn : Fin (circwindowIncrement / 2)) (c : Packager) : Packager :=
  let length := packageLength nAvailable packagePartial c
  if nAvailable = 0 ∨ length = 0 then c
  else
    let c := { c with haveSentSufficientlyRandomCell :=
      c.haveSentSufficientlyRandomCell || decide (length ≤ relayPayloadLengthForRandomSendmes) }
    let c :=
      if c.sendRandomnessAfterNCells = 0 then circuitResetSendmeRandomness c drawn else c
    { c with
      sendRandomnessAfterNCells := c.sendRandomnessAfterNCells - 1
      lengths := c.lengths ++ [length] }

/-- Bytes become available, and a number is drawn where one is needed. -/
structure Package where
  nAvailable : ℕ
  packagePartial : Bool
  drawn : Fin (circwindowIncrement / 2)

def system : System Packager Package where
  init c := ∃ drawn, c = circuitResetSendmeRandomness ⟨0, false, []⟩ drawn
  step c a c' :=
    c' = connectionEdgeGetInbufBytesToPackage a.nAvailable a.packagePartial a.drawn c

def RandomAt (lengths : List ℕ) (i : ℕ) : Prop :=
  ∃ len, lengths[i]? = some len ∧ 16 ≤ padLen len

/-- The SENDME after every `inc` cells acknowledges a cell with random padding. -/
def Unpredictable (inc : ℕ) (lengths : List ℕ) : Prop :=
  ∀ j, (j + 1) * inc ≤ lengths.length → ∃ i, j * inc ≤ i ∧ i < (j + 1) * inc ∧ RandomAt lengths i

/-! ### One cell -/

theorem RandomAt.append {lengths : List ℕ} {i : ℕ} (h : RandomAt lengths i) (len : ℕ) :
    RandomAt (lengths ++ [len]) i := by
  obtain ⟨l, hl, hpad⟩ := h
  exact ⟨l, by rw [List.getElem?_append_left (List.getElem?_eq_some_iff.mp hl).1, hl], hpad⟩

theorem randomAt_last {lengths : List ℕ} {len : ℕ} :
    RandomAt (lengths ++ [len]) lengths.length ↔ len ≤ relayPayloadLengthForRandomSendmes := by
  rw [← le_padLen_iff, RandomAt]
  simp

theorem package_eq {nAvailable : ℕ} {packagePartial : Bool} {c : Packager}
    (hsome : ¬(nAvailable = 0 ∨ packageLength nAvailable packagePartial c = 0))
    (drawn : Fin (circwindowIncrement / 2)) :
    connectionEdgeGetInbufBytesToPackage nAvailable packagePartial drawn c =
      if c.sendRandomnessAfterNCells = 0 then
        ⟨49 + drawn, false, c.lengths ++ [packageLength nAvailable packagePartial c]⟩
      else
        ⟨c.sendRandomnessAfterNCells - 1,
          c.haveSentSufficientlyRandomCell ||
            decide (packageLength nAvailable packagePartial c ≤ relayPayloadLengthForRandomSendmes),
          c.lengths ++ [packageLength nAvailable packagePartial c]⟩ := by
  unfold connectionEdgeGetInbufBytesToPackage
  simp only [if_neg hsome]
  by_cases hzero : c.sendRandomnessAfterNCells = 0
  · simp only [hzero, if_true, circuitResetSendmeRandomness, circwindowIncrement,
      Packager.mk.injEq, and_true]
    omega
  · simp only [hzero, if_false]

theorem package_cases (nAvailable : ℕ) (packagePartial : Bool)
    (drawn : Fin (circwindowIncrement / 2)) (c : Packager) :
    connectionEdgeGetInbufBytesToPackage nAvailable packagePartial drawn c = c ∨
      ∃ len, (c.sendRandomnessAfterNCells = 0 → c.haveSentSufficientlyRandomCell = false →
          len ≤ relayPayloadLengthForRandomSendmes) ∧
        connectionEdgeGetInbufBytesToPackage nAvailable packagePartial drawn c =
          if c.sendRandomnessAfterNCells = 0 then ⟨49 + drawn, false, c.lengths ++ [len]⟩
          else ⟨c.sendRandomnessAfterNCells - 1,
            c.haveSentSufficientlyRandomCell || decide (len ≤ relayPayloadLengthForRandomSendmes),
            c.lengths ++ [len]⟩ := by
  by_cases hnone : nAvailable = 0 ∨ packageLength nAvailable packagePartial c = 0
  · exact .inl (if_pos hnone)
  · refine .inr ⟨packageLength nAvailable packagePartial c, ?_, package_eq hnone drawn⟩
    intro hzero hnot
    simp only [packageLength, hzero, hnot, decide_true, Bool.not_false, Bool.and_self, if_true]
    split_ifs <;> omega

theorem packageLength_one (c : Packager) : packageLength 1 true c = 1 := by
  simp only [packageLength]
  cases decide (c.sendRandomnessAfterNCells = 0) && !c.haveSentSufficientlyRandomCell <;> rfl

theorem packageLength_full {c : Packager}
    (h : c.sendRandomnessAfterNCells ≠ 0 ∨ c.haveSentSufficientlyRandomCell = true) :
    packageLength relayPayloadSize true c = relayPayloadSize := by
  have hforce : (decide (c.sendRandomnessAfterNCells = 0) && !c.haveSentSufficientlyRandomCell) =
      false := by
    rcases h with h | h <;> simp [h]
  simp only [packageLength, hforce]
  rfl

/-- The cells since the last short one.  `last` is the number of cells up to that one and `reset` the
number up to the last cell that began an interval; both are zero where there is none.  In the first
interval at most 99 cells are left; in a later one 98, and the short cell before it lies at most 98
cells before its beginning, but for one case. -/
structure Interval (c : Packager) (last reset : ℕ) : Prop where
  last_le : last ≤ c.lengths.length
  reset_le : reset ≤ c.lengths.length
  random : last ≠ 0 → RandomAt c.lengths (last - 1)
  sent : c.haveSentSufficientlyRandomCell = true ↔ reset < last
  first : reset = 0 → c.lengths.length + c.sendRandomnessAfterNCells ≤ 99
  later : reset ≠ 0 → c.lengths.length + c.sendRandomnessAfterNCells ≤ reset + 98 ∧ last ≠ 0 ∧
    (reset ≤ last + 98 ∨ (reset = 100 ∧ last = 1))

theorem interval_init (drawn : Fin (circwindowIncrement / 2)) :
    Interval (circuitResetSendmeRandomness ⟨0, false, []⟩ drawn) 0 0 := by
  have hdrawn := drawn.isLt
  refine ⟨Nat.le_refl _, Nat.le_refl _, fun h => absurd rfl h,
    by simp [circuitResetSendmeRandomness], fun _ => ?_, fun h => absurd rfl h⟩
  simp only [circuitResetSendmeRandomness, circwindowIncrement, List.length_nil] at hdrawn ⊢
  omega

theorem interval_step {c : Packager} {last reset : ℕ} (h : Interval c last reset) (a : Package) :
    ∃ last' reset', Interval
      (connectionEdgeGetInbufBytesToPackage a.nAvailable a.packagePartial a.drawn c) last' reset' := by
  have hdrawn : a.drawn.val < 50 := a.drawn.isLt
  rcases package_cases a.nAvailable a.packagePartial a.drawn c with hsame | ⟨len, hforced, hcell⟩
  · exact ⟨last, reset, by rw [hsame]; exact h⟩
  obtain ⟨hlast, hreset, hrandom, hsent, hfirst, hlater⟩ := h
  have hlen : (c.lengths ++ [len]).length = c.lengths.length + 1 := by simp
  rw [hcell]
  by_cases hzero : c.sendRandomnessAfterNCells = 0
  · rw [if_pos hzero]
    by_cases hshort : len ≤ relayPayloadLengthForRandomSendmes
    · -- the cell that ends the interval is short
      refine ⟨c.lengths.length + 1, c.lengths.length + 1,
        ⟨by simp, by simp, ?_, by simp, by simp, ?_⟩⟩
      · exact fun _ => randomAt_last.mpr hshort
      · intro _
        simp only [hlen]
        omega
    · -- it is full, so a short one came before it in the interval
      have hbefore : reset < last := by
        rw [← hsent]
        by_contra hnot
        exact hshort (hforced hzero (by simpa using hnot))
      refine ⟨last, c.lengths.length + 1,
        ⟨by simp only [hlen]; omega, by simp, ?_, ?_, by simp, ?_⟩⟩
      · exact fun hne => (hrandom hne).append len
      · simp only [Bool.false_eq_true, false_iff]
        omega
      · intro _
        simp only [hlen]
        rcases Nat.eq_zero_or_pos reset with hr | hr
        · have hf := hfirst hr
          omega
        · obtain ⟨hbound, -, -⟩ := hlater (Nat.pos_iff_ne_zero.mp hr)
          omega
  · rw [if_neg hzero]
    by_cases hshort : len ≤ relayPayloadLengthForRandomSendmes
    · refine ⟨c.lengths.length + 1, reset, ⟨by simp, by simp only [hlen]; omega, ?_, ?_, ?_, ?_⟩⟩
      · exact fun _ => randomAt_last.mpr hshort
      · simp only [hshort, decide_true, Bool.or_true, true_iff]
        omega
      · intro hr
        have hf := hfirst hr
        simp only [hlen]
        omega
      · intro hr
        obtain ⟨hbound, hne, hgap⟩ := hlater hr
        simp only [hlen]
        omega
    · refine ⟨last, reset,
        ⟨by simp only [hlen]; omega, by simp only [hlen]; omega, ?_, ?_, ?_, ?_⟩⟩
      · exact fun hne => (hrandom hne).append len
      · simpa [hshort] using hsent
      · intro hr
        have hf := hfirst hr
        simp only [hlen]
        omega
      · intro hr
        obtain ⟨hbound, hne, hgap⟩ := hlater hr
        simp only [hlen]
        exact ⟨by omega, hne, hgap⟩

theorem unpredictable_step {inc : ℕ} (hinc : 197 ≤ inc) {c : Packager} {last reset : ℕ} {len : ℕ}
    {lengths : List ℕ} (hlengths : c.lengths = lengths ++ [len]) (h : Interval c last reset)
    (hold : Unpredictable inc lengths) : Unpredictable inc c.lengths := by
  intro j hj
  have hlen : c.lengths.length = lengths.length + 1 := by simp [hlengths]
  rcases Nat.lt_or_ge lengths.length ((j + 1) * inc) with hnew | hwas
  · -- the block ends with this cell, and the last short cell cannot lie before it
    have hblock : (j + 1) * inc = j * inc + inc := Nat.succ_mul j inc
    have hmul : j * inc = 0 ∨ inc ≤ j * inc := by
      rcases Nat.eq_zero_or_pos j with rfl | hpos
      · exact .inl (Nat.zero_mul inc)
      · exact .inr (Nat.le_mul_of_pos_left inc hpos)
    have hinside : j * inc < last := by
      by_contra hbefore
      rcases Nat.eq_zero_or_pos reset with hr | hr
      · have hfirst := h.first hr
        omega
      · obtain ⟨hbound, hne, hgap⟩ := h.later (Nat.pos_iff_ne_zero.mp hr)
        omega
    have hle := h.last_le
    exact ⟨last - 1, by omega, by omega, h.random (by omega)⟩
  · obtain ⟨i, hi, hi', hrandom⟩ := hold j hwas
    exact ⟨i, hi, hi', hlengths ▸ hrandom.append len⟩

theorem unpredictable_of_le {inc : ℕ} (hinc : 197 ≤ inc) {c : Packager}
    (hr : Reached system (fun _ _ => True) c) : Unpredictable inc c.lengths := by
  have hinv : Inductive system (fun _ _ => True)
      fun c => (∃ last reset, Interval c last reset) ∧ Unpredictable inc c.lengths := by
    refine ⟨?_, ?_⟩
    · rintro _ ⟨drawn, rfl⟩
      refine ⟨⟨0, 0, interval_init drawn⟩, fun j hj => ?_⟩
      have hpos : 0 < (j + 1) * inc := Nat.mul_pos j.succ_pos (by omega)
      simp only [circuitResetSendmeRandomness, List.length_nil] at hj
      omega
    · rintro c a c' ⟨⟨last, reset, h⟩, hold⟩ - rfl
      obtain ⟨last', reset', h'⟩ := interval_step h a
      refine ⟨⟨last', reset', h'⟩, ?_⟩
      rcases package_cases a.nAvailable a.packagePartial a.drawn c with hsame | ⟨len, -, hcell⟩
      · rw [hsame]
        exact hold
      · have hlengths : (connectionEdgeGetInbufBytesToPackage a.nAvailable a.packagePartial a.drawn
            c).lengths = c.lengths ++ [len] := by
          rw [hcell]
          split_ifs <;> rfl
        exact unpredictable_step hinc hlengths h' hold
  exact (hr.invariant hinv).2

/-! ### Full cells for 196 in a row -/

/-- Some run has packaged cells of these lengths and is in this interval. -/
def Runs (n : ℕ) (sent : Bool) (lengths : List ℕ) : Prop :=
  Reached system (fun _ _ => True) ⟨n, sent, lengths⟩

theorem Runs.short {n : ℕ} {sent : Bool} {lengths : List ℕ} (h : Runs (n + 1) sent lengths) :
    Runs n true (lengths ++ [1]) := by
  refine h.step (a := ⟨1, true, ⟨0, by decide⟩⟩) trivial ?_
  show _ = connectionEdgeGetInbufBytesToPackage 1 true _ ⟨n + 1, sent, lengths⟩
  rw [package_eq (by rw [packageLength_one]; simp), packageLength_one]
  have hshort : decide (1 ≤ relayPayloadLengthForRandomSendmes) = true := by decide
  simp [hshort]

theorem Runs.shortEnd {sent : Bool} {lengths : List ℕ} (h : Runs 0 sent lengths) (drawn : Fin 50) :
    Runs (49 + drawn) false (lengths ++ [1]) := by
  refine h.step (a := ⟨1, true, drawn⟩) trivial ?_
  show _ = connectionEdgeGetInbufBytesToPackage 1 true drawn ⟨0, sent, lengths⟩
  rw [package_eq (by rw [packageLength_one]; simp), packageLength_one]
  rfl

theorem Runs.full {n : ℕ} {sent : Bool} {lengths : List ℕ} (h : Runs (n + 1) sent lengths) :
    Runs n sent (lengths ++ [relayPayloadSize]) := by
  have hlen : packageLength relayPayloadSize true ⟨n + 1, sent, lengths⟩ = relayPayloadSize :=
    packageLength_full (.inl n.succ_ne_zero)
  refine h.step (a := ⟨relayPayloadSize, true, ⟨0, by decide⟩⟩) trivial ?_
  show _ = connectionEdgeGetInbufBytesToPackage relayPayloadSize true _ ⟨n + 1, sent, lengths⟩
  rw [package_eq (by rw [hlen]; decide), hlen]
  have hfull : decide (relayPayloadSize ≤ relayPayloadLengthForRandomSendmes) = false := by decide
  simp only [hfull, Bool.or_false, Nat.add_sub_cancel]
  exact (if_neg n.succ_ne_zero).symm

theorem Runs.fullEnd {lengths : List ℕ} (h : Runs 0 true lengths) (drawn : Fin 50) :
    Runs (49 + drawn) false (lengths ++ [relayPayloadSize]) := by
  have hlen : packageLength relayPayloadSize true ⟨0, true, lengths⟩ = relayPayloadSize :=
    packageLength_full (.inr rfl)
  refine h.step (a := ⟨relayPayloadSize, true, drawn⟩) trivial ?_
  show _ = connectionEdgeGetInbufBytesToPackage relayPayloadSize true drawn ⟨0, true, lengths⟩
  rw [package_eq (by rw [hlen]; decide), hlen]
  rfl

theorem Runs.shorts {sent : Bool} {lengths : List ℕ} (m : ℕ) (h : Runs (m + 1) sent lengths) :
    ∃ lengths', lengths'.length = lengths.length + (m + 1) ∧ Runs 0 true lengths' := by
  induction m generalizing sent lengths with
  | zero => exact ⟨_, by simp, h.short⟩
  | succ m ih =>
    obtain ⟨lengths', hlen, hruns⟩ := ih h.short
    refine ⟨lengths', ?_, hruns⟩
    rw [hlen, List.length_append, List.length_singleton]
    omega

theorem Runs.fulls {sent : Bool} {lengths : List ℕ} (m : ℕ) (h : Runs m sent lengths) :
    Runs 0 sent (lengths ++ List.replicate m relayPayloadSize) := by
  induction m generalizing lengths with
  | zero => simpa using h
  | succ m ih =>
    have hrest := ih h.full
    rwa [List.append_assoc, List.singleton_append, ← List.replicate_succ] at hrest

theorem exists_interval_end (s : ℕ) (hs : 50 ≤ s) :
    ∃ lengths, lengths.length = s ∧ Runs 0 true lengths := by
  induction s using Nat.strongRecOn with
  | ind s ih =>
    rcases Nat.lt_or_ge s 100 with hfirst | hlater
    · have hinit : Runs (s - 1 + 1) false [] := by
        refine .init ⟨⟨s - 50, by simp only [circwindowIncrement]; omega⟩, ?_⟩
        simp only [circuitResetSendmeRandomness, circwindowIncrement, Packager.mk.injEq, and_self,
          and_true]
        omega
      obtain ⟨lengths, hlen, hruns⟩ := hinit.shorts (s - 1)
      refine ⟨lengths, ?_, hruns⟩
      rw [hlen, List.length_nil]
      omega
    · obtain ⟨before, hbefore, hruns⟩ := ih (s - 50) (by omega) (by omega)
      obtain ⟨lengths, hlen, hruns⟩ := (hruns.shortEnd 0).shorts 48
      refine ⟨lengths, ?_, hruns⟩
      rw [hlen, List.length_append, List.length_singleton]
      omega

theorem exists_not_unpredictable {inc : ℕ} (hinc : inc < 197) :
    ∃ c, Reached system (fun _ _ => True) c ∧ ¬Unpredictable inc c.lengths := by
  rcases Nat.eq_zero_or_pos inc with rfl | hpos
  · refine ⟨_, .init ⟨⟨0, by decide⟩, rfl⟩, fun h => ?_⟩
    obtain ⟨i, hi, hi', -⟩ := h 0 (by simp)
    omega
  · -- an interval ends a cell before the block; its successor begins with a short cell and ends with
    -- a full one, and the one after that is full
    obtain ⟨lengths, hlen, hruns⟩ := exists_interval_end (52 * inc - 2) (by omega)
    have hbegun : Runs 97 true (lengths ++ [1] ++ [1]) := (hruns.shortEnd 49).short
    have hfirst := (hbegun.fulls 97).fullEnd 49
    have hblock := hfirst.fulls 98
    refine ⟨_, hblock, fun h => ?_⟩
    set before := lengths ++ [1] ++ [1] with hbefore
    have hstart : before.length = 52 * inc := by
      simp only [hbefore, List.length_append, List.length_singleton]
      omega
    have hcells : before ++ List.replicate 97 relayPayloadSize ++ [relayPayloadSize] ++
        List.replicate 98 relayPayloadSize = before ++ List.replicate 196 relayPayloadSize := by
      rw [List.append_assoc, List.append_assoc, List.singleton_append, ← List.replicate_succ,
        List.replicate_append_replicate]
    obtain ⟨i, hi, hi', len, hat, hpad⟩ := h 52 (by
      simp only [hcells, List.length_append, List.length_replicate, hstart]
      omega)
    rw [hcells, List.getElem?_append_right (by omega)] at hat
    rw [List.getElem?_replicate] at hat
    split_ifs at hat
    obtain rfl := Option.some.inj hat
    rw [le_padLen_iff] at hpad
    exact absurd hpad (by decide)

/-- Every SENDME of every run acknowledges a cell with sixteen random bytes of padding, exactly where
SENDMEs acknowledge 197 cells or more. -/
theorem exists_random_cell_iff (inc : ℕ) :
    (∀ c, Reached system (fun _ _ => True) c → Unpredictable inc c.lengths) ↔ 197 ≤ inc := by
  constructor
  · intro h
    by_contra hlt
    obtain ⟨c, hr, hnot⟩ := exists_not_unpredictable (Nat.lt_of_not_le hlt)
    exact hnot (h c hr)
  · exact fun hinc c hr => unpredictable_of_le hinc hr

theorem hundred_cells_predictable :
    ¬∀ c, Reached system (fun _ _ => True) c → Unpredictable 100 c.lengths := by
  intro h
  obtain ⟨c, hr, hnot⟩ := exists_not_unpredictable (show 100 < 197 by omega)
  exact hnot (h c hr)

end SendmeRandomness
