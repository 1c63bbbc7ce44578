/-
Streams that the client has closed and the exit has not (`core/or/connection_edge.c`).

A closed stream is kept with what the exit may still send for it, in a list that is in the order of
the stream ids and is searched by halves; an END cell takes it off the list.
-/
import LibEltor.SmartlistBsearch
import LibEltor.Transition
import LibEltor.Word

open SmartlistBsearch Transition Word

namespace HalfEdge

/-! ### The list -/

structure HalfConn where
  streamId : ℕ
  sendmesPending : ℤ
  dataPending : ℤ
  endAckExpectedUsec : ℕ
  usedCcontrol : Bool
  connectedPending : Bool

inductive ConnState
  | connectWait
  | resolveWait
  | other
deriving DecidableEq

structure EdgeConnection where
  streamId : ℕ
  state : ConnState
  packageWindow : ℤ
  deliverWindow : ℤ
  usesFlowControl : Bool
  hsIdent : Bool
  maxRtt : ℕ

def compareBsearch (key : ℕ) (member : HalfConn) : ℤ := key - member.streamId

/-- None where an assertion fails; else where the stream is in the list, and what it has there. -/
def findStreamId (halfConns : List HalfConn) (id : ℕ) : Option (Option (ℕ × HalfConn)) :=
  (smartlistBsearchIdx (compareBsearch id) halfConns).map fun (i, found) =>
    if found then halfConns[i]?.map fun half => (i, half) else none

def halfConn (conn : EdgeConnection) (timeoutUsec now : ℕ) : HalfConn :=
  let timeoutUsec := if conn.hsIdent then u64 (timeoutUsec * 2 : ℕ) else timeoutUsec
  { streamId := conn.streamId
    sendmesPending := if conn.usesFlowControl then 0 else (500 - conn.packageWindow).tdiv 50
    dataPending :=
      if conn.usesFlowControl ∨ conn.state = .resolveWait then 0 else conn.deliverWindow
    endAckExpectedUsec :=
      if conn.usesFlowControl then u64 (max timeoutUsec conn.maxRtt + now : ℕ) else 0
    usedCcontrol := conn.usesFlowControl
    connectedPending := decide (conn.state = .connectWait) }

/-- `half_streams` of a circuit, and `n_half_conns_allocated` -/
structure HalfStreams where
  halfConns : List HalfConn
  nHalfConnsAllocated : ℕ

def connectionHalfEdgeAdd (s : HalfStreams) (conn : EdgeConnection) (timeoutUsec now : ℕ) :
    Option HalfStreams :=
  (findStreamId s.halfConns conn.streamId).bind fun
    | some _ => some s
    | none =>
      (smartlistBsearchIdx (compareBsearch conn.streamId) s.halfConns).map fun (insertAt, _) =>
        ⟨s.halfConns.insertIdx insertAt (halfConn conn timeoutUsec now), s.nHalfConnsAllocated + 1⟩

/-! ### Cells for a closed stream -/

inductive Kind
  | data
  | sendme
  | connected
  | ended
deriving DecidableEq

def checkWith (s : HalfStreams) (id : ℕ) (check : HalfConn → Option HalfConn) :
    Option (HalfStreams × Bool) :=
  (findStreamId s.halfConns id).map fun
    | none => (s, false)
    | some (i, half) =>
      match check half with
      | none => (s, false)
      | some half => ({ s with halfConns := s.halfConns.set i half }, true)

def connectionHalfEdgeIsValidData (s : HalfStreams) (id now : ℕ) : Option (HalfStreams × Bool) :=
  checkWith s id fun half =>
    if half.usedCcontrol then if half.endAckExpectedUsec < now then none else some half
    else if 0 < half.dataPending then some { half with dataPending := half.dataPending - 1 }
    else none

def connectionHalfEdgeIsValidConnected (s : HalfStreams) (id : ℕ) : Option (HalfStreams × Bool) :=
  checkWith s id fun half =>
    if half.connectedPending then some { half with connectedPending := false } else none

def connectionHalfEdgeIsValidSendme (s : HalfStreams) (id : ℕ) : Option (HalfStreams × Bool) :=
  checkWith s id fun half =>
    if half.usedCcontrol then none
    else if 0 < half.sendmesPending then
      some { half with sendmesPending := half.sendmesPending - 1 }
    else none

def connectionHalfEdgeIsValidEnd (s : HalfStreams) (id : ℕ) : Option (HalfStreams × Bool) :=
  (smartlistBsearchIdx (compareBsearch id) s.halfConns).map fun (removeIdx, found) =>
    if found then (⟨s.halfConns.eraseIdx removeIdx, s.nHalfConnsAllocated - 1⟩, true)
    else (s, false)

def isValid (s : HalfStreams) (id now : ℕ) : Kind → Option (HalfStreams × Bool)
  | .data => connectionHalfEdgeIsValidData s id now
  | .sendme => connectionHalfEdgeIsValidSendme s id
  | .connected => connectionHalfEdgeIsValidConnected s id
  | .ended => connectionHalfEdgeIsValidEnd s id

/-! ### Lookups -/

variable {l pre post : List HalfConn} {half : HalfConn} {s s' : HalfStreams} {id now : ℕ}

def Sorted (l : List HalfConn) : Prop := l.Pairwise fun a b => a.streamId < b.streamId

theorem Sorted.search (h : Sorted l) (id : ℕ) : ∃ pre, (∀ half ∈ pre, half.streamId < id) ∧
    ((∃ half post, l = pre ++ half :: post ∧ half.streamId = id ∧
        (∀ other ∈ post, id < other.streamId) ∧
        smartlistBsearchIdx (compareBsearch id) l = some (pre.length, true)) ∨
      ∃ post, l = pre ++ post ∧ (∀ other ∈ post, id < other.streamId) ∧
        smartlistBsearchIdx (compareBsearch id) l = some (pre.length, false)) := by
  have hordered : Ordered (compareBsearch id) l := by
    refine h.imp fun {a b} hab hb => ?_
    unfold compareBsearch at hb ⊢
    omega
  obtain ⟨found, hsearch⟩ := smartlistBsearchIdx_eq hordered
  set below : HalfConn → Bool := fun member => decide (0 < compareBsearch id member)
  have hsplit : l.takeWhile below ++ l.dropWhile below = l := List.takeWhile_append_dropWhile
  have hhead := List.head?_dropWhile_not below l
  have hbelow : ∀ half ∈ l.takeWhile below, half.streamId < id := fun half hhalf => by
    have hmem := List.mem_takeWhile_imp hhalf
    have hpos : 0 < compareBsearch id half := of_decide_eq_true hmem
    unfold compareBsearch at hpos
    omega
  generalize l.takeWhile below = pre at *
  generalize l.dropWhile below = post at *
  obtain ⟨htrue, hfalse⟩ := smartlistBsearchIdx_found hsearch
  refine ⟨pre, hbelow, ?_⟩
  cases post with
  | nil =>
    refine .inr ⟨[], hsplit.symm, by simp, ?_⟩
    cases found with
    | true =>
      obtain ⟨member, hmember, -⟩ := htrue rfl
      rw [← hsplit] at hmember
      exact absurd hmember (by simp)
    | false => exact hsearch
  | cons half post =>
    have hat : l[pre.length]? = some half := by simp [← hsplit]
    have habove : ∀ other ∈ post, half.streamId < other.streamId := by
      rw [← hsplit] at h
      exact (List.pairwise_cons.mp (List.pairwise_append.mp h).2.1).1
    have hge : ¬ 0 < compareBsearch id half := of_decide_eq_false hhead
    unfold compareBsearch at hge
    cases found with
    | true =>
      obtain ⟨member, hmember, hzero⟩ := htrue rfl
      obtain rfl := Option.some.inj (hat.symm.trans hmember)
      unfold compareBsearch at hzero
      have heq : half.streamId = id := by omega
      exact .inl ⟨half, post, hsplit.symm, heq, heq ▸ habove, hsearch⟩
    | false =>
      -- the first entry that is not below the id is above it, and so are those behind it
      have hne := hfalse rfl half hat
      unfold compareBsearch at hne
      have hlt : id < half.streamId := by omega
      refine .inr ⟨half :: post, hsplit.symm, fun other hother => ?_, hsearch⟩
      obtain rfl | hother := List.mem_cons.mp hother
      · exact hlt
      · exact hlt.trans (habove other hother)

def entry (l : List HalfConn) (id : ℕ) : Option HalfConn := l.find? fun half => half.streamId = id

theorem entry_self (hpre : ∀ other ∈ pre, other.streamId < id) (heq : half.streamId = id) :
    entry (pre ++ half :: post) id = some half := by
  have hnone : pre.find? (fun half => half.streamId = id) = none :=
    List.find?_eq_none.mpr fun other hother => by simpa using (hpre other hother).ne
  rw [entry, List.find?_append, hnone, Option.none_or, List.find?_cons_of_pos]
  exact decide_eq_true heq

theorem entry_other (hne : half.streamId ≠ id) :
    entry (pre ++ half :: post) id = entry (pre ++ post) id := by
  rw [entry, entry, List.find?_append, List.find?_append, List.find?_cons_of_neg]
  exact fun heq => hne (of_decide_eq_true heq)

theorem entry_none (hpre : ∀ other ∈ pre, other.streamId < id)
    (hpost : ∀ other ∈ post, id < other.streamId) : entry (pre ++ post) id = none := by
  refine List.find?_eq_none.mpr fun other hother => ?_
  obtain hother | hother := List.mem_append.mp hother
  · simpa using (hpre other hother).ne
  · simpa using (hpost other hother).ne'

theorem sorted_insert (hpre : ∀ other ∈ pre, other.streamId < half.streamId)
    (hpost : ∀ other ∈ post, half.streamId < other.streamId) :
    Sorted (pre ++ half :: post) ↔ Sorted (pre ++ post) := by
  unfold Sorted
  rw [List.pairwise_append, List.pairwise_append, List.pairwise_cons]
  constructor
  · rintro ⟨hl, ⟨-, hr⟩, hcross⟩
    exact ⟨hl, hr, fun a ha b hb => hcross a ha b (List.mem_cons_of_mem half hb)⟩
  · rintro ⟨hl, hr, hcross⟩
    refine ⟨hl, ⟨hpost, hr⟩, fun a ha b hb => ?_⟩
    obtain rfl | hb := List.mem_cons.mp hb
    · exact hpre a ha
    · exact hcross a ha b hb

/-! ### Allowances -/

namespace HalfConn

/-- How many cells the exit may still send; DATA under congestion control is limited by the time. -/
def pending (half : HalfConn) : Kind → ℕ
  | .data => if half.usedCcontrol then 0 else half.dataPending.toNat
  | .sendme => if half.usedCcontrol then 0 else half.sendmesPending.toNat
  | .connected => if half.connectedPending then 1 else 0
  | .ended => 1

def cost (half : HalfConn) : Kind → ℕ
  | .data => if half.usedCcontrol then 0 else 1
  | _ => 1

def accepts (half : HalfConn) (now : ℕ) : Kind → Bool
  | .data => if half.usedCcontrol then decide (now ≤ half.endAckExpectedUsec)
    else decide (0 < half.dataPending)
  | .sendme => !half.usedCcontrol && decide (0 < half.sendmesPending)
  | .connected => half.connectedPending
  | .ended => true

end HalfConn

def owed (kind : Kind) (id : ℕ) (l : List HalfConn) : ℕ := (entry l id).elim 0 (·.pending kind)

def spent (kind : Kind) (id : ℕ) (l : List HalfConn) : ℕ := (entry l id).elim 0 (·.cost kind)

structure Checked (s : HalfStreams) (kind : Kind) (id now : ℕ) (s' : HalfStreams) (ok : Bool) :
    Prop where
  sorted : Sorted s'.halfConns
  allocated : s.halfConns.length ≤ s.nHalfConnsAllocated →
    s'.nHalfConnsAllocated + s.halfConns.length = s.nHalfConnsAllocated + s'.halfConns.length
  answer : ok = (entry s.halfConns id).any (·.accepts now kind)
  owed_le : ∀ kind' id', owed kind' id' s'.halfConns +
    (if ok = true ∧ kind' = kind ∧ id' = id then spent kind id s.halfConns else 0) ≤
      owed kind' id' s.halfConns

theorem checked_of_not {kind : Kind} (h : Sorted s.halfConns)
    (hno : (entry s.halfConns id).any (·.accepts now kind) = false) :
    Checked s kind id now s false :=
  ⟨h, fun _ => rfl, hno.symm, fun _ _ => by simp⟩

theorem checkWith_spec {kind : Kind} {check : HalfConn → Option HalfConn} (h : Sorted s.halfConns)
    (haccepts : ∀ half, (check half).isSome = half.accepts now kind)
    (hcheck : ∀ half half', check half = some half' → half'.streamId = half.streamId ∧
      ∀ kind', half'.pending kind' + (if kind' = kind then half.cost kind else 0) ≤
        half.pending kind') :
    ∃ s' ok, checkWith s id check = some (s', ok) ∧ Checked s kind id now s' ok := by
  obtain ⟨pre, hpre, ⟨half, post, hl, hid, hpost, hsearch⟩ | ⟨post, hl, hpost, hsearch⟩⟩ :=
    h.search id
  · have hentry : entry s.halfConns id = some half := hl ▸ entry_self hpre hid
    have hfind : findStreamId s.halfConns id = some (some (pre.length, half)) := by
      rw [findStreamId, hsearch, hl]
      simp
    rw [checkWith, hfind, Option.map_some]
    cases hhalf : check half with
    | none =>
      refine ⟨s, false, by simp [hhalf], checked_of_not h ?_⟩
      rw [hentry, Option.any_some, ← haccepts, hhalf]
      rfl
    | some half' =>
      obtain ⟨hid', hle⟩ := hcheck half half' hhalf
      have hid' := hid'.trans hid
      have hset : s.halfConns.set pre.length half' = pre ++ half' :: post := by
        rw [hl]
        simp
      refine ⟨_, true, by simp [hhalf]; rfl, ?_, fun _ => by simp, ?_, fun kind' id' => ?_⟩
      · show Sorted (s.halfConns.set pre.length half')
        rw [hl, sorted_insert (hid ▸ hpre) (hid ▸ hpost)] at h
        rw [hset, sorted_insert (hid'.symm ▸ hpre) (hid'.symm ▸ hpost)]
        exact h
      · rw [hentry, Option.any_some, ← haccepts, hhalf]
        rfl
      · show owed kind' id' (s.halfConns.set pre.length half') + _ ≤ _
        rw [hset]
        by_cases heq : id' = id
        · simpa [owed, spent, heq, hentry, entry_self hpre hid'] using hle kind'
        · have hsame : entry (pre ++ half' :: post) id' = entry s.halfConns id' := by
            rw [hl, entry_other (hid'.symm ▸ Ne.symm heq), entry_other (hid.symm ▸ Ne.symm heq)]
          simp [owed, heq, hsame]
  · refine ⟨s, false, by simp [checkWith, findStreamId, hsearch], checked_of_not h ?_⟩
    rw [hl, entry_none hpre hpost]
    rfl

variable (id now) in
theorem isValidEnd_spec (h : Sorted s.halfConns) :
    ∃ s' ok, connectionHalfEdgeIsValidEnd s id = some (s', ok) ∧ Checked s .ended id now s' ok ∧
      entry s'.halfConns id = none := by
  rw [connectionHalfEdgeIsValidEnd]
  obtain ⟨pre, hpre, ⟨half, post, hl, hid, hpost, hsearch⟩ | ⟨post, hl, hpost, hsearch⟩⟩ :=
    h.search id
  · have hentry : entry s.halfConns id = some half := hl ▸ entry_self hpre hid
    have herase : s.halfConns.eraseIdx pre.length = pre ++ post := by
      rw [hl, List.eraseIdx_append_of_length_le le_rfl]
      simp
    rw [hsearch, Option.map_some]
    simp only [if_true, herase]
    refine ⟨_, true, rfl, ⟨?_, fun hle => ?_, ?_, fun kind' id' => ?_⟩, entry_none hpre hpost⟩
    · rw [hl, sorted_insert (hid ▸ hpre) (hid ▸ hpost)] at h
      exact h
    · have hlength := congrArg List.length hl
      simp only [List.length_append, List.length_cons] at hlength ⊢
      omega
    · rw [hentry]
      rfl
    · by_cases heq : id' = id
      · rw [owed, owed, heq, entry_none hpre hpost, hentry]
        by_cases hkind : kind' = .ended
        · simp [hkind, spent, hentry, HalfConn.cost, HalfConn.pending]
        · simp [hkind]
      · rw [owed, owed, hl, entry_other (hid.symm ▸ Ne.symm heq)]
        simp [heq]
  · rw [hsearch, Option.map_some]
    simp only [Bool.false_eq_true, if_false]
    have hnone : entry s.halfConns id = none := hl ▸ entry_none hpre hpost
    exact ⟨s, false, rfl, checked_of_not h (by rw [hnone]; rfl), hnone⟩

variable (id now) in
theorem isValid_spec (h : Sorted s.halfConns) (kind : Kind) :
    ∃ s' ok, isValid s id now kind = some (s', ok) ∧ Checked s kind id now s' ok ∧
      (kind = .ended → entry s'.halfConns id = none) := by
  have hkeep : kind ≠ .ended → (∃ s' ok, isValid s id now kind = some (s', ok) ∧
      Checked s kind id now s' ok) → ∃ s' ok, isValid s id now kind = some (s', ok) ∧
        Checked s kind id now s' ok ∧ (kind = .ended → entry s'.halfConns id = none) :=
    fun hne ⟨s', ok, hs', hchecked⟩ => ⟨s', ok, hs', hchecked, fun heq => absurd heq hne⟩
  cases kind with
  | data =>
    refine hkeep (by decide) (checkWith_spec h (fun half => ?_) fun half half' hhalf => ?_)
    · unfold HalfConn.accepts
      split_ifs with hcc htime hpos
      · simpa using htime
      · simpa using htime
      · simpa using hpos
      · simpa using hpos
    · split_ifs at hhalf with hcc htime hpos
      · -- under congestion control DATA is limited by the time alone
        obtain rfl := Option.some.inj hhalf
        exact ⟨rfl, fun kind' => by simp [HalfConn.cost, hcc]⟩
      · obtain rfl := Option.some.inj hhalf
        refine ⟨rfl, fun kind' => ?_⟩
        cases kind' with
        | data =>
          simp only [HalfConn.pending, HalfConn.cost, hcc]
          simp
          omega
        | _ => simp [HalfConn.pending]
  | sendme =>
    refine hkeep (by decide) (checkWith_spec h (fun half => ?_) fun half half' hhalf => ?_)
    · unfold HalfConn.accepts
      split_ifs with hcc hpos
      · simp [hcc]
      · simpa [hcc] using hpos
      · simpa [hcc] using hpos
    · split_ifs at hhalf with hcc hpos
      obtain rfl := Option.some.inj hhalf
      refine ⟨rfl, fun kind' => ?_⟩
      cases kind' with
      | sendme =>
        simp only [HalfConn.pending, HalfConn.cost, hcc]
        simp
        omega
      | _ => simp [HalfConn.pending]
  | connected =>
    refine hkeep (by decide) (checkWith_spec h (fun half => ?_) fun half half' hhalf => ?_)
    · show Option.isSome _ = half.connectedPending
      cases half.connectedPending <;> rfl
    · split_ifs at hhalf with hpending
      obtain rfl := Option.some.inj hhalf
      refine ⟨rfl, fun kind' => ?_⟩
      cases kind' with
      | connected => simp [HalfConn.pending, HalfConn.cost, hpending]
      | _ => simp [HalfConn.pending]
  | ended =>
    obtain ⟨s', ok, hs', hchecked, hgone⟩ := isValidEnd_spec id now h
    exact ⟨s', ok, hs', hchecked, fun _ => hgone⟩

theorem insertIdx_length (half : HalfConn) (pre : List HalfConn) :
    (pre ++ post).insertIdx pre.length half = pre ++ half :: post := by
  induction pre with
  | nil => rfl
  | cons other pre ih => exact congrArg (other :: ·) ih

theorem connectionHalfEdgeAdd_spec (h : Sorted s.halfConns) (conn : EdgeConnection)
    (timeoutUsec now : ℕ) :
    ∃ s', connectionHalfEdgeAdd s conn timeoutUsec now = some s' ∧ Sorted s'.halfConns ∧
      s'.nHalfConnsAllocated + s.halfConns.length = s.nHalfConnsAllocated + s'.halfConns.length ∧
      ∀ id, entry s'.halfConns id =
        if id = conn.streamId ∧ (entry s.halfConns id).isNone then
          some (halfConn conn timeoutUsec now)
        else entry s.halfConns id := by
  rw [connectionHalfEdgeAdd]
  obtain ⟨pre, hpre, ⟨half, post, hl, hid, hpost, hsearch⟩ | ⟨post, hl, hpost, hsearch⟩⟩ :=
    h.search conn.streamId
  · have hentry : entry s.halfConns conn.streamId = some half := hl ▸ entry_self hpre hid
    have hfind : findStreamId s.halfConns conn.streamId = some (some (pre.length, half)) := by
      rw [findStreamId, hsearch, hl]
      simp
    rw [hfind, Option.bind_some]
    refine ⟨s, rfl, h, rfl, fun id => (if_neg ?_).symm⟩
    rintro ⟨rfl, hnone⟩
    rw [hentry] at hnone
    exact absurd hnone (by simp)
  · have hentry : entry s.halfConns conn.streamId = none := hl ▸ entry_none hpre hpost
    have hfind : findStreamId s.halfConns conn.streamId = some none := by
      rw [findStreamId, hsearch]
      rfl
    have hinsert : s.halfConns.insertIdx pre.length (halfConn conn timeoutUsec now) =
        pre ++ halfConn conn timeoutUsec now :: post := hl ▸ insertIdx_length _ pre
    rw [hfind, Option.bind_some, hsearch, Option.map_some]
    simp only [hinsert]
    refine ⟨_, rfl, ?_, ?_, fun id => ?_⟩
    · rw [hl] at h
      show Sorted (pre ++ halfConn conn timeoutUsec now :: post)
      exact (sorted_insert hpre hpost).mpr h
    · have hlength := congrArg List.length hl
      simp only [List.length_append, List.length_cons] at hlength ⊢
      omega
    · show entry (pre ++ halfConn conn timeoutUsec now :: post) id = _
      by_cases heq : id = conn.streamId
      · rw [heq, if_pos ⟨rfl, by rw [hentry]; rfl⟩, entry_self hpre rfl]
      · rw [if_neg fun hboth => heq hboth.1, entry_other (Ne.symm heq), hl]

/-! ### Runs -/

/-- The list of a circuit, with how many cells its closings have allowed and how many were accepted,
by kind and stream. -/
structure World where
  streams : HalfStreams
  granted : Kind → ℕ → ℕ
  used : Kind → ℕ → ℕ

inductive Action
  | close (conn : EdgeConnection) (timeoutUsec now : ℕ)
  | receive (kind : Kind) (id now : ℕ)

def perform (w : World) : Action → Option World
  | .close conn timeoutUsec now =>
    (connectionHalfEdgeAdd w.streams conn timeoutUsec now).map fun s =>
      { w with
        streams := s
        granted := fun kind id => w.granted kind id +
          if id = conn.streamId ∧ (entry w.streams.halfConns id).isNone then
            (halfConn conn timeoutUsec now).pending kind
          else 0 }
  | .receive kind id now =>
    (isValid w.streams id now kind).map fun (s, ok) =>
      { w with
        streams := s
        used := fun kind' id' => w.used kind' id' +
          if ok = true ∧ kind' = kind ∧ id' = id then spent kind id w.streams.halfConns else 0 }

/-- Other circuits have `others` entries. -/
def system (others : ℕ) : System World Action where
  init w := w = ⟨⟨[], others⟩, fun _ _ => 0, fun _ _ => 0⟩
  step w a w' := perform w a = some w'

structure Kept (others : ℕ) (w : World) : Prop where
  sorted : Sorted w.streams.halfConns
  allocated : w.streams.nHalfConnsAllocated = others + w.streams.halfConns.length
  within : ∀ kind id, w.used kind id + owed kind id w.streams.halfConns ≤ w.granted kind id

variable {w w' : World} {others : ℕ}

theorem Kept.step (h : Kept others w) {a : Action} (hstep : perform w a = some w') :
    Kept others w' := by
  have hallocated := h.allocated
  cases a with
  | close conn timeoutUsec now =>
    obtain ⟨s', hadd, hsorted, hcount, hentry⟩ :=
      connectionHalfEdgeAdd_spec h.sorted conn timeoutUsec now
    rw [perform, hadd, Option.map_some] at hstep
    obtain rfl := Option.some.inj hstep
    refine ⟨hsorted, by dsimp only; omega, fun kind id => ?_⟩
    have hwithin := h.within kind id
    simp only [owed, hentry] at hwithin ⊢
    split_ifs with hnew
    · rw [Option.isNone_iff_eq_none.mp hnew.2] at hwithin
      simp only [Option.elim_none, Option.elim_some] at hwithin ⊢
      omega
    · exact hwithin
  | receive kind id now =>
    obtain ⟨s', ok, hvalid, hchecked, -⟩ := isValid_spec id now h.sorted kind
    rw [perform, hvalid, Option.map_some] at hstep
    obtain rfl := Option.some.inj hstep
    have hcount := hchecked.allocated (by omega)
    refine ⟨hchecked.sorted, by dsimp only; omega, fun kind' id' => ?_⟩
    have hwithin := h.within kind' id'
    have howed := hchecked.owed_le kind' id'
    dsimp only
    omega

/-- A stream that waits for CONNECTED is closed in front of one that does not. -/
def exampleActions : List Action :=
  [.close ⟨7, .other, 480, 500, false, false, 0⟩ 0 0,
    .close ⟨3, .connectWait, 500, 500, false, false, 0⟩ 0 0, .receive .connected 3 0]

end HalfEdge
