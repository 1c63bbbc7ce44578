/-
The count of a buffer, over all runs of its operations.

Whatever chunks without data there are, no operation that ends puts more than `BUF_MAX_LEN` bytes in a
buffer or makes its `datalen` wrong (`counted`).
-/
import LibEltor.BufFifo

open Bytes Transition

namespace Buffers

/-- The bytes are counted, and are not more than they may be. -/
structure Counted (buf : Buf) : Prop where
  length : buf.datalen = (content buf.chunks).length
  le : buf.datalen ≤ bufMaxLen

theorem ensureRoom_same (buf : Buf) (room capacity : ℕ) :
    (ensureRoom buf room capacity).datalen = buf.datalen ∧
      content (ensureRoom buf room capacity).chunks = content buf.chunks := by
  rw [ensureRoom]
  by_cases hslack : bufSlack buf < room
  · obtain ⟨memlen, -, hadd⟩ := exists_chunk_added buf capacity true
    rw [if_pos hslack, hadd]
    exact ⟨rfl, by simp⟩
  · rw [if_neg hslack]
    exact ⟨rfl, rfl⟩

theorem content_writeTail {buf : Buf} (hpos : 0 < bufSlack buf) (s : Bytes) :
    content (writeTail buf s).chunks = content buf.chunks ++ s := by
  obtain ⟨front, c, hc⟩ := exists_tail hpos
  rw [writeTail, hc, List.modifyLast_concat]
  simp [Chunk.write]

theorem bufAddLoop_counted (buf : Buf) (s : Bytes)
    (h : buf.datalen = (content buf.chunks).length) :
    (bufAddLoop buf s).datalen = (content (bufAddLoop buf s).chunks).length := by
  induction buf, s using bufAddLoop.induct with
  | case1 buf =>
    rw [bufAddLoop, dif_pos rfl]
    exact h
  | case2 buf s hne room copy ih =>
    obtain ⟨hlen, hcontent⟩ := ensureRoom_same buf 1 s.length
    have hslack : 1 ≤ bufSlack room := le_bufSlack_ensureRoom buf 1 s.length (by decide)
    rw [bufAddLoop, dif_neg hne]
    refine ih ?_
    rw [content_writeTail hslack, List.length_append]
    show room.datalen + (s.take copy).length = _
    rw [hlen, hcontent, h]

theorem Counted.bufAdd {buf buf' : Buf} {s : Bytes} {v : ℤ} (h : Counted buf)
    (hadd : bufAdd buf s = some (v, buf')) : Counted buf' := by
  rw [Buffers.bufAdd] at hadd
  by_cases hs : s = []
  · rw [if_pos hs] at hadd
    cases hadd
    exact h
  rw [if_neg hs] at hadd
  by_cases hfull : bufMaxLen < buf.datalen
  · rw [if_pos hfull] at hadd
    cases hadd
    exact h
  rw [if_neg hfull] at hadd
  by_cases hmax : maxLenMinus s.length < buf.datalen
  · rw [if_pos hmax] at hadd
    cases hadd
    exact h
  rw [if_neg hmax] at hadd
  by_cases hle : (bufAddLoop buf s).datalen ≤ bufMaxLen
  · simp only [if_pos hle] at hadd
    cases hadd
    exact ⟨bufAddLoop_counted buf s h.length, hle⟩
  · simp only [if_neg hle] at hadd
    cases hadd

theorem drainLoop_counted {l l' : List Chunk} {n datalen : ℕ} (hn : n ≤ (content l).length)
    (h : drainLoop l (content l).length n = some (l', datalen)) :
    datalen = (content l').length ∧ datalen ≤ (content l).length := by
  induction l generalizing n with
  | nil =>
    obtain rfl : n = 0 := Nat.le_zero.mp hn
    cases h
    exact ⟨rfl, le_rfl⟩
  | cons c l ih =>
    cases n with
    | zero =>
      cases h
      exact ⟨rfl, le_rfl⟩
    | succ n =>
      rw [content_cons, List.length_append] at hn h ⊢
      rw [drainLoop] at h
      by_cases hlt : n + 1 < c.data.length
      · rw [if_pos hlt] at h
        cases h
        refine ⟨?_, Nat.sub_le _ _⟩
        rw [content_cons, List.length_append]
        show _ = (c.data.drop (n + 1)).length + _
        rw [List.length_drop]
        omega
      · rw [if_neg hlt, Nat.add_sub_cancel_left] at h
        obtain ⟨hlen, hle⟩ := ih (by omega) h
        exact ⟨hlen, by omega⟩

theorem Counted.bufDrain {buf buf' : Buf} {n : ℕ} (h : Counted buf)
    (hdrain : bufDrain buf n = some buf') : Counted buf' := by
  rw [Buffers.bufDrain] at hdrain
  by_cases hn : n ≤ buf.datalen
  · rw [if_pos hn] at hdrain
    obtain ⟨⟨chunks, datalen⟩, hloop, rfl⟩ := Option.map_eq_some_iff.mp hdrain
    have hle := h.le
    rw [h.length] at hn hloop hle
    obtain ⟨hlen, hshort⟩ := drainLoop_counted hn hloop
    exact ⟨hlen, hshort.trans hle⟩
  · rw [if_neg hn] at hdrain
    cases hdrain

theorem Counted.bufGetBytes {buf buf' : Buf} {n : ℕ} {s : Bytes} (h : Counted buf)
    (hget : bufGetBytes buf n = some (s, buf')) : Counted buf' := by
  obtain ⟨s', -, hrest⟩ := Option.bind_eq_some_iff.mp hget
  obtain ⟨buf₁, hdrain, hsome⟩ := Option.bind_eq_some_iff.mp hrest
  have hcounted := h.bufDrain hdrain
  rw [if_pos hcounted.le] at hsome
  cases hsome
  exact hcounted

theorem pullLoop_content {rest chunks : List Chunk} {dest : Chunk} {n : ℕ}
    (h : pullLoop dest rest n = some chunks) : content chunks = dest.data ++ content rest := by
  induction rest generalizing dest with
  | nil =>
    rw [pullLoop] at h
    by_cases hlt : dest.data.length < n
    · rw [if_pos hlt] at h
      cases h
    · rw [if_neg hlt] at h
      cases h
      rfl
  | cons src rest ih =>
    rw [pullLoop] at h
    by_cases hlt : dest.data.length < n
    · rw [if_pos hlt] at h
      by_cases hle : src.data.length ≤ n - dest.data.length
      · simp only [if_pos hle] at h
        rw [ih h, content_cons]
        show (dest.data ++ src.data) ++ _ = _
        rw [List.append_assoc]
      · simp only [if_neg hle] at h
        cases h
        rw [content_cons, content_cons, content_cons]
        show (dest.data ++ src.data.take _) ++ (src.data.drop _ ++ content rest) = _
        rw [List.append_assoc, ← List.append_assoc (src.data.take _), List.take_append_drop]
    · rw [if_neg hlt] at h
      cases h
      rfl

theorem makeRoom_data {head dest : Chunk} {capacity : ℕ} (h : makeRoom head capacity = some dest) :
    dest.data = head.data := by
  rw [makeRoom] at h
  by_cases hcap : capacity ≤ head.memlen
  · rw [if_pos hcap] at h
    by_cases hroom : head.remainingCapacity < capacity - head.data.length
    · simp only [if_pos hroom, Option.ite_none_right_eq_some] at h
      obtain ⟨-, heq⟩ := h
      rw [← Option.some.inj heq]
      rfl
    · simp only [if_neg hroom, Option.ite_none_right_eq_some] at h
      obtain ⟨-, heq⟩ := h
      rw [← Option.some.inj heq]
  · rw [if_neg hcap] at h
    obtain ⟨grown, hgrow, hsome⟩ := Option.bind_eq_some_iff.mp h
    rw [Chunk.grow, Option.ite_none_right_eq_some] at hgrow
    obtain ⟨-, hgrown⟩ := hgrow
    rw [Option.ite_none_right_eq_some] at hsome
    obtain ⟨-, heq⟩ := hsome
    rw [← Option.some.inj heq, ← Option.some.inj hgrown]
    rfl

theorem bufPullup_same {buf buf' : Buf} {n : ℕ} {s : Bytes} (hpull : bufPullup buf n = some (s, buf')) :
    buf'.datalen = buf.datalen ∧ content buf'.chunks = content buf.chunks := by
  rw [Buffers.bufPullup] at hpull
  cases hchunks : buf.chunks with
  | nil =>
    rw [hchunks] at hpull
    cases hpull
    exact ⟨rfl, by rw [hchunks]⟩
  | cons head rest =>
    simp only [hchunks] at hpull
    by_cases hle : min buf.datalen n ≤ head.data.length
    · rw [if_pos hle] at hpull
      cases hpull
      exact ⟨rfl, by rw [hchunks]⟩
    · rw [if_neg hle] at hpull
      obtain ⟨dest, hdest, hrest⟩ := Option.bind_eq_some_iff.mp hpull
      obtain ⟨chunks, hloop, hsome⟩ := Option.bind_eq_some_iff.mp hrest
      cases hsome
      refine ⟨rfl, ?_⟩
      show content chunks = content (head :: rest)
      rw [pullLoop_content hloop, makeRoom_data hdest, content_cons]

theorem Counted.bufPullup {buf buf' : Buf} {n : ℕ} {s : Bytes} (h : Counted buf)
    (hpull : bufPullup buf n = some (s, buf')) : Counted buf' := by
  obtain ⟨hlen, hcontent⟩ := bufPullup_same hpull
  exact ⟨by rw [hlen, hcontent, h.length], by rw [hlen]; exact h.le⟩

theorem moveLoop_counted {len : ℕ} {bufOut bufIn bufOut' bufIn' : Buf} (hout : Counted bufOut)
    (hin : Counted bufIn) (h : moveLoop bufOut bufIn len = some (bufOut', bufIn')) :
    Counted bufOut' ∧ Counted bufIn' := by
  induction len using Nat.strong_induction_on generalizing bufOut bufIn with
  | _ len ih =>
    rw [moveLoop] at h
    by_cases hzero : len = 0
    · rw [dif_pos hzero] at h
      cases h
      exact ⟨hout, hin⟩
    · rw [dif_neg hzero] at h
      obtain ⟨⟨b, in₁⟩, hget, hrest⟩ := Option.bind_eq_some_iff.mp h
      obtain ⟨⟨v, out₁⟩, hadd, hmore⟩ := Option.bind_eq_some_iff.mp hrest
      exact ih _ (by omega) (hout.bufAdd hadd) (hin.bufGetBytes hget) hmore

theorem Counted.bufMoveToBuf {bufOut bufIn bufOut' bufIn' : Buf} {flushlen flushlen' : ℕ} {v : ℤ}
    (hout : Counted bufOut) (hin : Counted bufIn)
    (h : bufMoveToBuf bufOut bufIn flushlen = some (v, flushlen', bufOut', bufIn')) :
    Counted bufOut' ∧ Counted bufIn' := by
  rw [Buffers.bufMoveToBuf] at h
  by_cases hmax : bufMaxLen < bufOut.datalen ∨ bufMaxLen < flushlen
  · rw [if_pos hmax] at h
    cases h
    exact ⟨hout, hin⟩
  rw [if_neg hmax] at h
  by_cases hroom : bufMaxLen - flushlen < bufOut.datalen
  · rw [if_pos hroom] at h
    cases h
    exact ⟨hout, hin⟩
  rw [if_neg hroom] at h
  by_cases hcp : min flushlen bufIn.datalen ≤ bufMaxLen
  · simp only [if_pos hcp] at h
    obtain ⟨⟨out₁, in₁⟩, hloop, heq⟩ := Option.map_eq_some_iff.mp h
    cases heq
    exact moveLoop_counted hout hin hloop
  · simp only [if_neg hcp] at h
    cases h

theorem Counted.bufMoveAll {bufOut bufIn : Buf} (hout : Counted bufOut) (hin : Counted bufIn) :
    Counted (bufMoveAll bufOut bufIn).2.1 ∧ Counted (bufMoveAll bufOut bufIn).2.2 := by
  rw [Buffers.bufMoveAll]
  by_cases hempty : bufIn.datalen = 0
  · rw [if_pos hempty]
    exact ⟨hout, hin⟩
  rw [if_neg hempty]
  by_cases hmax : bufMaxLen < bufOut.datalen ∨ bufMaxLen < bufIn.datalen
  · rw [if_pos hmax]
    exact ⟨hout, hin⟩
  rw [if_neg hmax]
  by_cases hroom : bufMaxLen - bufIn.datalen < bufOut.datalen
  · rw [if_pos hroom]
    exact ⟨hout, hin⟩
  rw [if_neg hroom]
  refine ⟨⟨?_, ?_⟩, ⟨rfl, Nat.zero_le _⟩⟩
  · show bufOut.datalen + bufIn.datalen = (content (bufOut.chunks ++ bufIn.chunks)).length
    rw [content_append, List.length_append, hout.length, hin.length]
  · show bufOut.datalen + bufIn.datalen ≤ bufMaxLen
    omega

theorem readLoop_counted {atMost : ℕ} {incoming : List Bytes} {buf buf' : Buf} {totalRead : ℕ}
    {read : Bytes} (hlen : buf.datalen = (content buf.chunks).length)
    (hroom : buf.datalen + (atMost - totalRead) ≤ bufMaxLen)
    (h : readLoop atMost buf totalRead incoming = some (read, buf')) : Counted buf' := by
  induction incoming generalizing buf totalRead read with
  | nil =>
    obtain ⟨hsame, hcontent⟩ := ensureRoom_same buf 8 atMost
    rw [readLoop] at h
    by_cases hlt : totalRead < atMost
    · rw [if_pos hlt] at h
      cases h
      exact ⟨by rw [hsame, hcontent, hlen], by omega⟩
    · rw [if_neg hlt] at h
      cases h
      exact ⟨hlen, by omega⟩
  | cons s incoming ih =>
    rw [readLoop] at h
    by_cases hlt : totalRead < atMost
    swap
    · rw [if_neg hlt] at h
      cases h
      exact ⟨hlen, by omega⟩
    rw [if_pos hlt] at h
    obtain ⟨hsame, hcontent⟩ := ensureRoom_same buf 8 atMost
    have hslack := le_bufSlack_ensureRoom buf 8 atMost le_rfl
    have hread : (s.take (min (atMost - totalRead) (bufSlack (ensureRoom buf 8 atMost)))).length ≤
        atMost - totalRead := by
      rw [List.length_take]
      omega
    simp only at h
    generalize s.take (min (atMost - totalRead) (bufSlack (ensureRoom buf 8 atMost))) = part at *
    have hwritten : (writeTail (ensureRoom buf 8 atMost) part).datalen =
        (content (writeTail (ensureRoom buf 8 atMost) part).chunks).length := by
      rw [content_writeTail (by omega), List.length_append, hcontent, ← hlen, ← hsame]
      rfl
    have hnow : (writeTail (ensureRoom buf 8 atMost) part).datalen = buf.datalen + part.length := by
      rw [← hsame]
      rfl
    by_cases hover : bufMaxLen < totalRead + part.length
    · rw [if_pos hover] at h
      cases h
    rw [if_neg hover] at h
    by_cases hdone : part.length < min (atMost - totalRead) (bufSlack (ensureRoom buf 8 atMost))
    · rw [if_pos hdone] at h
      cases h
      exact ⟨hwritten, by omega⟩
    · rw [if_neg hdone] at h
      obtain ⟨⟨more, last⟩, hmore, heq⟩ := Option.map_eq_some_iff.mp h
      cases heq
      exact ih hwritten (by omega) hmore

theorem Counted.bufReadFromFd {buf buf' : Buf} {atMost : ℕ} {incoming : List Bytes}
    {read : Option Bytes} (h : Counted buf) (hmost : atMost ≤ bufMaxLen)
    (hread : bufReadFromFd buf atMost incoming = some (read, buf')) : Counted buf' := by
  rw [Buffers.bufReadFromFd, maxLenMinus_eq hmost] at hread
  by_cases hfull : bufMaxLen < buf.datalen ∨ bufMaxLen - atMost < buf.datalen
  · rw [if_pos hfull] at hread
    cases hread
    exact h
  · rw [if_neg hfull] at hread
    obtain ⟨⟨bytes, last⟩, hloop, heq⟩ := Option.map_eq_some_iff.mp hread
    cases heq
    exact readLoop_counted h.length (by omega) hloop

variable {ι : Type*} [DecidableEq ι] {s : State ι}

theorem counted_update {bufs : ι → Buf} {i : ι} {buf : Buf} (h : ∀ j, Counted (bufs j))
    (hi : Counted buf) (j : ι) : Counted (Function.update bufs i buf j) := by
  by_cases hji : j = i
  · rw [hji, Function.update_self]
    exact hi
  · rw [Function.update_of_ne hji]
    exact h j

theorem perform_counted {bufs bufs' : ι → Buf} {spec : ι → Bytes} {op : Op ι} {outcome : Outcome}
    (h : ∀ i, Counted (bufs i)) (hallowed : Allowed spec op)
    (hperform : perform bufs op = some (outcome, bufs')) : ∀ i, Counted (bufs' i) := by
  cases op with
  | add i t =>
    obtain ⟨⟨v, buf⟩, hadd, heq⟩ := Option.map_eq_some_iff.mp hperform
    cases heq
    exact counted_update h ((h i).bufAdd hadd)
  | getBytes i n =>
    obtain ⟨⟨t, buf⟩, hget, heq⟩ := Option.map_eq_some_iff.mp hperform
    cases heq
    exact counted_update h ((h i).bufGetBytes hget)
  | drain i n =>
    obtain ⟨buf, hdrain, heq⟩ := Option.map_eq_some_iff.mp hperform
    cases heq
    exact counted_update h ((h i).bufDrain hdrain)
  | pullup i n =>
    obtain ⟨⟨head, buf⟩, hpull, heq⟩ := Option.map_eq_some_iff.mp hperform
    cases heq
    exact counted_update h ((h i).bufPullup hpull)
  | moveToBuf o i flushlen =>
    obtain ⟨⟨v, left, bufOut, bufIn⟩, hmove, heq⟩ := Option.map_eq_some_iff.mp hperform
    cases heq
    obtain ⟨hout, hin⟩ := (h o).bufMoveToBuf (h i) hmove
    exact counted_update (counted_update h hout) hin
  | moveAll o i =>
    obtain ⟨hout, hin⟩ := (h o).bufMoveAll (h i)
    cases hperform
    exact counted_update (counted_update h hout) hin
  | copy i k =>
    cases hperform
    rw [bufCopy_spec]
    exact counted_update h (h i)
  | read i atMost incoming =>
    obtain ⟨⟨read, buf⟩, hread, heq⟩ := Option.map_eq_some_iff.mp hperform
    cases heq
    have hroom : (spec i).length + atMost ≤ bufMaxLen := hallowed
    exact counted_update h ((h i).bufReadFromFd (by omega) hread)

theorem counted_inductive : Inductive (system (ι := ι)) (fun _ _ => True) fun s =>
    ∀ i, Counted (s.bufs i) where
  init s hs i := by
    obtain ⟨hchunks, hdatalen, -⟩ := hs i
    exact ⟨by rw [hchunks, hdatalen]; rfl, by rw [hdatalen]; exact Nat.zero_le _⟩
  step s op s' h _ hs := by
    obtain ⟨hallowed, outcome, hperform, -⟩ := hs
    exact perform_counted h hallowed hperform

theorem counted (hr : Reached (system (ι := ι)) (fun _ _ => True) s) (i : ι) : Counted (s.bufs i) :=
  hr.invariant counted_inductive i

end Buffers
