/-
Buffers of bytes (`buf_t`).

A buffer is a list of chunks.  Data is added to the tail, which is the last chunk, and removed from
the head.  A chunk has the bytes at `data`, which stand `offset` bytes behind the beginning of its
memory.  A well-formed buffer (`Ok`) counts its bytes in `datalen`, has every chunk within its
memory, and has no chunk without data but the tail.  For each operation there is one lemma that
says what becomes of the content.
-/
import LibEltor.Bytes
import Mathlib.Data.List.ModifyLast
import Mathlib.Tactic.Ring

open Bytes

namespace Buffers

def bufMaxLen : ℕ := 2 ^ 31 - 2

def chunkOverhead : ℕ := 36 + 4

def minChunkAlloc : ℕ := 256

def maxChunkAlloc : ℕ := 65536

/-! ### Chunks -/

/-- `data` are the `datalen` bytes from `offset` on. -/
structure Chunk where
  memlen : ℕ
  offset : ℕ
  data : Bytes
deriving DecidableEq

def Chunk.remainingCapacity (c : Chunk) : ℕ := c.memlen - (c.offset + c.data.length)

def Chunk.repack (c : Chunk) : Chunk := { c with offset := 0 }

/-- None where `sz > chunk->memlen` fails. -/
def Chunk.grow (c : Chunk) (sz : ℕ) : Option Chunk :=
  if c.memlen < sz then some { c with memlen := sz } else none

/-- Bytes are written at `CHUNK_WRITE_PTR`. -/
def Chunk.write (c : Chunk) (s : Bytes) : Chunk := { c with data := c.data ++ s }

/-- The first `n` bytes are removed. -/
def Chunk.advance (c : Chunk) (n : ℕ) : Chunk :=
  { c with offset := c.offset + n, data := c.data.drop n }

def chunkNewWithAllocSize (alloc : ℕ) : Chunk := ⟨alloc - chunkOverhead, 0, []⟩

/-- The loop that doubles `sz`. -/
def preferredFrom (target k : ℕ) : ℕ :=
  if minChunkAlloc * 2 ^ k - chunkOverhead < target then preferredFrom target (k + 1)
  else minChunkAlloc * 2 ^ k
termination_by target + chunkOverhead - minChunkAlloc * 2 ^ k
decreasing_by
  have hpos : 0 < 2 ^ k := Nat.two_pow_pos k
  simp only [minChunkAlloc, chunkOverhead, pow_succ] at *
  omega

def bufPreferredChunkSize (target : ℕ) : ℕ :=
  if maxChunkAlloc ≤ chunkOverhead + target then chunkOverhead + target
  else preferredFrom target 0

/-! ### Buffers -/

/-- No buffer is made with a smaller default (`buf_new`, `buf_new_with_capacity`). -/
structure Buf where
  datalen : ℕ
  defaultChunkSize : ℕ
  chunks : List Chunk
  large : minChunkAlloc ≤ defaultChunkSize

def bufSlack (buf : Buf) : ℕ := (buf.chunks.getLast?.map Chunk.remainingCapacity).getD 0

def bufAddChunkWithCapacity (buf : Buf) (capacity : ℕ) (capped : Bool) : Buf :=
  let chunk :=
    if chunkOverhead + capacity < buf.defaultChunkSize then
      chunkNewWithAllocSize buf.defaultChunkSize
    else if capped ∧ maxChunkAlloc < chunkOverhead + capacity then
      chunkNewWithAllocSize maxChunkAlloc
    else chunkNewWithAllocSize (bufPreferredChunkSize capacity)
  { buf with chunks := buf.chunks ++ [chunk] }

/-- A chunk is added where the tail has less than `room` bytes left, or there is none. -/
def ensureRoom (buf : Buf) (room capacity : ℕ) : Buf :=
  if bufSlack buf < room then bufAddChunkWithCapacity buf capacity true else buf

def writeTail (buf : Buf) (s : Bytes) : Buf :=
  { buf with
    datalen := buf.datalen + s.length
    chunks := buf.chunks.modifyLast fun c => c.write s }

/-- What `BUF_MAX_LEN - n` is as a `size_t`. -/
def maxLenMinus (n : ℕ) : ℕ := (bufMaxLen + 2 ^ 64 - n % 2 ^ 64) % 2 ^ 64

theorem minChunkAlloc_le_preferredFrom (target k : ℕ) :
    minChunkAlloc ≤ preferredFrom target k ∧ target + chunkOverhead ≤ preferredFrom target k := by
  induction k using preferredFrom.induct target with
  | case1 k hlt ih =>
    rw [preferredFrom, if_pos hlt]
    exact ih
  | case2 k hle =>
    rw [preferredFrom, if_neg hle]
    have hpos : 0 < 2 ^ k := Nat.two_pow_pos k
    simp only [minChunkAlloc, chunkOverhead] at *
    omega

theorem le_bufPreferredChunkSize (target : ℕ) :
    minChunkAlloc ≤ bufPreferredChunkSize target ∧
      target + chunkOverhead ≤ bufPreferredChunkSize target := by
  rw [bufPreferredChunkSize]
  split_ifs with h
  · simp only [maxChunkAlloc, minChunkAlloc] at *
    omega
  · exact minChunkAlloc_le_preferredFrom target 0

theorem exists_chunk_added (buf : Buf) (capacity : ℕ) (capped : Bool) : ∃ memlen,
    8 ≤ memlen ∧ bufAddChunkWithCapacity buf capacity capped =
      { buf with chunks := buf.chunks ++ [⟨memlen, 0, []⟩] } := by
  have hlarge := buf.large
  have hpreferred := (le_bufPreferredChunkSize capacity).1
  rw [bufAddChunkWithCapacity]
  simp only [minChunkAlloc] at hlarge hpreferred
  split_ifs
  · exact ⟨buf.defaultChunkSize - chunkOverhead, by rw [chunkOverhead]; omega, rfl⟩
  · exact ⟨maxChunkAlloc - chunkOverhead, by decide, rfl⟩
  · exact ⟨bufPreferredChunkSize capacity - chunkOverhead, by rw [chunkOverhead]; omega, rfl⟩

theorem bufSlack_concat (buf : Buf) (front : List Chunk) (c : Chunk) (h : buf.chunks = front ++ [c]) :
    bufSlack buf = c.remainingCapacity := by
  rw [bufSlack, h, List.getLast?_concat]
  rfl

theorem le_bufSlack_ensureRoom (buf : Buf) (room capacity : ℕ) (hroom : room ≤ 8) :
    room ≤ bufSlack (ensureRoom buf room capacity) := by
  rw [ensureRoom]
  split_ifs with h
  · obtain ⟨memlen, hmem, hadd⟩ := exists_chunk_added buf capacity true
    rw [hadd, bufSlack_concat _ buf.chunks ⟨memlen, 0, []⟩ rfl]
    simp only [Chunk.remainingCapacity, List.length_nil]
    omega
  · omega

/-! ### The operations -/

def bufAddLoop (buf : Buf) (s : Bytes) : Buf :=
  if _h : s = [] then buf
  else
    let room := ensureRoom buf 1 s.length
    let copy := min (bufSlack room) s.length
    bufAddLoop (writeTail room (s.take copy)) (s.drop copy)
termination_by s.length
decreasing_by
  have hslack := le_bufSlack_ensureRoom buf 1 s.length (by decide)
  have hlen := List.length_pos_iff.mpr _h
  rw [List.length_drop]
  omega

def bufAdd (buf : Buf) (s : Bytes) : Option (ℤ × Buf) :=
  if s = [] then some (buf.datalen, buf)
  else if bufMaxLen < buf.datalen then some (-1, buf)
  else if maxLenMinus s.length < buf.datalen then some (-1, buf)
  else
    let buf := bufAddLoop buf s
    if buf.datalen ≤ bufMaxLen then some (buf.datalen, buf) else none

def peekLoop : List Chunk → ℕ → Option Bytes
  | _, 0 => some []
  | [], _ + 1 => none
  | chunk :: rest, len + 1 =>
    let copy := min chunk.data.length (len + 1)
    (peekLoop rest (len + 1 - copy)).map fun s => chunk.data.take copy ++ s

def bufPeek (buf : Buf) (len : ℕ) : Option Bytes :=
  if len ≤ buf.datalen then peekLoop buf.chunks len else none

def drainLoop : List Chunk → ℕ → ℕ → Option (List Chunk × ℕ)
  | chunks, datalen, 0 => some (chunks, datalen)
  | [], _, _ + 1 => none
  | head :: rest, datalen, n + 1 =>
    if n + 1 < head.data.length then some (head.advance (n + 1) :: rest, datalen - (n + 1))
    else drainLoop rest (datalen - head.data.length) (n + 1 - head.data.length)

def bufDrain (buf : Buf) (n : ℕ) : Option Buf :=
  if n ≤ buf.datalen then
    (drainLoop buf.chunks buf.datalen n).map fun (chunks, datalen) => { buf with chunks, datalen }
  else none

def bufGetBytes (buf : Buf) (len : ℕ) : Option (Bytes × Buf) := do
  let s ← bufPeek buf len
  let buf ← bufDrain buf len
  if buf.datalen ≤ bufMaxLen then some (s, buf) else none

def pullLoop (dest : Chunk) : List Chunk → ℕ → Option (List Chunk)
  | rest, bytes =>
    if dest.data.length < bytes then
      match rest with
      | [] => none
      | src :: rest =>
        let n := bytes - dest.data.length
        if src.data.length ≤ n then pullLoop (dest.write src.data) rest bytes
        else some (dest.write (src.data.take n) :: src.advance n :: rest)
    else some (dest :: rest)
termination_by structural rest => rest

def makeRoom (head : Chunk) (capacity : ℕ) : Option Chunk :=
  if capacity ≤ head.memlen then
    let needed := capacity - head.data.length
    let head := if head.remainingCapacity < needed then head.repack else head
    if needed ≤ head.remainingCapacity then some head else none
  else do
    let newhead ← head.repack.grow (bufPreferredChunkSize capacity - chunkOverhead)
    if capacity ≤ newhead.memlen then some newhead else none

def bufPullup (buf : Buf) (bytes : ℕ) : Option (Bytes × Buf) :=
  match buf.chunks with
  | [] => some ([], buf)
  | head :: rest =>
    let bytes := min buf.datalen bytes
    if bytes ≤ head.data.length then some (head.data, buf)
    else do
      let dest ← makeRoom head bytes
      let chunks ← pullLoop dest rest bytes
      some ((chunks.head?.map Chunk.data).getD [], { buf with chunks })

def moveLoop (bufOut bufIn : Buf) (len : ℕ) : Option (Buf × Buf) :=
  if _h : len = 0 then some (bufOut, bufIn)
  else do
    let n := min len 4096
    let (b, bufIn) ← bufGetBytes bufIn n
    let (_, bufOut) ← bufAdd bufOut b
    moveLoop bufOut bufIn (len - n)
termination_by len

/-- The value returned, the new `*buf_flushlen` and the two buffers. -/
def bufMoveToBuf (bufOut bufIn : Buf) (bufFlushlen : ℕ) : Option (ℤ × ℕ × Buf × Buf) :=
  if bufMaxLen < bufOut.datalen ∨ bufMaxLen < bufFlushlen then
    some (-1, bufFlushlen, bufOut, bufIn)
  else if bufMaxLen - bufFlushlen < bufOut.datalen then some (-1, bufFlushlen, bufOut, bufIn)
  else
    let cp := min bufFlushlen bufIn.datalen
    if cp ≤ bufMaxLen then
      (moveLoop bufOut bufIn cp).map fun (bufOut, bufIn) => (cp, bufFlushlen - cp, bufOut, bufIn)
    else none

def bufMoveAll (bufOut bufIn : Buf) : ℕ × Buf × Buf :=
  if bufIn.datalen = 0 then (0, bufOut, bufIn)
  else if bufMaxLen < bufOut.datalen ∨ bufMaxLen < bufIn.datalen then (0, bufOut, bufIn)
  else if bufMaxLen - bufIn.datalen < bufOut.datalen then (0, bufOut, bufIn)
  else
    (bufIn.datalen,
      { bufOut with
        chunks := bufOut.chunks ++ bufIn.chunks
        datalen := bufOut.datalen + bufIn.datalen },
      { bufIn with chunks := [], datalen := 0 })

def chunkCopy (inChunk : Chunk) : Chunk := ⟨inChunk.memlen, inChunk.offset, inChunk.data⟩

def bufCopy (buf : Buf) : Buf := { buf with chunks := buf.chunks.map chunkCopy }

/-- The loop of `buf_read_from_fd`; what the reads would give stands in `incoming`, none left when
they have nothing. -/
def readLoop (atMost : ℕ) : Buf → ℕ → List Bytes → Option (Bytes × Buf)
  | buf, totalRead, incoming =>
    if totalRead < atMost then
      let buf := ensureRoom buf 8 atMost
      let readlen := min (atMost - totalRead) (bufSlack buf)
      match incoming with
      | [] => some ([], buf)
      | s :: incoming =>
        let read := s.take readlen
        let buf := writeTail buf read
        if bufMaxLen < totalRead + read.length then none
        else if read.length < readlen then some (read, buf)
        else (readLoop atMost buf (totalRead + read.length) incoming).map fun (more, buf) =>
          (read ++ more, buf)
    else some ([], buf)
termination_by structural _ _ incoming => incoming

def bufReadFromFd (buf : Buf) (atMost : ℕ) (incoming : List Bytes) :
    Option (Option Bytes × Buf) :=
  if bufMaxLen < buf.datalen ∨ maxLenMinus atMost < buf.datalen then some (none, buf)
  else (readLoop atMost buf 0 incoming).map fun (read, buf) => (some read, buf)

/-! ### Well-formed buffers -/

/-- The data is within the memory, and without data there is room for a read. -/
structure Chunk.Ok (c : Chunk) : Prop where
  fits : c.offset + c.data.length ≤ c.memlen
  room : c.data = [] → 8 ≤ c.remainingCapacity

def content (chunks : List Chunk) : Bytes := chunks.flatMap Chunk.data

@[simp] theorem content_nil : content [] = [] := rfl

@[simp] theorem content_cons (c : Chunk) (l : List Chunk) : content (c :: l) = c.data ++ content l :=
  List.flatMap_cons

@[simp] theorem content_append (l m : List Chunk) : content (l ++ m) = content l ++ content m :=
  List.flatMap_append

structure ChunksOk (l : List Chunk) : Prop where
  ok : ∀ c ∈ l, c.Ok
  full : ∀ c ∈ l.dropLast, c.data ≠ []

structure Ok (buf : Buf) : Prop where
  length : buf.datalen = (content buf.chunks).length
  chunks : ChunksOk buf.chunks

theorem ChunksOk.nil : ChunksOk [] :=
  ⟨fun _ h => absurd h List.not_mem_nil, fun _ h => absurd h List.not_mem_nil⟩

theorem chunksOk_cons {c : Chunk} {l : List Chunk} :
    ChunksOk (c :: l) ↔ c.Ok ∧ (l ≠ [] → c.data ≠ []) ∧ ChunksOk l := by
  constructor
  · intro h
    refine ⟨h.ok c List.mem_cons_self, fun hne => h.full c ?_, ?_, ?_⟩
    · rw [List.dropLast_cons_of_ne_nil hne]
      exact List.mem_cons_self
    · exact fun d hd => h.ok d (List.mem_cons_of_mem _ hd)
    · intro d hd
      have hne : l ≠ [] := by
        rintro rfl
        exact absurd hd List.not_mem_nil
      refine h.full d ?_
      rw [List.dropLast_cons_of_ne_nil hne]
      exact List.mem_cons_of_mem _ hd
  · rintro ⟨hc, hne, hl⟩
    refine ⟨List.forall_mem_cons.mpr ⟨hc, hl.ok⟩, fun d hd => ?_⟩
    cases l with
    | nil => exact absurd hd List.not_mem_nil
    | cons e l =>
      rcases List.mem_cons.mp hd with rfl | hd
      · exact hne (List.cons_ne_nil _ _)
      · exact hl.full d hd

theorem ChunksOk.append {l m : List Chunk} (hl : ChunksOk l) (hm : ChunksOk m)
    (hfull : ∀ c ∈ l, c.data ≠ []) : ChunksOk (l ++ m) := by
  induction l with
  | nil => exact hm
  | cons c l ih =>
    obtain ⟨hc, _, hl⟩ := chunksOk_cons.mp hl
    obtain ⟨hdata, hrest⟩ := List.forall_mem_cons.mp hfull
    exact chunksOk_cons.mpr ⟨hc, fun _ => hdata, ih hl hrest⟩

theorem ChunksOk.replaceTail {front : List Chunk} {c d : Chunk} (h : ChunksOk (front ++ [c]))
    (hd : d.Ok) : ChunksOk (front ++ [d]) := by
  have hfull : ∀ x ∈ front, x.data ≠ [] := by
    intro x hx
    refine h.full x ?_
    rwa [List.dropLast_concat]
  have hfront : ChunksOk front :=
    ⟨fun x hx => h.ok x (List.mem_append_left _ hx), fun x hx => hfull x (List.dropLast_subset _ hx)⟩
  refine hfront.append ⟨?_, fun _ hx => absurd hx List.not_mem_nil⟩ hfull
  rintro _ hx
  obtain rfl := List.mem_singleton.mp hx
  exact hd

/-! ### Adding data -/

theorem Chunk.Ok.write {c : Chunk} (h : c.Ok) {s : Bytes} (hs : s.length ≤ c.remainingCapacity) :
    (c.write s).Ok := by
  have hfits := h.fits
  rw [remainingCapacity] at hs
  constructor
  · show c.offset + (c.data ++ s).length ≤ c.memlen
    rw [List.length_append]
    omega
  · intro hnil
    obtain ⟨hdata, rfl⟩ := List.append_eq_nil_iff.mp hnil
    have hroom := h.room hdata
    show 8 ≤ c.memlen - (c.offset + (c.data ++ []).length)
    rwa [List.append_nil]

theorem exists_tail {buf : Buf} (h : 0 < bufSlack buf) : ∃ front c, buf.chunks = front ++ [c] := by
  rcases List.eq_nil_or_concat buf.chunks with hnil | ⟨front, c, hc⟩
  · rw [bufSlack, hnil] at h
    exact absurd h (by decide)
  · exact ⟨front, c, by rw [hc, List.concat_eq_append]⟩

theorem Ok.writeTail {buf : Buf} (h : Ok buf) (s : Bytes) (hpos : 0 < bufSlack buf)
    (hs : s.length ≤ bufSlack buf) :
    Ok (writeTail buf s) ∧
      content (Buffers.writeTail buf s).chunks = content buf.chunks ++ s := by
  obtain ⟨front, c, hc⟩ := exists_tail hpos
  rw [bufSlack_concat buf front c hc] at hs
  have hchunks := h.chunks
  have hlength := h.length
  rw [hc] at hchunks hlength
  have hwritten : (Buffers.writeTail buf s).chunks = front ++ [c.write s] := by
    rw [Buffers.writeTail, hc, List.modifyLast_concat]
  have hcontent : content (front ++ [c.write s]) = content (front ++ [c]) ++ s := by
    simp [Chunk.write]
  refine ⟨⟨?_, ?_⟩, ?_⟩
  · rw [hwritten, hcontent, List.length_append, ← hlength]
    rfl
  · rw [hwritten]
    exact hchunks.replaceTail ((hchunks.ok c (by simp)).write hs)
  · rw [hwritten, hcontent, hc]

theorem Ok.ensureRoom {buf : Buf} (h : Ok buf) (room : ℕ) (hroom : room ≤ 8) (capacity : ℕ) :
    Ok (ensureRoom buf room capacity) ∧
      content (Buffers.ensureRoom buf room capacity).chunks = content buf.chunks := by
  rw [Buffers.ensureRoom]
  split_ifs with hslack
  · obtain ⟨memlen, hmem, hadd⟩ := exists_chunk_added buf capacity true
    rw [hadd]
    have hnew : ChunksOk [(⟨memlen, 0, []⟩ : Chunk)] :=
      chunksOk_cons.mpr ⟨⟨Nat.zero_le _, fun _ => hmem⟩, fun hne => absurd rfl hne, .nil⟩
    have hfull : ∀ c ∈ buf.chunks, c.data ≠ [] := by
      rcases List.eq_nil_or_concat buf.chunks with hnil | ⟨front, c, hc⟩
      · rw [hnil]
        exact fun _ hx => absurd hx List.not_mem_nil
      · rw [List.concat_eq_append] at hc
        rw [bufSlack_concat buf front c hc] at hslack
        have hchunks := h.chunks
        rw [hc] at hchunks ⊢
        intro d hd hempty
        rcases List.mem_append.mp hd with hd | hd
        · exact hchunks.full d (by rwa [List.dropLast_concat]) hempty
        · obtain rfl := List.mem_singleton.mp hd
          have := (hchunks.ok d (by simp)).room hempty
          omega
    refine ⟨⟨?_, h.chunks.append hnew hfull⟩, by simp⟩
    show buf.datalen = (content (buf.chunks ++ [_])).length
    rw [h.length]
    simp
  · exact ⟨h, rfl⟩

theorem Ok.bufAddLoop {buf : Buf} (h : Ok buf) (s : Bytes) :
    Ok (bufAddLoop buf s) ∧
      content (Buffers.bufAddLoop buf s).chunks = content buf.chunks ++ s := by
  induction buf, s using Buffers.bufAddLoop.induct with
  | case1 buf =>
    rw [Buffers.bufAddLoop, dif_pos rfl]
    exact ⟨h, (List.append_nil _).symm⟩
  | case2 buf s hne room copy ih =>
    obtain ⟨hroom, hcontent⟩ := h.ensureRoom 1 (by decide) s.length
    have hslack : 1 ≤ bufSlack room := le_bufSlack_ensureRoom buf 1 s.length (by decide)
    obtain ⟨hwritten, hadded⟩ := @Ok.writeTail room hroom (s.take copy) hslack
      (by rw [List.length_take]; omega)
    rw [Buffers.bufAddLoop, dif_neg hne]
    obtain ⟨hok, hall⟩ := ih hwritten
    refine ⟨hok, hall.trans ?_⟩
    rw [hadded, hcontent, List.append_assoc, List.take_append_drop]

theorem maxLenMinus_eq {n : ℕ} (h : n ≤ bufMaxLen) : maxLenMinus n = bufMaxLen - n := by
  simp only [maxLenMinus, bufMaxLen] at *
  omega

theorem bufAdd_spec {buf : Buf} (h : Ok buf) {s : Bytes}
    (hlen : (content buf.chunks).length + s.length ≤ bufMaxLen) :
    ∃ buf', bufAdd buf s = some (↑((content buf.chunks).length + s.length), buf') ∧ Ok buf' ∧
      content buf'.chunks = content buf.chunks ++ s := by
  rw [← h.length] at hlen ⊢
  rw [bufAdd]
  by_cases hs : s = []
  · subst hs
    exact ⟨buf, by simp, h, (List.append_nil _).symm⟩
  · obtain ⟨hok, hcontent⟩ := h.bufAddLoop s
    have hdatalen : (Buffers.bufAddLoop buf s).datalen = buf.datalen + s.length := by
      rw [hok.length, hcontent, List.length_append, h.length]
    rw [if_neg hs, if_neg (by omega), maxLenMinus_eq (by omega), if_neg (by omega)]
    refine ⟨_, ?_, hok, hcontent⟩
    simp only [hdatalen, if_pos hlen]

/-! ### Removing data -/

theorem peekLoop_spec {l : List Chunk} {n : ℕ} (h : n ≤ (content l).length) :
    peekLoop l n = some ((content l).take n) := by
  induction l generalizing n with
  | nil =>
    obtain rfl : n = 0 := Nat.le_zero.mp h
    rfl
  | cons c l ih =>
    cases n with
    | zero => rfl
    | succ n =>
      rw [content_cons, List.length_append] at h
      rw [peekLoop, ih (by omega), Option.map_some, content_cons, List.take_append]
      congr 2
      · rcases Nat.le_total c.data.length (n + 1) with hle | hle
        · rw [Nat.min_eq_left hle, List.take_length, List.take_of_length_le hle]
        · rw [Nat.min_eq_right hle]
      · congr 1
        omega

theorem Chunk.Ok.advance {c : Chunk} (h : c.Ok) {n : ℕ} (hn : n < c.data.length) :
    (c.advance n).Ok ∧ (c.advance n).data ≠ [] := by
  have hfits := h.fits
  have hdata : (c.advance n).data ≠ [] := by
    show c.data.drop n ≠ []
    rw [ne_eq, List.drop_eq_nil_iff]
    omega
  refine ⟨⟨?_, fun hnil => absurd hnil hdata⟩, hdata⟩
  show c.offset + n + (c.data.drop n).length ≤ c.memlen
  rw [List.length_drop]
  omega

theorem drainLoop_spec {l : List Chunk} (hl : ChunksOk l) {n : ℕ} (h : n ≤ (content l).length) :
    ∃ l', drainLoop l (content l).length n = some (l', (content l).length - n) ∧ ChunksOk l' ∧
      content l' = (content l).drop n := by
  induction l generalizing n with
  | nil =>
    obtain rfl : n = 0 := Nat.le_zero.mp h
    exact ⟨[], rfl, .nil, rfl⟩
  | cons c l ih =>
    obtain ⟨hc, hne, hrest⟩ := chunksOk_cons.mp hl
    cases n with
    | zero => exact ⟨c :: l, rfl, hl, rfl⟩
    | succ n =>
      rw [content_cons, List.length_append] at h ⊢
      rw [drainLoop]
      split_ifs with hlt
      · obtain ⟨hok, hdata⟩ := hc.advance hlt
        refine ⟨_, rfl, chunksOk_cons.mpr ⟨hok, fun _ => hdata, hrest⟩, ?_⟩
        rw [content_cons, List.drop_append_of_le_length (Nat.le_of_lt hlt)]
        rfl
      · obtain ⟨l', hdrain, hok, hcontent⟩ := ih hrest (n := n + 1 - c.data.length) (by omega)
        refine ⟨l', ?_, hok, ?_⟩
        · rw [Nat.add_sub_cancel_left, hdrain]
          congr 2
          omega
        · have hgone : c.data.drop (n + 1) = [] := List.drop_eq_nil_of_le (not_lt.mp hlt)
          rw [hcontent, List.drop_append, hgone, List.nil_append]

theorem bufDrain_spec {buf : Buf} (h : Ok buf) {n : ℕ} (hn : n ≤ (content buf.chunks).length) :
    ∃ buf', bufDrain buf n = some buf' ∧ Ok buf' ∧
      content buf'.chunks = (content buf.chunks).drop n := by
  obtain ⟨l, hdrain, hok, hcontent⟩ := drainLoop_spec h.chunks hn
  rw [bufDrain, h.length, if_pos hn, hdrain]
  refine ⟨_, rfl, ⟨?_, hok⟩, hcontent⟩
  show (content buf.chunks).length - n = (content l).length
  rw [hcontent, List.length_drop]

theorem bufGetBytes_spec {buf : Buf} (h : Ok buf) (hmax : (content buf.chunks).length ≤ bufMaxLen)
    {n : ℕ} (hn : n ≤ (content buf.chunks).length) :
    ∃ buf', bufGetBytes buf n = some ((content buf.chunks).take n, buf') ∧ Ok buf' ∧
      content buf'.chunks = (content buf.chunks).drop n := by
  obtain ⟨buf', hdrain, hok, hcontent⟩ := bufDrain_spec h hn
  have hpeek : bufPeek buf n = some ((content buf.chunks).take n) := by
    rw [bufPeek, h.length, if_pos hn, peekLoop_spec hn]
  have hlen : buf'.datalen ≤ bufMaxLen := by
    rw [hok.length, hcontent, List.length_drop]
    omega
  refine ⟨buf', ?_, hok, hcontent⟩
  simp only [bufGetBytes, hpeek, hdrain, Option.bind_eq_bind, Option.bind_some, if_pos hlen]

theorem makeRoom_spec {c : Chunk} (h : c.Ok) {capacity : ℕ} (hlt : c.data.length < capacity) :
    ∃ dest, makeRoom c capacity = some dest ∧ dest.data = c.data ∧
      dest.offset + capacity ≤ dest.memlen := by
  have hfits := h.fits
  rw [makeRoom]
  by_cases hcap : capacity ≤ c.memlen
  · rw [if_pos hcap]
    by_cases hroom : c.remainingCapacity < capacity - c.data.length
    · simp only [if_pos hroom]
      have hneeded : capacity - c.data.length ≤ c.repack.remainingCapacity := by
        show capacity - c.data.length ≤ c.memlen - (0 + c.data.length)
        omega
      refine ⟨c.repack, if_pos hneeded, rfl, ?_⟩
      show 0 + capacity ≤ c.memlen
      omega
    · simp only [if_neg hroom]
      refine ⟨c, if_pos (not_lt.mp hroom), rfl, ?_⟩
      rw [Chunk.remainingCapacity] at hroom
      omega
  · rw [if_neg hcap]
    have hsize := (le_bufPreferredChunkSize capacity).2
    have hgrow : c.repack.grow (bufPreferredChunkSize capacity - chunkOverhead) =
        some { c.repack with memlen := bufPreferredChunkSize capacity - chunkOverhead } := by
      refine if_pos ?_
      show c.memlen < _
      omega
    have hle : capacity ≤ bufPreferredChunkSize capacity - chunkOverhead := by omega
    rw [hgrow, Option.bind_eq_bind, Option.bind_some, if_pos hle]
    refine ⟨_, rfl, rfl, ?_⟩
    show 0 + capacity ≤ bufPreferredChunkSize capacity - chunkOverhead
    omega

theorem pullLoop_spec {l : List Chunk} {dest : Chunk} {bytes : ℕ} (hl : ChunksOk l)
    (hdata : dest.data ≠ []) (hfits : dest.offset + dest.data.length ≤ dest.memlen)
    (hroom : dest.offset + bytes ≤ dest.memlen)
    (hbytes : bytes ≤ dest.data.length + (content l).length) :
    ∃ head rest, pullLoop dest l bytes = some (head :: rest) ∧ ChunksOk (head :: rest) ∧
      content (head :: rest) = dest.data ++ content l ∧ bytes ≤ head.data.length := by
  induction l generalizing dest with
  | nil =>
    rw [content_nil, List.length_nil, Nat.add_zero] at hbytes
    rw [pullLoop, if_neg (not_lt.mpr hbytes)]
    refine ⟨dest, [], rfl, ?_, rfl, hbytes⟩
    exact chunksOk_cons.mpr ⟨⟨hfits, fun hnil => absurd hnil hdata⟩, fun _ => hdata, .nil⟩
  | cons src l ih =>
    obtain ⟨hsrc, hne, hrest⟩ := chunksOk_cons.mp hl
    rw [content_cons, List.length_append] at hbytes
    rw [pullLoop]
    by_cases hlt : dest.data.length < bytes
    · rw [if_pos hlt]
      by_cases hle : src.data.length ≤ bytes - dest.data.length
      · simp only [if_pos hle]
        have hwrite : (dest.write src.data).data = dest.data ++ src.data := rfl
        have hlen : (dest.write src.data).data.length = dest.data.length + src.data.length := by
          rw [hwrite, List.length_append]
        obtain ⟨head, rest, hpull, hok, hcontent, hhead⟩ := @ih (dest.write src.data) hrest
          (by rw [hwrite]; exact List.append_ne_nil_of_left_ne_nil hdata _)
          (by show dest.offset + _ ≤ dest.memlen; omega) hroom (by omega)
        refine ⟨head, rest, hpull, hok, ?_, hhead⟩
        rw [hcontent, hwrite, content_cons, List.append_assoc]
      · simp only [if_neg hle]
        obtain ⟨hadvance, hleft⟩ := hsrc.advance (not_le.mp hle)
        have hwrite : (dest.write (src.data.take (bytes - dest.data.length))).data =
          dest.data ++ src.data.take (bytes - dest.data.length) := rfl
        have hlen : (dest.write (src.data.take (bytes - dest.data.length))).data.length = bytes := by
          rw [hwrite, List.length_append, List.length_take]
          omega
        have hnil : (dest.write (src.data.take (bytes - dest.data.length))).data ≠ [] := by
          rw [hwrite]
          exact List.append_ne_nil_of_left_ne_nil hdata _
        refine ⟨_, _, rfl, ?_, ?_, hlen.ge⟩
        · refine chunksOk_cons.mpr ⟨⟨?_, fun h => absurd h hnil⟩, fun _ => hnil, ?_⟩
          · rw [hlen]
            exact hroom
          · exact chunksOk_cons.mpr ⟨hadvance, fun _ => hleft, hrest⟩
        · rw [content_cons, content_cons, content_cons, hwrite]
          show (dest.data ++ src.data.take _) ++ (src.data.drop _ ++ content l) = _
          rw [List.append_assoc, ← List.append_assoc (src.data.take _), List.take_append_drop]
    · rw [if_neg hlt]
      refine ⟨dest, src :: l, rfl, ?_, rfl, not_lt.mp hlt⟩
      exact chunksOk_cons.mpr ⟨⟨hfits, fun h => absurd h hdata⟩, fun _ => hdata, hl⟩

theorem bufPullup_spec {buf : Buf} (h : Ok buf) (bytes : ℕ) :
    ∃ head buf', bufPullup buf bytes = some (head, buf') ∧ Ok buf' ∧
      content buf'.chunks = content buf.chunks ∧ head.IsPrefix (content buf.chunks) ∧
      min (content buf.chunks).length bytes ≤ head.length := by
  rw [bufPullup, h.length]
  cases hchunks : buf.chunks with
  | nil => exact ⟨[], buf, rfl, h, by rw [hchunks], List.nil_prefix, Nat.min_le_left _ _⟩
  | cons c l =>
    have hl := h.chunks
    rw [hchunks] at hl
    obtain ⟨hc, hne, hrest⟩ := chunksOk_cons.mp hl
    by_cases hle : min (content (c :: l)).length bytes ≤ c.data.length
    · simp only [if_pos hle]
      exact ⟨c.data, buf, rfl, h, by rw [hchunks], List.prefix_append _ _, hle⟩
    · simp only [if_neg hle]
      obtain ⟨dest, hdest, hdata, hroom⟩ := makeRoom_spec hc (not_le.mp hle)
      have hlen : (content (c :: l)).length = c.data.length + (content l).length := by
        rw [content_cons, List.length_append]
      have hlne : l ≠ [] := by
        rintro rfl
        rw [content_nil, List.length_nil] at hlen
        omega
      obtain ⟨head, rest, hpull, hok, hcontent, hhead⟩ := @pullLoop_spec l dest _ hrest
        (by rw [hdata]; exact hne hlne) (by rw [hdata]; omega) hroom (by rw [hdata]; omega)
      simp only [hdest, hpull, Option.bind_eq_bind, Option.bind_some]
      have hsame : content (head :: rest) = content (c :: l) := by rw [hcontent, hdata, content_cons]
      refine ⟨head.data, _, rfl, ⟨?_, hok⟩, hsame, ?_, hhead⟩
      · show (content (c :: l)).length = (content (head :: rest)).length
        rw [hsame]
      · rw [← hsame, content_cons]
        exact List.prefix_append _ _

theorem moveLoop_spec {len : ℕ} {bufOut bufIn : Buf} (hout : Ok bufOut) (hin : Ok bufIn)
    (hlen : len ≤ (content bufIn.chunks).length)
    (hmaxIn : (content bufIn.chunks).length ≤ bufMaxLen)
    (hmaxOut : (content bufOut.chunks).length + len ≤ bufMaxLen) :
    ∃ bufOut' bufIn', moveLoop bufOut bufIn len = some (bufOut', bufIn') ∧ Ok bufOut' ∧ Ok bufIn' ∧
      content bufOut'.chunks = content bufOut.chunks ++ (content bufIn.chunks).take len ∧
      content bufIn'.chunks = (content bufIn.chunks).drop len := by
  induction len using Nat.strong_induction_on generalizing bufOut bufIn with
  | _ len ih =>
    rw [moveLoop]
    by_cases hzero : len = 0
    · subst hzero
      exact ⟨bufOut, bufIn, by rw [dif_pos rfl], hout, hin, by simp, by simp⟩
    · rw [dif_neg hzero]
      obtain ⟨in₁, hget, hok, hdrop⟩ := bufGetBytes_spec hin hmaxIn
        (n := min len 4096) (by omega)
      have htake : ((content bufIn.chunks).take (min len 4096)).length = min len 4096 := by
        rw [List.length_take]
        omega
      obtain ⟨out₁, hadd, hokOut, happend⟩ := bufAdd_spec hout
        (s := (content bufIn.chunks).take (min len 4096)) (by omega)
      have hleft : (content in₁.chunks).length = (content bufIn.chunks).length - min len 4096 := by
        rw [hdrop, List.length_drop]
      have hgot : (content out₁.chunks).length = (content bufOut.chunks).length + min len 4096 := by
        rw [happend, List.length_append, htake]
      obtain ⟨out₂, in₂, hmove, hok₂, hokIn₂, hcontent₂, hdrop₂⟩ := ih (len - min len 4096)
        (by omega) hokOut hok (by omega) (by omega) (by omega)
      refine ⟨out₂, in₂, ?_, hok₂, hokIn₂, ?_, ?_⟩
      · simp only [hget, hadd, Option.bind_eq_bind, Option.bind_some, hmove]
      · rw [hcontent₂, happend, hdrop, List.append_assoc, ← List.take_add]
        congr 2
        omega
      · rw [hdrop₂, hdrop, List.drop_drop]
        congr 1
        omega

theorem bufMoveToBuf_spec {bufOut bufIn : Buf} {flushlen : ℕ} (hout : Ok bufOut) (hin : Ok bufIn)
    (hmaxIn : (content bufIn.chunks).length ≤ bufMaxLen)
    (hmaxOut : (content bufOut.chunks).length + flushlen ≤ bufMaxLen) :
    let cp := min flushlen (content bufIn.chunks).length
    ∃ bufOut' bufIn', bufMoveToBuf bufOut bufIn flushlen =
        some (↑cp, flushlen - cp, bufOut', bufIn') ∧ Ok bufOut' ∧ Ok bufIn' ∧
      content bufOut'.chunks = content bufOut.chunks ++ (content bufIn.chunks).take cp ∧
      content bufIn'.chunks = (content bufIn.chunks).drop cp := by
  intro cp
  obtain ⟨out', in', hmove, hok, hokIn, hcontent, hdrop⟩ := @moveLoop_spec cp _ _ hout hin
    (Nat.min_le_right _ _) hmaxIn (by omega)
  refine ⟨out', in', ?_, hok, hokIn, hcontent, hdrop⟩
  have hcp : min flushlen bufIn.datalen = cp := by rw [hin.length]
  rw [bufMoveToBuf, hout.length, if_neg (by omega), if_neg (by omega), hcp]
  simp only [if_pos (show cp ≤ bufMaxLen by omega), hmove, Option.map_some]

theorem bufMoveAll_spec {bufOut bufIn : Buf} (hout : Ok bufOut) (hin : Ok bufIn)
    (hmax : (content bufOut.chunks).length + (content bufIn.chunks).length ≤ bufMaxLen)
    (htail : (content bufIn.chunks) = [] ∨ ∀ c ∈ bufOut.chunks, c.data ≠ []) :
    ∃ bufOut' bufIn', bufMoveAll bufOut bufIn =
        ((content bufIn.chunks).length, bufOut', bufIn') ∧ Ok bufOut' ∧ Ok bufIn' ∧
      content bufOut'.chunks = content bufOut.chunks ++ content bufIn.chunks ∧
      content bufIn'.chunks = [] := by
  rw [bufMoveAll, hin.length, hout.length]
  by_cases hempty : content bufIn.chunks = []
  · rw [if_pos (by rw [hempty]; rfl)]
    refine ⟨bufOut, bufIn, by rw [hempty]; rfl, hout, hin, ?_, hempty⟩
    rw [hempty, List.append_nil]
  · have hpos := List.length_pos_iff.mpr hempty
    rw [if_neg (by omega), if_neg (by omega), if_neg (by omega)]
    refine ⟨_, _, rfl, ⟨?_, ?_⟩, ⟨rfl, .nil⟩, content_append _ _, rfl⟩
    · show _ = (content (bufOut.chunks ++ bufIn.chunks)).length
      rw [content_append, List.length_append]
    · exact hout.chunks.append hin.chunks (htail.resolve_left hempty)

theorem bufCopy_spec (buf : Buf) : bufCopy buf = buf := by
  have hid : chunkCopy = id := rfl
  rw [bufCopy, hid, List.map_id]

theorem readLoop_spec {atMost : ℕ} {incoming : List Bytes} {buf : Buf} {totalRead : ℕ} (h : Ok buf)
    (htotal : totalRead ≤ atMost) (hmost : atMost ≤ bufMaxLen) :
    ∃ read buf', readLoop atMost buf totalRead incoming = some (read, buf') ∧ Ok buf' ∧
      content buf'.chunks = content buf.chunks ++ read ∧ totalRead + read.length ≤ atMost ∧
      (incoming = [] → read = []) := by
  induction incoming generalizing buf totalRead with
  | nil =>
    rw [readLoop]
    split_ifs
    · obtain ⟨hok, hcontent⟩ := h.ensureRoom 8 le_rfl atMost
      exact ⟨[], _, rfl, hok, by rw [hcontent, List.append_nil], htotal, fun _ => rfl⟩
    · exact ⟨[], buf, rfl, h, (List.append_nil _).symm, htotal, fun _ => rfl⟩
  | cons s incoming ih =>
    rw [readLoop]
    by_cases hlt : totalRead < atMost
    swap
    · rw [if_neg hlt]
      exact ⟨[], buf, rfl, h, (List.append_nil _).symm, htotal, fun _ => rfl⟩
    rw [if_pos hlt]
    obtain ⟨hok, hcontent⟩ := h.ensureRoom 8 le_rfl atMost
    have hslack := le_bufSlack_ensureRoom buf 8 atMost le_rfl
    obtain ⟨hwritten, hadded⟩ := hok.writeTail
      (s.take (min (atMost - totalRead) (bufSlack (ensureRoom buf 8 atMost)))) (by omega)
      (by rw [List.length_take]; omega)
    have hread : (s.take (min (atMost - totalRead) (bufSlack (ensureRoom buf 8 atMost)))).length ≤
        atMost - totalRead := by
      rw [List.length_take]
      omega
    simp only
    generalize s.take (min (atMost - totalRead) (bufSlack (ensureRoom buf 8 atMost))) = read at *
    rw [if_neg (by omega)]
    split_ifs
    · exact ⟨read, _, rfl, hwritten, by rw [hadded, hcontent], by omega,
        fun hnil => hnil.elim⟩
    · have htotal' : totalRead + read.length ≤ atMost := by omega
      obtain ⟨more, buf', hmore, hok', hcontent', hle, _⟩ := ih hwritten htotal'
      refine ⟨read ++ more, buf', by rw [hmore, Option.map_some], hok', ?_, ?_,
        fun hnil => hnil.elim⟩
      · rw [hcontent', hadded, hcontent, List.append_assoc]
      · rw [List.length_append]
        omega

theorem bufReadFromFd_spec {buf : Buf} (h : Ok buf) {atMost : ℕ}
    (hmax : (content buf.chunks).length + atMost ≤ bufMaxLen) (incoming : List Bytes) :
    ∃ read buf', bufReadFromFd buf atMost incoming = some (some read, buf') ∧ Ok buf' ∧
      content buf'.chunks = content buf.chunks ++ read ∧ read.length ≤ atMost ∧
      (incoming = [] → read = []) := by
  have hmost : atMost ≤ bufMaxLen := by omega
  obtain ⟨read, buf', hread, hok, hcontent, hle, hnothing⟩ :=
    @readLoop_spec atMost incoming buf 0 h (Nat.zero_le _) hmost
  refine ⟨read, buf', ?_, hok, hcontent, by omega, hnothing⟩
  rw [bufReadFromFd, maxLenMinus_eq (by omega), h.length, if_neg (by omega), hread, Option.map_some]

end Buffers
