/-
A buffer is a first-in first-out string of bytes, over runs of operations on any number of buffers.

Each run is followed by the strings that the buffers should hold (`specAfter`).  The buffers hold
them, and no operation fails, as long as no chunks are moved behind an empty tail (`buf_fifo`).
Such a tail is left by a read that returned nothing, and after `buf_move_all` it is a chunk without
data that is not the tail (`empty_chunk_inside`).
-/
import LibEltor.Buffers
import LibEltor.Transition

open Bytes Transition

namespace Buffers

variable {ι : Type*} [DecidableEq ι]

/-- The operations, on buffers with names in `ι`. -/
inductive Op (ι : Type*)
  | add (i : ι) (s : Bytes)
  | getBytes (i : ι) (n : ℕ)
  | drain (i : ι) (n : ℕ)
  | pullup (i : ι) (bytes : ℕ)
  | moveToBuf (bufOut bufIn : ι) (flushlen : ℕ)
  | moveAll (bufOut bufIn : ι)
  | copy (i k : ι)
  | read (i : ι) (atMost : ℕ) (incoming : List Bytes)

/-- What an operation gives back: a number, the new `*buf_flushlen`, and bytes. -/
structure Outcome where
  value : ℤ
  flushlen : ℕ
  bytes : Bytes

def perform (bufs : ι → Buf) : Op ι → Option (Outcome × (ι → Buf))
  | .add i s =>
    (bufAdd (bufs i) s).map fun (value, buf) => (⟨value, 0, []⟩, Function.update bufs i buf)
  | .getBytes i n =>
    (bufGetBytes (bufs i) n).map fun (s, buf) => (⟨buf.datalen, 0, s⟩, Function.update bufs i buf)
  | .drain i n => (bufDrain (bufs i) n).map fun buf => (⟨0, 0, []⟩, Function.update bufs i buf)
  | .pullup i bytes =>
    (bufPullup (bufs i) bytes).map fun (head, buf) => (⟨0, 0, head⟩, Function.update bufs i buf)
  | .moveToBuf o i flushlen =>
    (bufMoveToBuf (bufs o) (bufs i) flushlen).map fun (value, flushlen, bufOut, bufIn) =>
      (⟨value, flushlen, []⟩, Function.update (Function.update bufs o bufOut) i bufIn)
  | .moveAll o i =>
    let (moved, bufOut, bufIn) := bufMoveAll (bufs o) (bufs i)
    some (⟨moved, 0, []⟩, Function.update (Function.update bufs o bufOut) i bufIn)
  | .copy i k => some (⟨0, 0, []⟩, Function.update bufs k (bufCopy (bufs i)))
  | .read i atMost incoming =>
    (bufReadFromFd (bufs i) atMost incoming).map fun (read, buf) =>
      (⟨(read.map fun s => (s.length : ℤ)).getD (-1), 0, read.getD []⟩,
        Function.update bufs i buf)

/-- What is asked of an operation: bytes that are there, and room within `BUF_MAX_LEN`. -/
def Allowed (spec : ι → Bytes) : Op ι → Prop
  | .add i s => (spec i).length + s.length ≤ bufMaxLen
  | .getBytes i n => n ≤ (spec i).length
  | .drain i n => n ≤ (spec i).length
  | .pullup _ _ => True
  | .moveToBuf o i flushlen =>
    o ≠ i ∧ (spec o).length + min flushlen (spec i).length ≤ bufMaxLen
  | .moveAll o i => o ≠ i ∧ (spec o).length + (spec i).length ≤ bufMaxLen
  | .copy _ _ => True
  | .read i atMost _ => (spec i).length + atMost ≤ bufMaxLen

def Expected (spec : ι → Bytes) (outcome : Outcome) : Op ι → Prop
  | .add i s => outcome = ⟨↑((spec i).length + s.length), 0, []⟩
  | .getBytes i n => outcome = ⟨↑((spec i).length - n), 0, (spec i).take n⟩
  | .drain _ _ => outcome = ⟨0, 0, []⟩
  | .pullup i bytes =>
    outcome.bytes.IsPrefix (spec i) ∧ min (spec i).length bytes ≤ outcome.bytes.length
  | .moveToBuf _ i flushlen =>
    outcome = ⟨↑(min flushlen (spec i).length), flushlen - min flushlen (spec i).length, []⟩
  | .moveAll _ i => outcome = ⟨(spec i).length, 0, []⟩
  | .copy _ _ => outcome = ⟨0, 0, []⟩
  | .read _ atMost incoming =>
    outcome.value = outcome.bytes.length ∧ outcome.bytes.length ≤ atMost ∧
      (incoming = [] → outcome.bytes = [])

/-- The strings after an operation; `read` are the bytes of a read. -/
def specAfter (spec : ι → Bytes) (read : Bytes) : Op ι → ι → Bytes
  | .add i s => Function.update spec i (spec i ++ s)
  | .getBytes i n => Function.update spec i ((spec i).drop n)
  | .drain i n => Function.update spec i ((spec i).drop n)
  | .pullup _ _ => spec
  | .moveToBuf o i flushlen =>
    let cp := min flushlen (spec i).length
    Function.update (Function.update spec o (spec o ++ (spec i).take cp)) i ((spec i).drop cp)
  | .moveAll o i => Function.update (Function.update spec o (spec o ++ spec i)) i []
  | .copy i k => Function.update spec k (spec i)
  | .read i _ _ => Function.update spec i (spec i ++ read)

structure State (ι : Type*) where
  bufs : ι → Buf
  spec : ι → Bytes

def system : System (State ι) (Op ι) where
  init s := ∀ i, (s.bufs i).chunks = [] ∧ (s.bufs i).datalen = 0 ∧ s.spec i = []
  step s op s' := Allowed s.spec op ∧ ∃ outcome,
    perform s.bufs op = some (outcome, s'.bufs) ∧ s'.spec = specAfter s.spec outcome.bytes op

/-- Chunks are moved behind a tail that has data, and no more than what would fit is asked for. -/
def Joins (s : State ι) : Op ι → Prop
  | .moveToBuf o _ flushlen => (s.bufs o).datalen + flushlen ≤ bufMaxLen
  | .moveAll o i =>
    (s.bufs i).datalen = 0 ∨ ∀ c, (s.bufs o).chunks.getLast? = some c → c.data ≠ []
  | _ => True

/-! ### The buffers hold the strings -/

structure Holds (buf : Buf) (s : Bytes) : Prop where
  ok : Ok buf
  content : content buf.chunks = s
  short : s.length ≤ bufMaxLen

theorem holds_update {bufs : ι → Buf} {spec : ι → Bytes} {i : ι} {buf : Buf} {t : Bytes}
    (h : ∀ j, Holds (bufs j) (spec j)) (hi : Holds buf t) (j : ι) :
    Holds (Function.update bufs i buf j) (Function.update spec i t j) := by
  by_cases hji : j = i
  · subst hji
    rw [Function.update_self, Function.update_self]
    exact hi
  · rw [Function.update_of_ne hji, Function.update_of_ne hji]
    exact h j

theorem ChunksOk.full_of_tail {l : List Chunk} (h : ChunksOk l)
    (htail : ∀ c, l.getLast? = some c → c.data ≠ []) : ∀ c ∈ l, c.data ≠ [] := by
  rcases List.eq_nil_or_concat l with hnil | ⟨front, c, hc⟩
  · rw [hnil]
    exact fun _ hx => absurd hx List.not_mem_nil
  · rw [List.concat_eq_append] at hc
    rw [hc] at h htail ⊢
    intro d hd
    rcases List.mem_append.mp hd with hd | hd
    · exact h.full d (by rwa [List.dropLast_concat])
    · obtain rfl := List.mem_singleton.mp hd
      exact htail d List.getLast?_concat

variable {s s' : State ι} {op : Op ι}

theorem perform_holds (h : ∀ i, Holds (s.bufs i) (s.spec i)) (hallowed : Allowed s.spec op)
    (hjoins : Joins s op) :
    ∃ outcome bufs, perform s.bufs op = some (outcome, bufs) ∧ Expected s.spec outcome op ∧
      ∀ i, Holds (bufs i) (specAfter s.spec outcome.bytes op i) := by
  cases op with
  | add i t =>
    have hi := h i
    obtain ⟨buf, hadd, hok, hcontent⟩ := bufAdd_spec hi.ok (s := t)
      (by rw [hi.content]; exact hallowed)
    rw [hi.content] at hadd hcontent
    refine ⟨_, _, by rw [perform, hadd, Option.map_some], rfl, holds_update h ⟨hok, hcontent, ?_⟩⟩
    rw [List.length_append]
    exact hallowed
  | getBytes i n =>
    have hi := h i
    obtain ⟨buf, hget, hok, hcontent⟩ := bufGetBytes_spec hi.ok
      (by rw [hi.content]; exact hi.short) (n := n) (by rw [hi.content]; exact hallowed)
    rw [hi.content] at hget hcontent
    have hlen : buf.datalen = (s.spec i).length - n := by
      rw [hok.length, hcontent, List.length_drop]
    refine ⟨_, _, by rw [perform, hget, Option.map_some], ?_, holds_update h ⟨hok, hcontent, ?_⟩⟩
    · show (⟨(buf.datalen : ℤ), 0, (s.spec i).take n⟩ : Outcome) = _
      rw [hlen]
    · rw [List.length_drop]
      exact (Nat.sub_le _ _).trans hi.short
  | drain i n =>
    have hi := h i
    obtain ⟨buf, hdrain, hok, hcontent⟩ := bufDrain_spec hi.ok (n := n)
      (by rw [hi.content]; exact hallowed)
    rw [hi.content] at hcontent
    refine ⟨_, _, by rw [perform, hdrain, Option.map_some], rfl, holds_update h ⟨hok, hcontent, ?_⟩⟩
    rw [List.length_drop]
    exact (Nat.sub_le _ _).trans hi.short
  | pullup i bytes =>
    have hi := h i
    obtain ⟨head, buf, hpull, hok, hcontent, hpre, hlen⟩ := bufPullup_spec hi.ok bytes
    rw [hi.content] at hcontent hpre hlen
    refine ⟨_, _, by rw [perform, hpull, Option.map_some], ⟨hpre, hlen⟩, fun j => ?_⟩
    have hupdate := holds_update h (i := i) ⟨hok, hcontent, hi.short⟩ j
    rwa [Function.update_eq_self] at hupdate
  | moveToBuf o i flushlen =>
    obtain ⟨hne, hroom⟩ := hallowed
    have hout := h o
    have hin := h i
    obtain ⟨bufOut, bufIn, hmove, hok, hokIn, hcontent, hdrop⟩ := @bufMoveToBuf_spec _ _ flushlen
      hout.ok hin.ok (by rw [hin.content]; exact hin.short)
      (by rw [← hout.ok.length]; exact hjoins)
    rw [hin.content] at hmove hcontent hdrop
    rw [hout.content] at hcontent
    refine ⟨_, _, by rw [perform, hmove, Option.map_some], rfl,
      holds_update (holds_update h ⟨hok, hcontent, ?_⟩) ⟨hokIn, hdrop, ?_⟩⟩
    · rw [List.length_append, List.length_take]
      omega
    · rw [List.length_drop]
      exact (Nat.sub_le _ _).trans hin.short
  | moveAll o i =>
    obtain ⟨hne, hroom⟩ := hallowed
    have hout := h o
    have hin := h i
    have htail : content (s.bufs i).chunks = [] ∨ ∀ c ∈ (s.bufs o).chunks, c.data ≠ [] := by
      refine hjoins.imp (fun hempty => ?_) fun htail => hout.ok.chunks.full_of_tail htail
      rw [hin.ok.length] at hempty
      exact List.length_eq_zero_iff.mp hempty
    obtain ⟨bufOut, bufIn, hmove, hok, hokIn, hcontent, hempty⟩ := bufMoveAll_spec hout.ok hin.ok
      (by rw [hout.content, hin.content]; exact hroom) htail
    rw [hin.content] at hmove hcontent
    rw [hout.content] at hcontent
    refine ⟨_, _, by rw [perform, hmove], rfl,
      holds_update (holds_update h ⟨hok, hcontent, ?_⟩) ⟨hokIn, hempty, Nat.zero_le _⟩⟩
    rw [List.length_append]
    exact hroom
  | copy i k =>
    refine ⟨_, _, rfl, rfl, holds_update h ?_⟩
    rw [bufCopy_spec]
    exact h i
  | read i atMost incoming =>
    have hi := h i
    obtain ⟨read, buf, hread, hok, hcontent, hlen, hnothing⟩ := @bufReadFromFd_spec _ hi.ok
      atMost (by rw [hi.content]; exact hallowed) incoming
    rw [hi.content] at hcontent
    refine ⟨_, _, by rw [perform, hread, Option.map_some], ⟨rfl, hlen, hnothing⟩,
      holds_update h ⟨hok, hcontent, ?_⟩⟩
    have hroom : (s.spec i).length + atMost ≤ bufMaxLen := hallowed
    show (s.spec i ++ read).length ≤ bufMaxLen
    rw [List.length_append]
    omega

theorem holds_inductive : Inductive (system (ι := ι)) Joins fun s =>
    ∀ i, Holds (s.bufs i) (s.spec i) where
  init s hs i := by
    obtain ⟨hchunks, hdatalen, hspec⟩ := hs i
    rw [hspec]
    refine ⟨⟨by rw [hchunks, hdatalen]; rfl, by rw [hchunks]; exact .nil⟩, by rw [hchunks]; rfl,
      Nat.zero_le _⟩
  step s op s' h hjoins hs := by
    obtain ⟨hallowed, outcome, hperform, hspec⟩ := hs
    obtain ⟨outcome', bufs, hperform', _, hholds⟩ := perform_holds h hallowed hjoins
    cases hperform.symm.trans hperform'
    rw [hspec]
    exact hholds

/-- In every state of such a run the buffers hold their strings, chunk by chunk with data in all but
the tail, and the next operation gives back what it should. -/
theorem buf_fifo (hr : Reached (system (ι := ι)) Joins s) :
    (∀ i, content (s.bufs i).chunks = s.spec i ∧ (s.bufs i).datalen = (s.spec i).length ∧
      (∀ c ∈ (s.bufs i).chunks.dropLast, c.data ≠ []) ∧
      ∀ c ∈ (s.bufs i).chunks, c.offset + c.data.length ≤ c.memlen) ∧
    ∀ op, Allowed s.spec op → Joins s op →
      ∃ outcome bufs, perform s.bufs op = some (outcome, bufs) ∧ Expected s.spec outcome op := by
  have hholds := hr.invariant holds_inductive
  refine ⟨fun i => ?_, fun op hallowed hjoins => ?_⟩
  · have hi := hholds i
    refine ⟨hi.content, ?_, hi.ok.chunks.full, fun c hc => (hi.ok.chunks.ok c hc).fits⟩
    rw [hi.ok.length, hi.content]
  · obtain ⟨outcome, bufs, hperform, hexpected, _⟩ := perform_holds hholds hallowed hjoins
    exact ⟨outcome, bufs, hperform, hexpected⟩

def bufNew : Buf := ⟨0, 4096, [], by decide⟩

def exampleStart : State ℕ := ⟨fun _ => bufNew, fun _ => []⟩

theorem exampleStart_init : (system (ι := ℕ)).init exampleStart := fun _ => ⟨rfl, rfl, rfl⟩

/-- Bytes that are added come out again. -/
theorem buf_fifo_hello : ∃ s : State ℕ, Reached (system (ι := ℕ)) Joins s ∧
    content (s.bufs 0).chunks = ascii "hello" ∧
      ∃ bufs, perform s.bufs (.getBytes 0 2) = some (⟨3, 0, ascii "he"⟩, bufs) := by
  have hroom : Allowed exampleStart.spec (.add 0 (ascii "hello")) :=
    (by decide : ([] : Bytes).length + (ascii "hello").length ≤ bufMaxLen)
  obtain ⟨outcome, bufs, hperform, _, _⟩ :=
    perform_holds (holds_inductive.init _ exampleStart_init) hroom trivial
  let s : State ℕ := ⟨bufs, Function.update exampleStart.spec 0 (ascii "hello")⟩
  have hs : Reached (system (ι := ℕ)) Joins s :=
    .step (a := .add 0 (ascii "hello")) (.init exampleStart_init) (by exact trivial)
      ⟨hroom, outcome, hperform, rfl⟩
  obtain ⟨hholds, hnext⟩ := buf_fifo hs
  obtain ⟨hcontent, _⟩ := hholds 0
  have hthere : Allowed s.spec (.getBytes 0 2) := (by decide : 2 ≤ (ascii "hello").length)
  obtain ⟨outcome', bufs', hget, hexpected⟩ := hnext (.getBytes 0 2) hthere trivial
  have houtcome : outcome' = ⟨3, 0, ascii "he"⟩ := hexpected
  rw [houtcome] at hget
  exact ⟨s, hs, hcontent, bufs', hget⟩

/-- A read that returns nothing leaves an empty tail, and the chunks of the other buffer are put
behind it. -/
theorem empty_chunk_inside : ∃ s : State ℕ,
    Reached (system (ι := ℕ)) (fun _ _ => True) s ∧
      ∃ c ∈ (s.bufs 0).chunks.dropLast, c.data = [] := by
  let empty : Chunk := ⟨4056, 0, []⟩
  let seven : Chunk := ⟨4056, 0, [7]⟩
  let s₁ : State ℕ := ⟨Function.update (fun _ => bufNew) 0 { bufNew with chunks := [empty] },
    Function.update (fun _ => []) 0 []⟩
  let s₂ : State ℕ :=
    ⟨Function.update s₁.bufs 1 { bufNew with chunks := [seven], datalen := 1 },
      Function.update s₁.spec 1 [7]⟩
  let s₃ : State ℕ :=
    ⟨Function.update (Function.update s₂.bufs 0
        { bufNew with chunks := [empty, seven], datalen := 1 }) 1 bufNew,
      Function.update (Function.update s₂.spec 0 [7]) 1 []⟩
  have h₁ : (system (ι := ℕ)).step exampleStart (.read 0 100 []) s₁ :=
    ⟨(by decide : 0 + 100 ≤ bufMaxLen), ⟨0, 0, []⟩, by rfl, rfl⟩
  have h₂ : (system (ι := ℕ)).step s₁ (.read 1 100 [[7]]) s₂ :=
    ⟨(by decide : 0 + 100 ≤ bufMaxLen), ⟨1, 0, [7]⟩, by rfl, rfl⟩
  have h₃ : (system (ι := ℕ)).step s₂ (.moveAll 0 1) s₃ :=
    ⟨⟨by decide, (by decide : 0 + 1 ≤ bufMaxLen)⟩, ⟨1, 0, []⟩, by rfl, rfl⟩
  have hs : Reached (system (ι := ℕ)) (fun _ _ => True) s₃ :=
    .step (.step (.step (.init exampleStart_init) trivial h₁) trivial h₂) trivial h₃
  exact ⟨s₃, hs, empty, List.mem_cons_self, rfl⟩

end Buffers
