/-
Fetching an HTTP message from a buffer (`core/proto/proto_http.c`).

A message ends `Content-Length` bytes behind the first blank line.  What is tested against the limit
for the body is all that has arrived behind the blank line.
-/
import LibEltor.BufFind
import LibEltor.Protover

open Bytes Buffers ListSearch Protover Smartlist Transition

namespace ProtoHttp

def intMax : ℕ := 2 ^ 31 - 1

def contentLength : Bytes := [13, 10] ++ ascii "Content-Length: "

def torStrisspace (s : Bytes) : Bool := s.all torIsspace

/-- The value returned and `*result_out`. -/
def bufHttpFindContentLength (headers : Bytes) : ℤ × ℕ :=
  match memmem contentLength headers with
  | none => (0, 0)
  | some p =>
    let rest := headers.drop (p + contentLength.length)
    if 10 ∈ rest then
      let lenStr := cstr (rest.takeWhile (· ≠ 10))
      match torParseUlong lenStr 0 intMax with
      | some (result, eos) => if torStrisspace eos then (1, result) else (-1, 0)
      | none => (-1, 0)
    else (-1, 0)

/-- The arguments, apart from the buffer; whether there is room for the headers and for the body. -/
structure FetchArgs where
  headersOut : Bool
  maxHeaderlen : ℕ
  bodyOut : Bool
  maxBodylen : ℕ
  forceComplete : Bool

structure FetchResult where
  rv : ℤ
  headers : Option Bytes
  body : Option Bytes
  buf : Buf

/-- A `size_t` as an `int`. -/
def toInt (n : ℕ) : ℤ := (n : ℤ).bmod (2 ^ 32)

/-- Copying out: the bytes and what is left, or nothing where they are not asked for. -/
def takeOut (wanted : Bool) (buf : Buf) (len : ℕ) : Option (Option Bytes × Buf) :=
  if wanted then (bufGetBytes buf len).map fun (s, buf) => (some s, buf) else some (none, buf)

/-- None where an assertion fails; `mem` is what the memory behind the data of the chunks holds. -/
def fetchFromBufHttp (mem : ℕ → ℕ → UInt8) (buf : Buf) (args : FetchArgs) : Option FetchResult :=
  if buf.datalen = 0 then some ⟨0, none, none, buf⟩
  else do
    let crlfOffset ← bufFindStringOffset mem buf blankLine
    if crlfOffset > toInt args.maxHeaderlen ∨
        (crlfOffset < 0 ∧ buf.datalen > args.maxHeaderlen) then
      some ⟨-1, none, none, buf⟩
    else if crlfOffset < 0 then some ⟨0, none, none, buf⟩
    else
      let headerlen := (crlfOffset + 4).toNat
      let (headers, buf) ← bufPullup buf headerlen
      let bodylen := (buf.datalen + 2 ^ 64 - headerlen) % 2 ^ 64
      if args.maxHeaderlen ≤ headerlen then some ⟨-1, none, none, buf⟩
      else if args.maxBodylen ≤ bodylen then some ⟨-1, none, none, buf⟩
      else
        let (r, contentlen) := bufHttpFindContentLength (headers.take headerlen)
        if r = -1 then some ⟨-1, none, none, buf⟩
        else if r = 1 ∧ bodylen < contentlen ∧ ¬ args.forceComplete then
          some ⟨0, none, none, buf⟩
        else
          let bodylen := if r = 1 ∧ bodylen > contentlen then contentlen else bodylen
          let (headers, buf) ← takeOut args.headersOut buf headerlen
          let (body, buf) ← takeOut args.bodyOut buf bodylen
          some ⟨1, headers, body, buf⟩

/-! ### The message -/

/-- The stream begins with headers up to the first blank line, whose `Content-Length` is well-formed,
and a body. -/
structure Message (stream : Bytes) (headerlen contentlen : ℕ) : Prop where
  blank : memmem blankLine stream = some (headerlen - 4)
  four : 4 ≤ headerlen
  wellFormed : bufHttpFindContentLength (stream.take headerlen) = (1, contentlen)

/-- What is asked of a fetch: both parts are wanted, the search for the blank line is undisturbed, the
headers are below their limit, and so is what has arrived behind them. -/
structure FetchOk (args : FetchArgs) (headerlen : ℕ) (mem : ℕ → ℕ → UInt8) (buf : Buf) : Prop where
  headersOut : args.headersOut = true
  bodyOut : args.bodyOut = true
  undisturbed : Undisturbed (load mem buf.chunks) blankLine
  int : args.maxHeaderlen ≤ intMax
  header : headerlen < args.maxHeaderlen
  body : (content buf.chunks).length < headerlen + args.maxBodylen

theorem firstOffset_of_prefix {stream arrived : Bytes} {headerlen : ℕ}
    (h : memmem blankLine stream = some (headerlen - 4)) (hfour : 4 ≤ headerlen)
    (harrived : arrived <+: stream) :
    firstOffset blankLine arrived = if headerlen ≤ arrived.length then ((headerlen - 4 : ℕ) : ℤ)
      else -1 := by
  obtain ⟨hpre, hmin⟩ := (memmem_eq_some (by decide)).mp h
  obtain ⟨behind, rfl⟩ := harrived
  have hocc : ∀ j, blankLine <+: arrived.drop j → j + 4 ≤ arrived.length ∧
      blankLine <+: (arrived ++ behind).drop j := by
    intro j hj
    have hle := hj.length_le
    rw [List.length_drop] at hle
    change 4 ≤ _ at hle
    refine ⟨by omega, ?_⟩
    rw [List.drop_append_of_le_length (by omega)]
    exact hj.trans (List.prefix_append _ _)
  rw [firstOffset]
  by_cases hle : headerlen ≤ arrived.length
  · rw [if_pos hle]
    have hfound : memmem blankLine arrived = some (headerlen - 4) := by
      refine (memmem_eq_some (by decide)).mpr ⟨?_, fun j hj hocc' => hmin j hj (hocc j hocc').2⟩
      rw [List.drop_append_of_le_length (by omega)] at hpre
      refine List.prefix_of_prefix_length_le hpre (List.prefix_append _ _) ?_
      rw [List.length_drop]
      show 4 ≤ _
      omega
    rw [hfound]
  · rw [if_neg hle]
    have hnone : memmem blankLine arrived = none := by
      refine (memmem_eq_none (by decide)).mpr fun j hj => ?_
      obtain ⟨hin, hj'⟩ := hocc j hj
      exact hmin j (by omega) hj'
    rw [hnone]

theorem toInt_eq {n : ℕ} (h : n ≤ intMax) : toInt n = n := by
  rw [intMax] at h
  exact Int.bmod_eq_of_le (by omega) (by omega)

def Expected (stream : Bytes) (headerlen contentlen : ℕ) (arrived : Bytes) (r : FetchResult) : Prop :=
  if headerlen + contentlen ≤ arrived.length then
    r.rv = 1 ∧ r.headers = some (stream.take headerlen) ∧
      r.body = some ((stream.drop headerlen).take contentlen) ∧
      content r.buf.chunks = arrived.drop (headerlen + contentlen)
  else r.rv = 0 ∧ r.headers = none ∧ r.body = none ∧ content r.buf.chunks = arrived

variable {stream : Bytes} {headerlen contentlen : ℕ} {args : FetchArgs} {mem : ℕ → ℕ → UInt8}
  {buf : Buf}

theorem bufGetBytes_two {n k : ℕ} (hok : Ok buf) (hmax : (content buf.chunks).length ≤ bufMaxLen)
    (hwhole : n + k ≤ (content buf.chunks).length) : ∃ buf₁ buf₂,
      bufGetBytes buf n = some ((content buf.chunks).take n, buf₁) ∧
      bufGetBytes buf₁ k = some (((content buf.chunks).drop n).take k, buf₂) ∧
      Ok buf₂ ∧ content buf₂.chunks = (content buf.chunks).drop (n + k) := by
  obtain ⟨buf₁, hget₁, hok₁, hcontent₁⟩ := bufGetBytes_spec hok (n := n) hmax (by omega)
  obtain ⟨buf₂, hget₂, hok₂, hcontent₂⟩ := bufGetBytes_spec hok₁ (n := k)
    (by rw [hcontent₁, List.length_drop]; omega) (by rw [hcontent₁, List.length_drop]; omega)
  rw [hcontent₁] at hget₂ hcontent₂
  rw [List.drop_drop] at hcontent₂
  exact ⟨buf₁, buf₂, hget₁, hget₂, hok₂, hcontent₂⟩

theorem parts_of_prefix {arrived : Bytes} {n k : ℕ} (h : arrived <+: stream)
    (hwhole : n + k ≤ arrived.length) :
    arrived.take n = stream.take n ∧ (arrived.drop n).take k = (stream.drop n).take k := by
  rw [List.prefix_iff_eq_take.mp h, List.take_drop, List.take_drop, List.take_take, List.take_take,
    Nat.min_eq_left (by omega), Nat.min_eq_left hwhole]
  exact ⟨rfl, rfl⟩

theorem fetchFromBufHttp_eq (hmessage : Message stream headerlen contentlen)
    (hforce : args.forceComplete = false) (hok : Ok buf)
    (hmax : (content buf.chunks).length ≤ bufMaxLen) (harrived : content buf.chunks <+: stream)
    (h : FetchOk args headerlen mem buf) :
    ∃ r, fetchFromBufHttp mem buf args = some r ∧ Ok r.buf ∧
      Expected stream headerlen contentlen (content buf.chunks) r := by
  obtain ⟨hblank, hfour, hwell⟩ := hmessage
  have hdatalen := hok.length
  have hbytes := bytes_load mem buf.chunks
  have hfirst := firstOffset_of_prefix hblank hfour harrived
  have hsearch : bufFindStringOffset mem buf blankLine =
      some (firstOffset blankLine (content buf.chunks)) := by
    rw [bufFindStringOffset_eq_scan hdatalen (by omega) (by decide), ← hbytes]
    exact (scan_eq_firstOffset (by rw [hbytes]; exact hmax) (by decide)).mpr h.undisturbed
  have hheader := h.header
  have hbody := h.body
  have hint := toInt_eq h.int
  rw [fetchFromBufHttp]
  by_cases hempty : buf.datalen = 0
  · rw [if_pos hempty]
    refine ⟨_, rfl, hok, ?_⟩
    rw [Expected, if_neg (by omega)]
    exact ⟨rfl, rfl, rfl, rfl⟩
  rw [if_neg hempty, hsearch, hfirst]
  by_cases hhere : headerlen ≤ (content buf.chunks).length
  · -- the headers are there
    obtain ⟨head, buf₁, hpull, hok₁, hcontent₁, hpre, hlen⟩ := bufPullup_spec hok headerlen
    have hdatalen₁ : buf₁.datalen = (content buf.chunks).length := by rw [hok₁.length, hcontent₁]
    have hheaders : head.take headerlen = stream.take headerlen := by
      have htake := List.prefix_iff_eq_take.mp (hpre.trans harrived)
      rw [htake, List.take_take, Nat.min_eq_left (by omega)]
    have hbodylen : (buf₁.datalen + 2 ^ 64 - headerlen) % 2 ^ 64 =
        (content buf.chunks).length - headerlen := by
      rw [hdatalen₁]
      rw [bufMaxLen] at hmax
      omega
    have hoffset : ((headerlen - 4 : ℕ) : ℤ) + 4 = headerlen := by omega
    rw [if_pos hhere]
    simp only [Option.bind_eq_bind, Option.bind_some, hint, hoffset, Int.toNat_natCast, hpull,
      hbodylen, hheaders, hwell]
    rw [if_neg (by omega), if_neg (by omega), if_neg (by omega), if_neg (by omega),
      if_neg (by decide)]
    by_cases hwhole : headerlen + contentlen ≤ (content buf.chunks).length
    · -- and so is the body; what is behind it is left
      have hlenbody : (if True ∧ (content buf.chunks).length - headerlen > contentlen then contentlen
          else (content buf.chunks).length - headerlen) = contentlen := by
        by_cases hmore : (content buf.chunks).length - headerlen > contentlen
        · rw [if_pos ⟨trivial, hmore⟩]
        · rw [if_neg (fun h => hmore h.2)]
          omega
      obtain ⟨buf₂, buf₃, hget₂, hget₃, hok₃, hcontent₃⟩ := bufGetBytes_two hok₁ (k := contentlen)
        (by rw [hcontent₁]; exact hmax) (by rw [hcontent₁]; exact hwhole)
      rw [hcontent₁] at hget₂ hget₃ hcontent₃
      obtain ⟨htake, htake'⟩ := parts_of_prefix harrived hwhole
      rw [if_neg (by omega)]
      simp only [hlenbody, takeOut, h.headersOut, h.bodyOut, if_true, hget₂, hget₃, Option.map_some,
        Option.bind_some]
      refine ⟨_, rfl, hok₃, ?_⟩
      rw [Expected, if_pos hwhole, htake, htake']
      exact ⟨rfl, rfl, rfl, hcontent₃⟩
    · rw [if_pos ⟨trivial, by omega, by rw [hforce]; decide⟩]
      refine ⟨_, rfl, hok₁, ?_⟩
      rw [Expected, if_neg hwhole]
      exact ⟨rfl, rfl, rfl, hcontent₁⟩
  · rw [if_neg hhere]
    obtain ⟨behind, hbehind⟩ := harrived
    simp only [Option.bind_eq_bind, Option.bind_some, hint]
    rw [if_neg (by omega), if_pos (by decide)]
    refine ⟨_, rfl, hok, ?_⟩
    rw [Expected, if_neg (by omega)]
    exact ⟨rfl, rfl, rfl, rfl⟩

theorem fetchFromBufHttp_failed {r : FetchResult} (h : fetchFromBufHttp mem buf args = some r)
    (hrv : r.rv = -1) : content r.buf.chunks = content buf.chunks := by
  rw [fetchFromBufHttp] at h
  by_cases hempty : buf.datalen = 0
  · rw [if_pos hempty] at h
    cases h
    rfl
  rw [if_neg hempty] at h
  obtain ⟨crlfOffset, -, h⟩ := Option.bind_eq_some_iff.mp h
  by_cases hlong : crlfOffset > toInt args.maxHeaderlen ∨
      (crlfOffset < 0 ∧ buf.datalen > args.maxHeaderlen)
  · rw [if_pos hlong] at h
    cases h
    rfl
  rw [if_neg hlong] at h
  by_cases hwait : crlfOffset < 0
  · rw [if_pos hwait] at h
    cases h
    rfl
  rw [if_neg hwait] at h
  obtain ⟨⟨head, buf₁⟩, hpull, h⟩ := Option.bind_eq_some_iff.mp h
  have hsame := (bufPullup_same hpull).2
  dsimp only at h
  by_cases hheader : args.maxHeaderlen ≤ (crlfOffset + 4).toNat
  · rw [if_pos hheader] at h
    cases h
    exact hsame
  rw [if_neg hheader] at h
  by_cases hbody : args.maxBodylen ≤ (buf₁.datalen + 2 ^ 64 - (crlfOffset + 4).toNat) % 2 ^ 64
  · rw [if_pos hbody] at h
    cases h
    exact hsame
  rw [if_neg hbody] at h
  generalize bufHttpFindContentLength (head.take (crlfOffset + 4).toNat) = found at h
  by_cases hbogus : found.1 = -1
  · rw [if_pos hbogus] at h
    cases h
    exact hsame
  rw [if_neg hbogus] at h
  split at h
  · cases h
    exact hsame
  · -- what is taken out is returned with 1
    obtain ⟨⟨headers, buf₂⟩, -, h⟩ := Option.bind_eq_some_iff.mp h
    obtain ⟨⟨body, buf₃⟩, -, h⟩ := Option.bind_eq_some_iff.mp h
    cases h
    change (1 : ℤ) = -1 at hrv
    exact absurd hrv (by decide)

/-- The socket has something, or nothing, to read; and a fetch. -/
inductive Event
  | arrive (atMost : ℕ) (incoming : List Bytes)
  | fetch (mem : ℕ → ℕ → UInt8)

/-- What arrives are the bytes of the stream, and a fetch is followed by others as long as it returns
0. -/
def system (stream : Bytes) (args : FetchArgs) : System Buf Event where
  init buf := Ok buf ∧ content buf.chunks = []
  step buf event buf' :=
    match event with
    | .arrive atMost incoming =>
      (content buf.chunks).length + atMost ≤ bufMaxLen ∧
        (∃ read, bufReadFromFd buf atMost incoming = some (some read, buf')) ∧
        content buf'.chunks <+: stream
    | .fetch mem => ∃ r, fetchFromBufHttp mem buf args = some r ∧ r.rv = 0 ∧ r.buf = buf'

def FetchesOk (args : FetchArgs) (headerlen : ℕ) (buf : Buf) : Event → Prop
  | .arrive _ _ => True
  | .fetch mem => FetchOk args headerlen mem buf

structure Arrived (stream : Bytes) (buf : Buf) : Prop where
  ok : Ok buf
  short : (content buf.chunks).length ≤ bufMaxLen
  isPrefix : content buf.chunks <+: stream

theorem arrived_inductive (hmessage : Message stream headerlen contentlen)
    (hforce : args.forceComplete = false) :
    Inductive (system stream args) (FetchesOk args headerlen) (Arrived stream) where
  init buf hinit := by
    obtain ⟨hok, hempty⟩ := hinit
    exact ⟨hok, by rw [hempty]; exact Nat.zero_le _, by rw [hempty]; exact List.nil_prefix⟩
  step buf event buf' h hmeets hstep := by
    cases event with
    | arrive atMost incoming =>
      obtain ⟨hroom, ⟨read, hread⟩, hprefix⟩ := hstep
      obtain ⟨read', buf'', hread', hok, hcontent, hlen, -⟩ := bufReadFromFd_spec h.ok hroom incoming
      cases hread.symm.trans hread'
      refine ⟨hok, ?_, hprefix⟩
      rw [hcontent, List.length_append]
      omega
    | fetch mem =>
      obtain ⟨r, hfetch, hrv, rfl⟩ := hstep
      obtain ⟨r', hfetch', hok, hexpected⟩ := fetchFromBufHttp_eq hmessage hforce h.ok h.short
        h.isPrefix hmeets
      cases hfetch.symm.trans hfetch'
      rw [Expected] at hexpected
      by_cases hwhole : headerlen + contentlen ≤ (content buf.chunks).length
      · rw [if_pos hwhole, hrv] at hexpected
        exact absurd hexpected.1 (by decide)
      · rw [if_neg hwhole] at hexpected
        obtain ⟨-, -, -, hsame⟩ := hexpected
        exact ⟨hok, by rw [hsame]; exact h.short, by rw [hsame]; exact h.isPrefix⟩

/-- In every run all fetches of which meet what is asked of them, the next one that does so too gives
nothing before the whole message has arrived, and then the message, and leaves the rest.  No fetch at
all takes anything when it fails. -/
theorem fetchFromBufHttp_arrivals (hmessage : Message stream headerlen contentlen)
    (hforce : args.forceComplete = false)
    (hr : Reached (system stream args) (FetchesOk args headerlen) buf)
    (h : FetchOk args headerlen mem buf) :
    (∃ r, fetchFromBufHttp mem buf args = some r ∧
      Expected stream headerlen contentlen (content buf.chunks) r) ∧
      ∀ mem buf args r, fetchFromBufHttp mem buf args = some r → r.rv = -1 →
        content r.buf.chunks = content buf.chunks := by
  obtain ⟨hok, hshort, hprefix⟩ := hr.invariant (arrived_inductive hmessage hforce)
  obtain ⟨r, hfetch, -, hexpected⟩ := fetchFromBufHttp_eq hmessage hforce hok hshort hprefix h
  exact ⟨⟨r, hfetch, hexpected⟩, fun _ _ _ _ hfetched hrv => fetchFromBufHttp_failed hfetched hrv⟩

/-! ### An example -/

def exampleHeaders : Bytes := ascii "HTTP/1.0 200 OK\r\nContent-Length: 2\r\n\r\n"

def exampleArgs : FetchArgs := ⟨true, 64, true, 4, false⟩

def exampleStream : Bytes := exampleHeaders ++ ascii "ab"

def longerStream : Bytes := exampleStream ++ ascii "more"

theorem exampleStream_message : Message exampleStream 38 2 :=
  ⟨by decide +kernel, by decide, by decide +kernel⟩

/-- A buffer that has read `s` at once. -/
def bufWith (s : Bytes) : Buf := { bufNew with datalen := s.length, chunks := [⟨4056, 0, s⟩] }

theorem bufWith_reached {ok : Buf → Event → Prop}
    (hok : ∀ buf atMost incoming, ok buf (.arrive atMost incoming)) {s : Bytes}
    (hlen : s.length < 200) : Reached (system s exampleArgs) ok (bufWith s) := by
  have hstart : (system s exampleArgs).init bufNew := ⟨⟨rfl, .nil⟩, rfl⟩
  have hcontent : content (bufWith s).chunks = s := List.append_nil s
  have hread : bufReadFromFd bufNew 200 [s] = some (some s, bufWith s) := by
    have hempty : ensureRoom bufNew 8 200 = { bufNew with chunks := [⟨4056, 0, []⟩] } := rfl
    have htake : s.take (min (200 - 0) 4056) = s := List.take_of_length_le (by omega)
    have hslack : bufSlack { bufNew with chunks := [⟨4056, 0, []⟩] } = 4056 := rfl
    rw [bufReadFromFd, if_neg (by decide), readLoop, if_pos (by decide)]
    simp only [hempty, hslack, htake]
    rw [if_neg (by rw [bufMaxLen]; omega), if_pos (by omega), Option.map_some]
    show some (some s, writeTail _ s) = _
    have hwritten : writeTail { bufNew with chunks := [⟨4056, 0, []⟩] } s =
        { bufNew with datalen := 0 + s.length, chunks := [⟨4056, 0, s⟩] } := rfl
    rw [hwritten, Nat.zero_add]
    rfl
  exact .step (.init hstart) (hok bufNew 200 [s])
    ⟨by decide, ⟨s, hread⟩, by rw [hcontent]⟩

/-- The message is returned when it has arrived. -/
theorem fetchFromBufHttp_arrivals_once : ∃ r,
    fetchFromBufHttp (fun _ _ => 0) (bufWith exampleStream) exampleArgs = some r ∧ r.rv = 1 ∧
      r.headers = some exampleHeaders ∧ r.body = some (ascii "ab") ∧ content r.buf.chunks = [] := by
  have hfull : ∀ c ∈ load (fun _ _ => 0) (bufWith exampleStream).chunks, c.data ≠ [] := by
    intro c hc
    obtain rfl := List.mem_singleton.mp hc
    decide
  have hmeets : FetchOk exampleArgs 38 (fun _ _ => 0) (bufWith exampleStream) :=
    ⟨rfl, rfl, undisturbed_of_full hfull (by decide), by decide, by decide, by decide⟩
  obtain ⟨⟨r, hfetch, hexpected⟩, -⟩ := fetchFromBufHttp_arrivals exampleStream_message rfl
    (bufWith_reached (fun _ _ _ => trivial) (by decide)) hmeets
  rw [Expected, if_pos (by decide)] at hexpected
  obtain ⟨hrv, hheaders, hbody, hcontent⟩ := hexpected
  exact ⟨r, hfetch, hrv, hheaders, hbody, hcontent⟩

/-- Headers and body are below the limits; with what is behind the body the fetch fails. -/
theorem fetchFromBufHttp_following : ∃ buf,
    Message longerStream 38 2 ∧ 38 < exampleArgs.maxHeaderlen ∧ 2 < exampleArgs.maxBodylen ∧
      Reached (system longerStream exampleArgs) (fun _ _ => True) buf ∧
      38 + 2 ≤ (content buf.chunks).length ∧
      ∃ r, fetchFromBufHttp (fun _ _ => 0) buf exampleArgs = some r ∧ r.rv = -1 := by
  refine ⟨bufWith longerStream, ⟨by decide +kernel, by decide, by decide +kernel⟩, by decide,
    by decide, bufWith_reached (fun _ _ _ => trivial) (by decide), by decide, ?_⟩
  have hrv : (fetchFromBufHttp (fun _ _ => 0) (bufWith longerStream) exampleArgs).map
      FetchResult.rv = some (-1) := by
    decide +kernel
  obtain ⟨r, hfetch, hr⟩ := Option.map_eq_some_iff.mp hrv
  exact ⟨r, hfetch, hr⟩

end ProtoHttp
