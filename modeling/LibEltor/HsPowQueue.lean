/-
The queue of rendezvous requests of a service with proof of work (`hs_circuit.c`, `hs_service.c`).

A request with more effort comes first, and of the same effort the older one.  A queue that is too
long is trimmed: the best half of its room is moved to a new list, which shares the index field of
the requests with the old one.  A callback launches one request.  The world has beside the state
which requests were accepted, launched and discarded, and what the current period has seen.
-/
import LibEltor.PqueueCompare
import LibEltor.Word

open Transition Word PqueueCompare

namespace HsPowQueue

/-- `pending_rend_t`, known by when it was accepted; `idx` is in the queue. -/
structure PendingRend where
  number : ℕ
  powEffort : ℕ
  enqueuedTs : ℤ
deriving DecidableEq

def compareRendRequestByEffort (a b : PendingRend) : ℤ :=
  if b.powEffort < a.powEffort then -1
  else if a.powEffort = b.powEffort then
    if a.enqueuedTs < b.enqueuedTs then -1 else if b.enqueuedTs < a.enqueuedTs then 1 else 0
  else 1

def maxRendTimeout : ℕ := 30

def queuedRendRequestIsTooOld (req : PendingRend) (now : ℤ) : Bool :=
  decide (req.enqueuedTs + (maxRendTimeout / 2 : ℕ) < now)

structure PowServiceState where
  rendRequestPqueue : Pqueue PendingRend
  pqueueLowLevel : ℤ
  pqueueHighLevel : ℤ
  usingPqueueBucket : Bool
  suggestedEffort : ℕ
  maxTrimmedEffort : ℕ
  rendHandled : ℕ
  totalEffort : ℕ
  hadQueue : Bool

/-- `initialize_pow_defenses`, from the configured rate and burst of the queue. -/
def initializePowDefenses (rate burst : ℕ) : PowServiceState where
  rendRequestPqueue := ⟨fun _ => ⟨0, 0, 0⟩, 0, fun _ => -1⟩
  pqueueLowLevel := if 0 < rate ∧ rate ≤ burst then (max 8 (rate / 4) : ℕ) else 16
  pqueueHighLevel :=
    if 0 < rate ∧ rate ≤ burst then Int.bmod (burst + rate * maxRendTimeout * 2) (2 ^ 32) else 16384
  usingPqueueBucket := decide (0 < rate ∧ rate ≤ burst)
  suggestedEffort := 0
  maxTrimmedEffort := 0
  rendHandled := 0
  totalEffort := 0
  hadQueue := false

def topOfRendPqueueIsWorthwhile (s : PowServiceState) : Bool :=
  decide (s.suggestedEffort ≤ (s.rendRequestPqueue.list 0).powEffort)

/-! ### Trimming -/

structure Trimming where
  old : Pqueue PendingRend
  new : Pqueue PendingRend
  discarded : List PendingRend

/-- The loop of `trim_rend_pqueue`, with the length of the old list; the field `idx` that both lists
share is that of `old`. -/
def trimLoop (high now : ℤ) : ℕ → Trimming → Option Trimming
  | 0, t => some t
  | n + 1, t =>
    if (t.new.numUsed : ℤ) < high.tdiv 2 then
      (smartlistPqueuePop compareRendRequestByEffort t.old).bind fun (req, old) =>
        if queuedRendRequestIsTooOld req now then
          trimLoop high now n { t with old := old, discarded := t.discarded ++ [req] }
        else
          (smartlistPqueueAdd compareRendRequestByEffort req { t.new with idx := old.idx }).bind
            fun new => trimLoop high now n { t with old := { old with idx := new.idx }, new := new }
    else some t

def remaining (q : Pqueue PendingRend) : List PendingRend := (List.range q.numUsed).map q.list

def trimRendPqueue (s : PowServiceState) (now : ℤ) :
    Option (PowServiceState × List PendingRend) :=
  let old := s.rendRequestPqueue
  (trimLoop s.pqueueHighLevel now old.numUsed ⟨old, { old with numUsed := 0 }, []⟩).map fun t =>
    let discarded := t.discarded ++ remaining t.old
    ({ s with
        rendRequestPqueue := { t.new with idx := t.old.idx }
        maxTrimmedEffort := discarded.foldl (fun m req => max m req.powEffort) s.maxTrimmedEffort },
      discarded)

def enqueueRendRequest (s : PowServiceState) (req : PendingRend) (now : ℤ) :
    Option (PowServiceState × List PendingRend) :=
  (smartlistPqueueAdd compareRendRequestByEffort req
    { s.rendRequestPqueue with idx := Function.update s.rendRequestPqueue.idx req (-1) }).bind
      fun q =>
        if s.pqueueHighLevel ≤ q.numUsed then trimRendPqueue { s with rendRequestPqueue := q } now
        else some ({ s with rendRequestPqueue := q }, [])

/-- What a callback has done, and whether it returned inside of the loop. -/
structure Callback where
  pow : PowServiceState
  discarded : List PendingRend
  launched : List PendingRend
  returned : Bool

/-- The loop of `handle_rend_pqueue_cb`, with the length of the queue; `rateLimited` says in which
turns the bucket is empty. -/
def callbackLoop (now : ℤ) (inFlight : ℕ) (rateLimited : ℕ → Bool) : ℕ → Callback → Option Callback
  | 0, c => some c
  | n + 1, c =>
    if 16 ≤ inFlight ∧ topOfRendPqueueIsWorthwhile c.pow = false then
      some { c with returned := true }
    else if c.pow.usingPqueueBucket && rateLimited n then some { c with returned := true }
    else
      (smartlistPqueuePop compareRendRequestByEffort c.pow.rendRequestPqueue).bind fun (req, q) =>
        let pow := { c.pow with rendRequestPqueue := q }
        if queuedRendRequestIsTooOld req now then
          callbackLoop now inFlight rateLimited n
            { c with pow := pow, discarded := c.discarded ++ [req] }
        else
          some { c with
            pow := { pow with rendHandled := u32 (pow.rendHandled + 1) }
            launched := [req] }

def handleRendPqueueCb (s : PowServiceState) (now : ℤ) (inFlight : ℕ) (rateLimited : ℕ → Bool) :
    Option Callback :=
  (callbackLoop now inFlight rateLimited s.rendRequestPqueue.numUsed ⟨s, [], [], false⟩).map fun c =>
    if c.returned then c
    else if 0 < c.pow.rendRequestPqueue.numUsed ∧
        c.pow.pqueueLowLevel ≤ c.pow.rendRequestPqueue.numUsed then
      { c with pow := { c.pow with hadQueue := true } }
    else c

inductive AimdEvent
  | none
  | increase
  | decrease
deriving DecidableEq

def aimdEvent (s : PowServiceState) : AimdEvent :=
  if s.suggestedEffort < s.maxTrimmedEffort then .increase
  else if s.hadQueue then
    if 0 < s.rendRequestPqueue.numUsed ∧ topOfRendPqueueIsWorthwhile s then .increase else .none
  else if (s.rendRequestPqueue.numUsed : ℤ) < s.pqueueLowLevel then .decrease
  else .none

/-- The suggested effort of the next period; none where the division traps. -/
def nextEffort (s : PowServiceState) : Option ℕ :=
  match aimdEvent s with
  | .increase =>
    if s.suggestedEffort < 2 ^ 32 - 1 then
      if s.rendHandled = 0 then none
      else some (max (u32 (s.suggestedEffort + 1)) (u32 (s.totalEffort / s.rendHandled : ℕ)))
    else some s.suggestedEffort
  | .decrease => some (u32 (2 * s.suggestedEffort) / 3)
  | .none => some s.suggestedEffort

def updateSuggestedEffort (s : PowServiceState) : Option PowServiceState :=
  (nextEffort s).map fun effort =>
    { s with
      suggestedEffort := effort
      totalEffort := 0
      rendHandled := 0
      maxTrimmedEffort := 0
      hadQueue := false }

/-- `trimmed` and `left` are of the current period: what was discarded by trimming, and the lengths
of the queue after callbacks. -/
structure World where
  pow : PowServiceState
  accepted : List PendingRend
  launched : List PendingRend
  discarded : List PendingRend
  trimmed : List PendingRend
  left : List ℕ

inductive Action
  | introduce2 (effort : ℕ) (now : ℤ)
  | callback (now : ℤ) (inFlight : ℕ) (rateLimited : ℕ → Bool)
  | update

/-- None where an assertion fails or a division traps. -/
def perform (w : World) : Action → Option World
  | .introduce2 effort now =>
    let req : PendingRend := ⟨w.accepted.length, effort, now⟩
    (enqueueRendRequest w.pow req now).map fun (pow, discarded) =>
      { w with
        pow := { pow with totalEffort := u64 (pow.totalEffort + effort) }
        accepted := req :: w.accepted
        discarded := w.discarded ++ discarded
        trimmed := w.trimmed ++ discarded }
  | .callback now inFlight rateLimited =>
    (handleRendPqueueCb w.pow now inFlight rateLimited).map fun c =>
      { w with
        pow := c.pow
        launched := w.launched ++ c.launched
        discarded := w.discarded ++ c.discarded
        left := c.pow.rendRequestPqueue.numUsed :: w.left }
  | .update => (updateSuggestedEffort w.pow).map fun pow => { w with pow := pow, trimmed := [], left := [] }

def system : System World Action where
  init w := ∃ rate burst, rate < 2 ^ 32 ∧ burst < 2 ^ 32 ∧
    w = ⟨initializePowDefenses rate burst, [], [], [], [], []⟩
  step w a w' := (∀ effort now, a = .introduce2 effort now → effort < 2 ^ 32) ∧
    perform w a = some w'

end HsPowQueue
