import PushService.Bytes
import PushService.Dispatcher.PushQueue
import PushService.Queue.PeekConsumer
import PushService.System.Run

/-!
# The dispatcher

`Dispatcher` of `dispatcher.cpp` as a system. Any number of threads call `Post` and `Stop`; one
processing thread runs `Process`. Everything shared is touched under `queue_mutex_`, so a critical
section is one step, and a run is any interleaving of

* `post` and `stop`, the critical sections of `Post` and `Stop`, and
* `work`, the next step of the processing thread: the critical section of `GetPushFromQueue` (or its
  re-check after a wake-up, which may be spurious), one call of `SendPush`, or the critical section
  around `pop`.

## The condition variable

`waiting notified` is the processing thread asleep in `push_queue_condition_.wait`, with the mutex
released. `notify_one` sets the flag if the thread is asleep and is lost otherwise.

## Relation to the abstract consumer

`Simulates d c` ties the dispatcher to a `PeekConsumer`: selecting is looking at the front, the
loop over the clients is the work, and `pop` removes the front. Each step is a step of the consumer
or leaves it where it is (`Simulates.step`).
-/

namespace PushService

namespace Dispatcher

/-! ## Pushes and clients -/

/-- `PushType` of `server/include/common.h`. -/
inductive PushType
  | notification
  | warning
  | error
  deriving DecidableEq, Repr

/-- `PushPriority` of `server/include/common.h`. -/
inductive PushPriority
  | normal
  | high
  | critical
  deriving DecidableEq, Repr

/-- `static_cast<int>(priority)`. -/
def PushPriority.toNat : PushPriority → ℕ
  | normal => 0
  | high => 1
  | critical => 2

/-- `IPush`. -/
structure IPush where
  type : PushType
  priority : PushPriority
  payload : Bytes
  sender : Bytes
  deriving DecidableEq, Repr

/-- A non-null `push_ptr`: the object and its identity. -/
structure PushPtr where
  addr : ℕ
  push : IPush
  deriving DecidableEq, Repr

/-- `static_cast<int>(push->priority)`. -/
def PushPtr.priority (p : PushPtr) : ℕ := p.push.priority.toNat

/-- `Client`, with the pushes handed to `SendPush` so far. -/
structure Client where
  id : ℕ
  receivedPushes : List PushPtr
  deriving DecidableEq, Repr

def Client.sendPush (c : Client) (p : PushPtr) : Client :=
  { c with receivedPushes := c.receivedPushes ++ [p] }

/-- Where the processing thread is. -/
inductive Worker
  /-- About to call `GetPushFromQueue`. -/
  | selecting
  /-- Asleep in `push_queue_condition_.wait`. -/
  | waiting (notified : Bool)
  /-- In `Send` with `push`; client number `next` is the next one to be served. -/
  | sending (push : PushPtr) (next : ℕ)
  /-- `Process` has returned. -/
  | finished
  deriving DecidableEq, Repr

/-- What can be observed. -/
inductive Event
  /-- `EnqueueOrNot` has put the push in the queue. -/
  | accepted (p : PushPtr)
  /-- `GetPushFromQueue` has returned the push. -/
  | selected (p : PushPtr)
  /-- `SendPush` has been called on the client with this index. -/
  | sent (client : ℕ) (p : PushPtr)
  /-- `push_queue_.pop()` has returned. -/
  | popped
  /-- `Process` has returned. -/
  | finished
  deriving DecidableEq, Repr

/-- A step of one of the threads. -/
inductive Action
  /-- The critical section of `Post`; `none` is a null pointer. -/
  | post (push : Option PushPtr)
  | stop
  /-- The next step of the processing thread. -/
  | work
  deriving DecidableEq, Repr

end Dispatcher

open Dispatcher in
/-- The members of `Dispatcher`, and the state of its processing thread. -/
structure Dispatcher where
  pushQueue : PushQueue PushPtr
  stopped : Bool
  clients : List Client
  worker : Worker
  /-- Undefined behaviour has been reached. -/
  faulted : Bool
  deriving DecidableEq, Repr

namespace Dispatcher

def priorityCount : ℕ := 3

/-- The constructor: the processing thread starts in `Process`. -/
def start (clients : List ℕ) : Dispatcher where
  pushQueue := .ofCount priorityCount
  stopped := false
  clients := clients.map fun id ↦ ⟨id, []⟩
  worker := .selecting
  faulted := false

/-! ## The critical sections -/

/-- `push_queue_condition_.notify_one()`. -/
def notifyOne (d : Dispatcher) : Dispatcher :=
  match d.worker with
  | .waiting _ => { d with worker := .waiting true }
  | _ => d

def enqueueOrNot (p : PushPtr) (d : Dispatcher) : Dispatcher × List Event :=
  if d.stopped then (d, [])  -- after Stop new pushes are not accepted
  else
    match d.pushQueue.push PushPtr.priority p with
    | none => ({ d with faulted := true }, [])
    | some q => ({ d with pushQueue := q }.notifyOne, [.accepted p])

def post (push : Option PushPtr) (d : Dispatcher) : Dispatcher × List Event :=
  match push with
  | none => (d, [])  -- a null push is only logged
  | some p => d.enqueueOrNot p

def stop (d : Dispatcher) : Dispatcher := { d with stopped := true }.notifyOne

/-- `GetPushFromQueue` from the point where its wait, if any, is over. -/
def takeFront (d : Dispatcher) : Dispatcher × List Event :=
  if d.stopped && d.pushQueue.empty then ({ d with worker := .finished }, [.finished])
  else
    match d.pushQueue.front with
    | none => ({ d with faulted := true }, [])
    | some p => ({ d with worker := .sending p 0 }, [.selected p])

/-- `GetPushFromQueue`. Waiting releases the mutex and ends the step. -/
def getPushFromQueue (d : Dispatcher) : Dispatcher × List Event :=
  if d.pushQueue.empty && !d.stopped then ({ d with worker := .waiting false }, [])
  else d.takeFront

/-- The predicate of the wait, evaluated again after a wake-up. -/
def wakeUp (d : Dispatcher) : Dispatcher × List Event :=
  if d.stopped || !d.pushQueue.empty then d.takeFront
  else ({ d with worker := .waiting false }, [])

/-- One iteration of the loop of `Send`, or, once all clients are served, the locked `pop` of
`Process`. -/
def sendOrPop (p : PushPtr) (next : ℕ) (d : Dispatcher) : Dispatcher × List Event :=
  match d.clients[next]? with
  | some client =>
    ({ d with clients := d.clients.set next (client.sendPush p), worker := .sending p (next + 1) },
      [.sent next p])
  | none =>
    match d.pushQueue.pop with
    | none => ({ d with faulted := true }, [])
    | some q => ({ d with pushQueue := q, worker := .selecting }, [.popped])

/-- The next step of the processing thread. -/
def process (d : Dispatcher) : Option (Dispatcher × List Event) :=
  match d.worker with
  | .selecting => some d.getPushFromQueue
  | .waiting _ => some d.wakeUp
  | .sending p next => some (d.sendOrPop p next)
  | .finished => none

/-- The dispatcher with its threads; after undefined behaviour nothing is said. -/
def system : System Dispatcher Action Event where
  step d a :=
    if d.faulted then none
    else
      match a with
      | .post push => some (d.post push)
      | .stop => some (d.stop, [])
      | .work => d.process

/-- The pushes accepted, in the order of acceptance. -/
def accepted (h : List Event) : List PushPtr :=
  h.filterMap fun
    | .accepted p => some p
    | _ => none

@[simp] theorem accepted_append (h es : List Event) :
    accepted (h ++ es) = accepted h ++ accepted es := List.filterMap_append ..

/-! ## Simulation of the abstract consumer -/

/-- The push the processing thread has selected and not yet popped. -/
def Worker.inFlight : Worker → Option PushPtr
  | .sending p _ => some p
  | _ => none

/-- What client number `j` has received: the pushes of the finished rounds, and the current one if
the loop of `Send` has passed it. -/
def Worker.receivedBy (w : Worker) (served : List PushPtr) (j : ℕ) : List PushPtr :=
  match w with
  | .sending p next => if j < next then served ++ [p] else served
  | _ => served

/-- The dispatcher is in the situation the abstract consumer describes. -/
structure Simulates (d : Dispatcher) (c : PeekConsumer PushPtr.priority) : Prop where
  not_faulted : d.faulted = false
  refines : d.pushQueue.Refines c.queue
  count : d.pushQueue.priorityQueues.length = priorityCount
  held_eq : c.held = d.worker.inFlight
  heldBelowFront : c.HeldBelowFront
  received : ∀ j client, d.clients[j]? = some client →
    client.receivedPushes = d.worker.receivedBy c.served j
  next_le : ∀ p next, d.worker = .sending p next → next ≤ d.clients.length
  finished : d.worker = .finished → d.stopped = true ∧ c.queue.front = none

theorem PushPriority.toNat_lt (p : PushPriority) : p.toNat < priorityCount := by
  cases p <;> decide

theorem simulates_start (clients : List ℕ) : Simulates (start clients) .init where
  not_faulted := rfl
  refines := PushQueue.refines_ofCount priorityCount
  count := List.length_replicate
  held_eq := rfl
  heldBelowFront := PeekConsumer.heldBelowFront_init
  received := fun j client h ↦ by
    simp only [start, List.getElem?_map, Option.map_eq_some_iff] at h
    obtain ⟨id, -, rfl⟩ := h
    rfl
  next_le := fun _ _ h ↦ absurd h (by simp [start])
  finished := fun h ↦ absurd h (by simp [start])

end Dispatcher

end PushService
