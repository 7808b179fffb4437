import PushService.Dispatcher.Dispatcher
import PushService.System.Monitor

/-!
# The dispatcher, instruction by instruction

`Dispatcher.system` takes each critical section as one step. Here `Post`, `Stop`, the destructor and
`Process` are programs over `queue_mutex_` and `push_queue_condition_`: taking and releasing the
mutex, each test of `stopped_` and of the queue, each change, `notify_one` and falling asleep are
instructions of their own, and the threads interleave between any two of them.

The places between taking and releasing the mutex are the critical sections (`Caller.critical`,
`Processing.critical`). What the code relies on at a place, because it has tested it in the same
critical section, is its assertion (`Caller.asserts`, `Processing.asserts`).
-/

namespace PushService

namespace Dispatcher

namespace Threads

open Monitor

/-- The processing thread, and the threads that call `Post` and `Stop`. -/
inductive Thread
  | processing
  | caller (n : ℕ)
  deriving DecidableEq, Repr

/-- What a caller calls. -/
inductive Call
  | post (push : Option PushPtr)
  | stop
  /-- `~Dispatcher`. -/
  | destroy
  deriving DecidableEq, Repr

/-- The members of `Dispatcher` but for the mutex and the condition variable. -/
structure Shared where
  pushQueue : PushQueue PushPtr
  stopped : Bool
  clients : List Client
  /-- Undefined behaviour has been reached. -/
  faulted : Bool
  deriving DecidableEq, Repr

/-- Where a caller is. -/
inductive Caller
  /-- In no call. -/
  | idle
  /-- In `EnqueueOrNot`, about to take the mutex. -/
  | enqueueing (p : PushPtr)
  /-- About to test `stopped_`. -/
  | checking (p : PushPtr)
  /-- About to call `push_queue_.push`. -/
  | pushing (p : PushPtr)
  /-- In `~Dispatcher`, about to test `stopped_`. -/
  | destroying
  /-- In `Stop`, about to take the mutex. -/
  | stopping
  /-- About to set `stopped_`. -/
  | flagging
  /-- About to call `notify_one`. -/
  | notifying
  /-- About to release the mutex and return. -/
  | leaving
  deriving DecidableEq, Repr

/-- Where the processing thread is. -/
inductive Processing
  /-- In `GetPushFromQueue`, about to take the mutex. -/
  | getting
  /-- About to decide whether to wait. -/
  | testing
  /-- In `wait`, about to evaluate its predicate. -/
  | predicate
  /-- The predicate was false: about to release the mutex and fall asleep. -/
  | drowsy
  /-- Asleep, or woken and about to take the mutex again. -/
  | asleep
  /-- After the wait: about to decide whether anything is left to do. -/
  | choosing
  /-- About to call `push_queue_.front()`. -/
  | taking
  /-- About to release the mutex and return a push, or nothing. -/
  | returning (push : Option PushPtr)
  /-- In `Send`; client number `next` is the next one to be served. -/
  | sending (p : PushPtr) (next : ℕ)
  /-- `Send` has returned: about to take the mutex. -/
  | sent (p : PushPtr)
  /-- About to call `push_queue_.pop()`. -/
  | popping (p : PushPtr)
  /-- About to release the mutex and begin the next round. -/
  | leaving
  /-- `GetPushFromQueue` has returned nothing: about to return from `Process`. -/
  | exiting
  | finished
  deriving DecidableEq, Repr

/-! ## The programs -/

/-- Reading or writing the members; after undefined behaviour nothing is said. -/
def onShared {π : Type} (f : Call → Shared → Shared × π × List Event) :
    Instr Shared Call Event π :=
  .access fun call s ↦ if s.faulted then none else some (f call s)

/-- What is called. -/
def Call.enter : Call → Caller
  | .post none => .idle  -- a null push is only logged
  | .post (some p) => .enqueueing p
  | .stop => .stopping
  | .destroy => .destroying

/-- `Post` with `EnqueueOrNot`, `Stop`, and `~Dispatcher`. -/
def Caller.code : Caller → Instr Shared Call Event Caller
  | .idle => onShared fun call s ↦ (s, call.enter, [])
  | .enqueueing p => .lock (.checking p)
  -- after Stop new pushes are not accepted
  | .checking p => onShared fun _ s ↦ (s, if s.stopped then .leaving else .pushing p, [])
  | .pushing p => onShared fun _ s ↦
    match s.pushQueue.push PushPtr.priority p with
    | none => ({ s with faulted := true }, .pushing p, [])
    | some q => ({ s with pushQueue := q }, .notifying, [.accepted p])
  | .destroying => onShared fun _ s ↦ (s, if s.stopped then .idle else .stopping, [])
  | .stopping => .lock .flagging
  | .flagging => onShared fun _ s ↦ ({ s with stopped := true }, .notifying, [])
  | .notifying => .notifyOne .leaving
  | .leaving => .unlock .idle

/-- `Process` with `GetPushFromQueue` and `Send`. -/
def Processing.code : Processing → Instr Shared Call Event Processing
  | .getting => .lock .testing
  | .testing => onShared fun _ s ↦
    (s, if s.pushQueue.empty && !s.stopped then .predicate else .choosing, [])
  -- `wait` evaluates the predicate before it sleeps, and again whenever it wakes up
  | .predicate => onShared fun _ s ↦
    (s, if s.stopped || !s.pushQueue.empty then .choosing else .drowsy, [])
  | .drowsy => .wait .asleep
  | .asleep => .lock .predicate
  | .choosing => onShared fun _ s ↦
    (s, if s.stopped && s.pushQueue.empty then .returning none else .taking, [])
  | .taking => onShared fun _ s ↦
    match s.pushQueue.front with
    | none => ({ s with faulted := true }, .taking, [])
    | some p => (s, .returning (some p), [.selected p])
  | .returning push => .unlock (push.elim .exiting fun p ↦ .sending p 0)
  | .sending p next => onShared fun _ s ↦
    match s.clients[next]? with
    | some client => ({ s with clients := s.clients.set next (client.sendPush p) },
        .sending p (next + 1), [.sent next p])
    | none => (s, .sent p, [])
  -- the queue may have changed since the push was selected
  | .sent p => .lock (.popping p)
  | .popping p => onShared fun _ s ↦
    match s.pushQueue.pop with
    | none => ({ s with faulted := true }, .popping p, [])
    | some q => ({ s with pushQueue := q }, .leaving, [.popped])
  | .leaving => .unlock .getting
  | .exiting => onShared fun _ s ↦ (s, .finished, [.finished])
  | .finished => .access fun _ _ ↦ none

/-- The places in the program of a thread. -/
def Place : Thread → Type
  | .processing => Processing
  | .caller _ => Caller

/-- Which thread runs what. -/
def program : Program Thread Shared Call Event where
  Pc := Place
  code
    | .processing => Processing.code
    | .caller _ => Caller.code

/-- The constructor: the processing thread starts in `Process`, and nobody has called anything. -/
def start (clients : List ℕ) : Config program where
  data := ⟨.ofCount priorityCount, false, clients.map fun id ↦ ⟨id, []⟩, false⟩
  monitor := .idle
  pc
    | .processing => Processing.getting
    | .caller _ => Caller.idle

/-! ## What an access does -/

section Acts

variable {s s' : Shared} {es : List Event}

theorem onShared_eq {π : Type} {g : Call → Shared → Shared × π × List Event}
    {f : Call → Shared → Option (Shared × π × List Event)} {r : Shared × π × List Event}
    {call : Call} (hcode : onShared g = .access f) (h : f call s = some r) :
    s.faulted = false ∧ g call s = r := by
  obtain rfl := Instr.access.inj hcode
  dsimp only at h
  split_ifs at h with hfaulted
  exact ⟨by simpa using hfaulted, Option.some_inj.mp h⟩

/-- The accesses of a caller. -/
inductive Caller.Acts (s : Shared) : Caller → Shared → Caller → List Event → Prop
  | enter (call : Call) : Acts s .idle s call.enter []
  | refuse {p} (hstopped : s.stopped = true) : Acts s (.checking p) s .leaving []
  | accept {p} (hstopped : s.stopped = false) : Acts s (.checking p) s (.pushing p) []
  | push {p q} (hpush : s.pushQueue.push PushPtr.priority p = some q) :
    Acts s (.pushing p) { s with pushQueue := q } .notifying [.accepted p]
  | fault {p} (hpush : s.pushQueue.push PushPtr.priority p = none) :
    Acts s (.pushing p) { s with faulted := true } (.pushing p) []
  | destroyed (hstopped : s.stopped = true) : Acts s .destroying s .idle []
  | destroy (hstopped : s.stopped = false) : Acts s .destroying s .stopping []
  | flag : Acts s .flagging { s with stopped := true } .notifying []

theorem Caller.acts {p next : Caller} (call : Call)
    {f : Call → Shared → Option (Shared × Caller × List Event)} (hcode : p.code = .access f)
    (h : f call s = some (s', next, es)) : s.faulted = false ∧ Caller.Acts s p s' next es := by
  cases p with
  | idle =>
    obtain ⟨hfaulted, heq⟩ := onShared_eq hcode h
    cases heq
    exact ⟨hfaulted, .enter call⟩
  | checking p =>
    obtain ⟨hfaulted, heq⟩ := onShared_eq hcode h
    cases hstopped : s.stopped with
    | true =>
      rw [if_pos hstopped] at heq
      cases heq
      exact ⟨hfaulted, .refuse hstopped⟩
    | false =>
      rw [if_neg (by simp [hstopped])] at heq
      cases heq
      exact ⟨hfaulted, .accept hstopped⟩
  | pushing p =>
    obtain ⟨hfaulted, heq⟩ := onShared_eq hcode h
    cases hpush : s.pushQueue.push PushPtr.priority p with
    | none =>
      rw [hpush] at heq
      cases heq
      exact ⟨hfaulted, .fault hpush⟩
    | some q =>
      rw [hpush] at heq
      cases heq
      exact ⟨hfaulted, .push hpush⟩
  | destroying =>
    obtain ⟨hfaulted, heq⟩ := onShared_eq hcode h
    cases hstopped : s.stopped with
    | true =>
      rw [if_pos hstopped] at heq
      cases heq
      exact ⟨hfaulted, .destroyed hstopped⟩
    | false =>
      rw [if_neg (by simp [hstopped])] at heq
      cases heq
      exact ⟨hfaulted, .destroy hstopped⟩
  | flagging =>
    obtain ⟨hfaulted, heq⟩ := onShared_eq hcode h
    cases heq
    exact ⟨hfaulted, .flag⟩
  | enqueueing p => exact absurd hcode (by simp [Caller.code])
  | stopping => exact absurd hcode (by simp [Caller.code])
  | notifying => exact absurd hcode (by simp [Caller.code])
  | leaving => exact absurd hcode (by simp [Caller.code])

/-- The accesses of the processing thread. -/
inductive Processing.Acts (s : Shared) : Processing → Shared → Processing → List Event → Prop
  | test (h : s.pushQueue.empty = true ∧ s.stopped = false) : Acts s .testing s .predicate []
  | pass (h : s.stopped = true ∨ s.pushQueue.empty = false) : Acts s .testing s .choosing []
  | sleep (h : s.pushQueue.empty = true ∧ s.stopped = false) : Acts s .predicate s .drowsy []
  | wake (h : s.stopped = true ∨ s.pushQueue.empty = false) : Acts s .predicate s .choosing []
  | leave (h : s.stopped = true ∧ s.pushQueue.empty = true) :
    Acts s .choosing s (.returning none) []
  | take (h : s.stopped = false ∨ s.pushQueue.empty = false) : Acts s .choosing s .taking []
  | front {p} (hfront : s.pushQueue.front = some p) :
    Acts s .taking s (.returning (some p)) [.selected p]
  | frontFault (hfront : s.pushQueue.front = none) :
    Acts s .taking { s with faulted := true } .taking []
  | send {p next client} (hclient : s.clients[next]? = some client) :
    Acts s (.sending p next) { s with clients := s.clients.set next (client.sendPush p) }
      (.sending p (next + 1)) [.sent next p]
  | sent {p next} (hclient : s.clients[next]? = none) : Acts s (.sending p next) s (.sent p) []
  | pop {p q} (hpop : s.pushQueue.pop = some q) :
    Acts s (.popping p) { s with pushQueue := q } .leaving [.popped]
  | popFault {p} (hpop : s.pushQueue.pop = none) :
    Acts s (.popping p) { s with faulted := true } (.popping p) []
  | exit : Acts s .exiting s .finished [.finished]

theorem Processing.acts {p next : Processing} (call : Call)
    {f : Call → Shared → Option (Shared × Processing × List Event)} (hcode : p.code = .access f)
    (h : f call s = some (s', next, es)) : s.faulted = false ∧ Processing.Acts s p s' next es := by
  cases p with
  | testing =>
    obtain ⟨hfaulted, heq⟩ := onShared_eq hcode h
    split_ifs at heq with hwait
    · cases heq
      exact ⟨hfaulted, .test (by simpa using hwait)⟩
    · cases heq
      refine ⟨hfaulted, .pass ?_⟩
      simpa [imp_iff_or_not] using hwait
  | predicate =>
    obtain ⟨hfaulted, heq⟩ := onShared_eq hcode h
    split_ifs at heq with hready
    · cases heq
      exact ⟨hfaulted, .wake (by simpa using hready)⟩
    · cases heq
      refine ⟨hfaulted, .sleep ?_⟩
      simpa [and_comm] using hready
  | choosing =>
    obtain ⟨hfaulted, heq⟩ := onShared_eq hcode h
    split_ifs at heq with hleave
    · cases heq
      exact ⟨hfaulted, .leave (by simpa using hleave)⟩
    · cases heq
      refine ⟨hfaulted, .take ?_⟩
      simpa [imp_iff_not_or] using hleave
  | taking =>
    obtain ⟨hfaulted, heq⟩ := onShared_eq hcode h
    cases hfront : s.pushQueue.front with
    | none =>
      rw [hfront] at heq
      cases heq
      exact ⟨hfaulted, .frontFault hfront⟩
    | some p =>
      rw [hfront] at heq
      cases heq
      exact ⟨hfaulted, .front hfront⟩
  | sending p next =>
    obtain ⟨hfaulted, heq⟩ := onShared_eq hcode h
    cases hclient : s.clients[next]? with
    | none =>
      rw [hclient] at heq
      cases heq
      exact ⟨hfaulted, .sent hclient⟩
    | some client =>
      rw [hclient] at heq
      cases heq
      exact ⟨hfaulted, .send hclient⟩
  | popping p =>
    obtain ⟨hfaulted, heq⟩ := onShared_eq hcode h
    cases hpop : s.pushQueue.pop with
    | none =>
      rw [hpop] at heq
      cases heq
      exact ⟨hfaulted, .popFault hpop⟩
    | some q =>
      rw [hpop] at heq
      cases heq
      exact ⟨hfaulted, .pop hpop⟩
  | exiting =>
    obtain ⟨hfaulted, heq⟩ := onShared_eq hcode h
    cases heq
    exact ⟨hfaulted, .exit⟩
  | finished =>
    obtain rfl := Instr.access.inj hcode
    exact absurd h (by simp)
  | getting => exact absurd hcode (by simp [Processing.code])
  | drowsy => exact absurd hcode (by simp [Processing.code])
  | asleep => exact absurd hcode (by simp [Processing.code])
  | returning push => exact absurd hcode (by simp [Processing.code])
  | sent p => exact absurd hcode (by simp [Processing.code])
  | leaving => exact absurd hcode (by simp [Processing.code])

end Acts

/-! ## Critical sections -/

/-- The caller is between taking and releasing the mutex. -/
def Caller.critical : Caller → Prop
  | .checking _ | .pushing _ | .flagging | .notifying | .leaving => True
  | .idle | .enqueueing _ | .destroying | .stopping => False

/-- The processing thread is between taking and releasing the mutex. -/
def Processing.critical : Processing → Prop
  | .testing | .predicate | .drowsy | .choosing | .taking | .returning _ | .popping _ | .leaving =>
    True
  | .getting | .asleep | .sending _ _ | .sent _ | .exiting | .finished => False

def critical : ∀ t, program.Pc t → Prop
  | .processing => Processing.critical
  | .caller _ => Caller.critical

/-- There is something to do for the processing thread. -/
def Shared.ready (s : Shared) : Prop := s.stopped = true ∨ s.pushQueue.empty = false

/-! ## What is known at a place -/

/-- What a caller relies on. -/
def Caller.asserts : Caller → Shared → Prop
  | .pushing _, s => s.stopped = false
  | _, _ => True

/-- What the processing thread relies on. -/
def Processing.asserts : Processing → Shared → Prop
  | .drowsy, s => ¬s.ready
  | .choosing, s => s.ready
  | .taking, s => s.pushQueue.empty = false
  | .returning none, s => s.stopped = true ∧ s.pushQueue.empty = true
  | .exiting, s => s.stopped = true ∧ s.pushQueue.empty = true
  | _, _ => True

def asserts : ∀ t, program.Pc t → Shared → Prop
  | .processing => Processing.asserts
  | .caller _ => Caller.asserts

/-- The caller is about to call `notify_one`. -/
def notifying : ∀ t, program.Pc t → Prop
  | .processing, _ => False
  | .caller _, (p : Caller) => p = .notifying

end Threads

end Dispatcher

end PushService
