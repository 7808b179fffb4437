import PushService.System.Run

/-!
# The event handler of the console client

`ClientEventHandler` is called from two threads. The network thread reports pushes and changes of
the connection; the thread of the user interface asks for the history and clears it. The recent
history `session_last_history_` is only touched under the mutex or by a swap with an empty vector,
the full history `session_full_history_` is never under the mutex, and moving one into the other is
a swap under the lock followed by an append outside it.

## Interleaving

A thread is at one place of the call it is in; a step takes it over one block under a lock or one
unprotected statement, so that the steps of the two threads interleave freely. Local variables live
in the place. The parameter `α` is the type of the pushes, as the pointers `make_shared` returns.

## Events

A run tells when a push entered the history, when `clearHistory` was called and when it returned,
and what the two readers returned.
-/

namespace PushService

namespace Console

variable {α : Type*}

/-- `ConsoleMsgType`. -/
inductive ConsoleMsgType
  | system
  | error
  | hint
  deriving DecidableEq, Repr

/-- `console_ui::Message`. -/
structure Message where
  type : ConsoleMsgType
  msg : String
  deriving DecidableEq, Repr

/-! ## The queues -/

/-- `ThreadSafeQueue`: a `std::queue` whose methods each hold the mutex for their whole body. -/
structure ThreadSafeQueue (α : Type*) where
  queue : List α
  deriving DecidableEq, Repr

namespace ThreadSafeQueue

def push (q : ThreadSafeQueue α) (value : α) : ThreadSafeQueue α :=
  ⟨q.queue ++ [value]⟩

/-- `front`; it has no meaning on an empty queue. -/
def front (q : ThreadSafeQueue α) : Option α :=
  q.queue.head?

/-- `pop`; it has no meaning on an empty queue. -/
def pop (q : ThreadSafeQueue α) : Option (ThreadSafeQueue α) :=
  match q.queue with
  | [] => none
  | _ :: rest => some ⟨rest⟩

def empty (q : ThreadSafeQueue α) : Bool :=
  q.queue.isEmpty

/-- `clear` swaps the queue with a new one. -/
def clear (_ : ThreadSafeQueue α) : ThreadSafeQueue α :=
  ⟨[]⟩

end ThreadSafeQueue

/-! ## The handler -/

/-- The members of `ClientEventHandler`. -/
structure ClientEventHandler (α : Type*) where
  pushQueue : ThreadSafeQueue α
  msgQueue : ThreadSafeQueue Message
  sessionLastHistory : List α
  sessionFullHistory : List α
  isConnected : Bool
  deriving DecidableEq, Repr

namespace ClientEventHandler

/-- The handler as the constructor leaves it, with two empty queues. -/
def init : ClientEventHandler α :=
  ⟨⟨[]⟩, ⟨[]⟩, [], [], false⟩

/-- `push_queue_->push(push_ptr)`. -/
def queuePush (c : ClientEventHandler α) (p : α) : ClientEventHandler α :=
  { c with pushQueue := c.pushQueue.push p }

/-- `msg_queue_->push(m)`. -/
def queueMsg (c : ClientEventHandler α) (m : Message) : ClientEventHandler α :=
  { c with msgQueue := c.msgQueue.push m }

/-- `session_last_history_.push_back(push_ptr)`, under the lock. -/
def record (c : ClientEventHandler α) (p : α) : ClientEventHandler α :=
  { c with sessionLastHistory := c.sessionLastHistory ++ [p] }

/-- `temp_last_history.swap(session_last_history_)`, under the lock: the local vector is empty
before. -/
def swapLast (c : ClientEventHandler α) : List α × ClientEventHandler α :=
  (c.sessionLastHistory, { c with sessionLastHistory := [] })

/-- The insertion of the local vector at the end of `session_full_history_`. -/
def insertFull (c : ClientEventHandler α) (temp : List α) : ClientEventHandler α :=
  { c with sessionFullHistory := c.sessionFullHistory ++ temp }

def clearLast (c : ClientEventHandler α) : ClientEventHandler α :=
  { c with sessionLastHistory := [] }

def clearFull (c : ClientEventHandler α) : ClientEventHandler α :=
  { c with sessionFullHistory := [] }

def setConnected (c : ClientEventHandler α) (b : Bool) : ClientEventHandler α :=
  { c with isConnected := b }

end ClientEventHandler

/-! ## The threads -/

/-- Where the network thread is. -/
inductive NetworkThread (α : Type*)
  | idle
  /-- In `onPushReceived`, before `push_queue_->push`. -/
  | received (p : α)
  /-- In `onPushReceived`, before the locked block. -/
  | queued (p : α)
  /-- In `onConnected`, before `is_connected_ = true`. -/
  | connected
  /-- In `disconnect`, before `is_connected_ = false`; `m` is posted in the end. -/
  | disconnected (m : Message)
  /-- In `updateFullHistory` for `disconnect`, before the swap. -/
  | swapping (m : Message)
  /-- After the swap, before the insertion. -/
  | inserting (temp : List α) (m : Message)
  /-- In `disconnect`, before `session_last_history_.clear()`. -/
  | clearing (m : Message)
  /-- Before `msg_queue_->push`. -/
  | posting (m : Message)
  deriving DecidableEq, Repr

/-- The callers of `updateFullHistory` in the thread of the user interface. -/
inductive Reader
  | historySize
  | getHistory
  deriving DecidableEq, Repr

/-- Where the thread of the user interface is. -/
inductive UiThread (α : Type*)
  | idle
  /-- In `updateFullHistory`, before the swap. -/
  | swapping (r : Reader)
  /-- After the swap, before the insertion. -/
  | inserting (temp : List α) (r : Reader)
  /-- Before the `return` of a reader. -/
  | returning (r : Reader)
  /-- In `clearHistory`, before the swap. -/
  | clearing
  /-- In `clearHistory`, after the swap, before `session_full_history_.clear()`. -/
  | dropping (temp : List α)
  deriving DecidableEq, Repr

/-- The handler and the two threads that call it. -/
structure Session (α : Type*) where
  handler : ClientEventHandler α
  network : NetworkThread α
  ui : UiThread α
  deriving DecidableEq, Repr

/-- What a run tells. -/
inductive HistoryEvent (α : Type*)
  /-- A push entered the history. -/
  | received (p : α)
  /-- `clearHistory` is called. -/
  | clearBegins
  /-- `clearHistory` returns. -/
  | clearReturns
  /-- `historySize` returned `n`. -/
  | size (n : ℕ)
  /-- `getHistory` returned a history of `l`. -/
  | history (l : List α)
  deriving DecidableEq, Repr

/-- The calls of the two threads, and their next steps. -/
inductive HistoryAction (α : Type*)
  | onPushReceived (p : α)
  | onConnected
  | onDisconnected
  | onReconnect
  | onError (error : String)
  | historySize
  | getHistory
  | clearHistory
  /-- The network thread takes the next step of its call. -/
  | networkStep
  /-- The thread of the user interface takes the next step of its call. -/
  | uiStep
  deriving DecidableEq, Repr

namespace Session

variable (s : Session α)

/-- No call is in progress, and none has been made. -/
def init : Session α :=
  ⟨.init, .idle, .idle⟩

/-- The network thread begins a call. -/
def callNetwork (place : NetworkThread α) : Option (Session α × List (HistoryEvent α)) :=
  match s.network with
  | .idle => some ({ s with network := place }, [])
  | _ => none

/-- The thread of the user interface begins a call, which `es` tells. -/
def callUi (place : UiThread α) (es : List (HistoryEvent α)) :
    Option (Session α × List (HistoryEvent α)) :=
  match s.ui with
  | .idle => some ({ s with ui := place }, es)
  | _ => none

/-- The next block or statement of the network thread. -/
def networkStep : Option (Session α × List (HistoryEvent α)) :=
  match s.network with
  | .idle => none
  | .received p => some ({ s with handler := s.handler.queuePush p, network := .queued p }, [])
  | .queued p => some ({ s with handler := s.handler.record p, network := .idle }, [.received p])
  | .connected =>
    some ({ s with
      handler := s.handler.setConnected true
      network := .posting ⟨.system, "You have been successfully connected, welcome!"⟩ }, [])
  | .disconnected m =>
    some ({ s with handler := s.handler.setConnected false, network := .swapping m }, [])
  | .swapping m =>
    let (temp, handler) := s.handler.swapLast
    some ({ s with handler := handler, network := .inserting temp m }, [])
  | .inserting temp m =>
    some ({ s with handler := s.handler.insertFull temp, network := .clearing m }, [])
  | .clearing m => some ({ s with handler := s.handler.clearLast, network := .posting m }, [])
  | .posting m => some ({ s with handler := s.handler.queueMsg m, network := .idle }, [])

/-- The next block or statement of the thread of the user interface. -/
def uiStep : Option (Session α × List (HistoryEvent α)) :=
  match s.ui with
  | .idle => none
  | .swapping r =>
    let (temp, handler) := s.handler.swapLast
    some ({ s with handler := handler, ui := .inserting temp r }, [])
  | .inserting temp r =>
    some ({ s with handler := s.handler.insertFull temp, ui := .returning r }, [])
  | .returning .historySize =>
    some ({ s with ui := .idle }, [.size s.handler.sessionFullHistory.length])
  | .returning .getHistory =>
    some ({ s with ui := .idle }, [.history s.handler.sessionFullHistory])
  | .clearing =>
    let (temp, handler) := s.handler.swapLast
    some ({ s with handler := handler, ui := .dropping temp }, [])
  | .dropping _ => some ({ s with handler := s.handler.clearFull, ui := .idle }, [.clearReturns])

end Session

/-- The handler under its two threads. -/
def session (α : Type*) : System (Session α) (HistoryAction α) (HistoryEvent α) where
  step s
    | .onPushReceived p => s.callNetwork (.received p)
    | .onConnected => s.callNetwork .connected
    | .onDisconnected => s.callNetwork (.disconnected ⟨.system, "Disconnected"⟩)
    | .onReconnect => s.callNetwork (.disconnected ⟨.system, "Reconnect in 3 seconds..."⟩)
    | .onError error => s.callNetwork (.posting ⟨.error, error⟩)
    | .historySize => s.callUi (.swapping .historySize) []
    | .getHistory => s.callUi (.swapping .getHistory) []
    | .clearHistory => s.callUi .clearing [.clearBegins]
    | .networkStep => s.networkStep
    | .uiStep => s.uiStep

end Console

end PushService
