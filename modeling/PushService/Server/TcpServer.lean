import Mathlib.Data.List.AList
import PushService.Asio
import PushService.Bytes
import PushService.System.Operations
import PushService.System.Outcome

/-!
# `TcpServer`

The server side of `network`: the acceptor, the sessions, the `ClientRegistry`, and the parts of
Boost.Asio they use. A session is named by its position among all sessions ever created; its
`SessionId` is given out by a counter of 64 bits.

## Boost.Asio

* `async_write` is a loop of `async_write_some`. The socket accepts a non-empty part of the first
  write outstanding on it; the rest, if there is one, is started as another `async_write_some` when
  the handler of the part runs, behind the writes that are outstanding by then.
* Closing a socket or the acceptor aborts its operations: they complete with `operation_aborted`. A
  completion that is already queued keeps its result; in particular an accept that has succeeded.
* An operation started on a closed socket or acceptor completes with an error.
* `remote_endpoint()` throws when the peer is gone. The exception leaves the handler, and the
  socket that was accepted is closed by its destructor.

## Callbacks

Calling a callback that is set is an output. What the owner does, in a callback or elsewhere, is an
action of its own. `onConnected_` may throw.
-/

namespace PushService

namespace Server

/-- `SessionId`. -/
abbrev SessionId := UInt64

/-- `ClientSession`, with the state of its socket. -/
structure ClientSession where
  id : SessionId
  socketOpen : Bool
  /-- The bytes the socket has accepted. -/
  wire : Bytes
  deriving DecidableEq, Repr

/-- An asynchronous operation in flight. -/
inductive Op
  | accept
  | read (session : ℕ)
  /-- `async_write_some` of what is left of a message. -/
  | write (session : ℕ) (data : Bytes)
  deriving DecidableEq, Repr

/-- A completed operation, with the arguments of its handler. -/
inductive Completion
  | accept (ec : Option ErrorCode)
  /-- The function posted by `stop`. -/
  | stop
  | read (session : ℕ) (result : Except ErrorCode Bytes)
  /-- The first `length` bytes of `data` have been written. -/
  | write (session : ℕ) (data : Bytes) (length : ℕ) (ec : Option ErrorCode)

/-- The operation runs on the acceptor. -/
def Op.onAcceptor : Op → Bool
  | accept => true
  | _ => false

/-- The operation runs on the socket of the session. -/
def Op.onSession (session : ℕ) : Op → Bool
  | accept => false
  | read session' => session' = session
  | write session' _ => session' = session

/-- How an operation completes when it is aborted. -/
def Op.aborted : Op → Completion
  | accept => .accept (some .operationAborted)
  | read session => .read session (.error .operationAborted)
  | write session data => .write session data 0 (some .operationAborted)

/-- The size of `readBuffer_`. -/
def readBufferSize : ℕ := 1024

/-- The ways an operation can complete by itself. -/
def Op.Completes : Op → Completion → Prop
  | accept, .accept ec => ec ≠ some .operationAborted
  | read session, .read session' (.ok data) =>
    session = session' ∧ data ≠ [] ∧ data.length ≤ readBufferSize
  | read session, .read session' (.error ec) => session = session' ∧ ec ≠ .operationAborted
  | write session data, .write session' data' length none =>
    session = session' ∧ data = data' ∧ 0 < length ∧ length ≤ data.length
  | write session data, .write session' data' length (some ec) =>
    session = session' ∧ data = data' ∧ length = 0 ∧ ec ≠ .operationAborted
  | _, _ => False

instance : DecidableRel Op.Completes := fun op c ↦ by
  cases op <;> rcases c with _ | _ | ⟨_, _ | _⟩ | ⟨_, _, _, _ | _⟩ <;> unfold Op.Completes <;>
    infer_instance

/-- The operation is a write, and `op` is one on the same socket. -/
def Op.delays : Op → Op → Bool
  | write session _, write session' _ => session = session'
  | _, _ => false

/-- Which callbacks the owner has set. -/
structure Callbacks where
  onConnected : Bool
  onDisconnected : Bool
  onDataReceived : Bool
  deriving DecidableEq, Repr

/-- All three are set. -/
def Callbacks.allSet : Callbacks := ⟨true, true, true⟩

/-- What can be observed. -/
inductive TcpServer.Event
  /-- `async_accept` has been initiated. -/
  | asyncAccept
  | onConnected (id : SessionId) (session : ℕ)
  | onDisconnected (id : SessionId)
  | onDataReceived (id : SessionId) (data : Bytes)
  /-- `asyncSend` has been called on the session. -/
  | asyncSend (session : ℕ) (data : Bytes)
  /-- An exception has left the handler. -/
  | threw
  deriving DecidableEq, Repr

/-- What is decided elsewhere while a handler runs. -/
structure Answers where
  /-- What `remote_endpoint()` throws. -/
  remoteEndpoint : Option ErrorCode
  onConnectedThrows : Bool
  /-- The order in which `ClearAll` comes to the registered sessions. -/
  order : List ℕ
  deriving DecidableEq, Repr

/-- The peer is still there, nothing throws, and there is no session to come to. -/
def Answers.ok : Answers := ⟨none, false, []⟩

/-- Something that happens to the server. -/
inductive TcpServer.Action
  | start
  | stop
  /-- `broadcast`, and the order in which it comes to the registered sessions. -/
  | broadcast (data : Bytes) (order : List ℕ)
  /-- `asyncSend` of a session. -/
  | asyncSend (session : ℕ) (data : Bytes)
  /-- `close` of a session. -/
  | close (session : ℕ)
  /-- Pending operation number `i` completes. -/
  | complete (i : ℕ) (c : Completion)
  /-- The handler of queued completion number `i` runs. -/
  | handler (i : ℕ) (answers : Answers)

/-- The members of `TcpServer`, with the sessions and the state of the acceptor and the
`io_context`. -/
structure TcpServer where
  acceptorOpen : Bool
  nextSessionId : SessionId
  /-- All sessions ever created. -/
  sessions : List ClientSession
  /-- The `sessions_` of the `ClientRegistry`. -/
  registry : AList fun _ : SessionId ↦ ℕ
  operations : Operations Op Completion

namespace TcpServer

/-- The constructor. -/
def init : TcpServer where
  acceptorOpen := true
  nextSessionId := 1
  sessions := []
  registry := ∅
  operations := .empty

def activeClientsCount (s : TcpServer) : ℕ := s.registry.entries.length

/-- The sessions in the registry. -/
def registered (s : TcpServer) : List ℕ := s.registry.entries.map Sigma.snd

def isOpen (s : TcpServer) (session : ℕ) : Bool :=
  match s.sessions[session]? with
  | some c => c.socketOpen
  | none => false

variable (cb : Callbacks)

/-- `if (callback) callback(...)` -/
def invoke (isSet : Bool) (e : Event) (s : TcpServer) : Outcome TcpServer Event :=
  if isSet then .emit e s else .done s

/-! ## `ClientSession` -/

/-- The `removeSession` of the server, which is the session's `onDisconnect_`. -/
def removeSession (id : SessionId) (s : TcpServer) : Outcome TcpServer Event :=
  invoke cb.onDisconnected (.onDisconnected id) { s with registry := s.registry.erase id }

/-- `close`. -/
def close (session : ℕ) (s : TcpServer) : Outcome TcpServer Event :=
  match s.sessions[session]? with
  | some c =>
    if c.socketOpen then
      removeSession cb c.id
        { s with
          sessions := s.sessions.set session { c with socketOpen := false }
          operations := s.operations.abort (Op.onSession session) Op.aborted }
    else .done s
  | none => .done s

/-- `doRead`. -/
def doRead (session : ℕ) (s : TcpServer) : TcpServer :=
  if s.isOpen session then { s with operations := s.operations.start (.read session) }
  else
    { s with operations := s.operations.post (.read session (.error .badDescriptor)) }

/-- The next `async_write_some` of an `async_write`. -/
def writeSome (session : ℕ) (data : Bytes) (s : TcpServer) : TcpServer :=
  if s.isOpen session then { s with operations := s.operations.start (.write session data) }
  else
    { s with
      operations := s.operations.post (.write session data 0 (some .badDescriptor)) }

/-- `asyncSend`. -/
def asyncSend (session : ℕ) (data : Bytes) (s : TcpServer) : Outcome TcpServer Event :=
  .emit (.asyncSend session data)
    (if data = [] then { s with operations := s.operations.post (.write session [] 0 none) }
    else s.writeSome session data)

/-! ## The calls of the owner -/

def doAccept (s : TcpServer) : Outcome TcpServer Event :=
  .emit .asyncAccept
    (if s.acceptorOpen then { s with operations := s.operations.start .accept }
    else { s with operations := s.operations.post (.accept (some .badDescriptor)) })

def start (s : TcpServer) : Outcome TcpServer Event := s.doAccept

def stop (s : TcpServer) : TcpServer := { s with operations := s.operations.post .stop }

/-- `ForEachClient` with the function that `broadcast` passes to it. -/
def sendToEach (data : Bytes) : List ℕ → TcpServer → Outcome TcpServer Event
  | [], s => .done s
  | session :: order, s => (asyncSend session data s).andThen (sendToEach data order)

def broadcast (data : Bytes) (order : List ℕ) (s : TcpServer) : Outcome TcpServer Event :=
  sendToEach data order s

/-! ## The handlers -/

/-- The sessions that `ClearAll` has taken out of the registry, one after the other. -/
def closeEach : List ℕ → TcpServer → Outcome TcpServer Event
  | [], s => .done s
  | session :: order, s => (close cb session s).andThen (closeEach order)

/-- The `ClearAll` of the registry. -/
def clearAll (order : List ℕ) (s : TcpServer) : Outcome TcpServer Event :=
  closeEach cb order { s with registry := ∅ }

/-- The function posted by `stop`. -/
def stopHandler (order : List ℕ) (s : TcpServer) : Outcome TcpServer Event :=
  clearAll cb order
    { s with
      acceptorOpen := false
      operations := s.operations.abort Op.onAcceptor Op.aborted }

/-- What `doAccept` does with a connection. -/
def welcome (answers : Answers) (s : TcpServer) : Outcome TcpServer Event :=
  match answers.remoteEndpoint with
  | some _ => .throw s
  | none =>
    let id := s.nextSessionId
    let session := s.sessions.length
    (invoke cb.onConnected (.onConnected id session)
      { s with
        nextSessionId := id + 1
        sessions := s.sessions ++ [⟨id, true, []⟩]
        registry := s.registry.insert id session }).andThen fun s ↦
    if cb.onConnected ∧ answers.onConnectedThrows then .throw s else .done (s.doRead session)

/-- The handler of `doAccept`. -/
def acceptHandler (ec : Option ErrorCode) (answers : Answers) (s : TcpServer) :
    Outcome TcpServer Event :=
  (match ec with
    | none => welcome cb answers s
    | some _ => .done s).andThen fun s ↦
  if s.acceptorOpen then s.doAccept else .done s

/-- The handler of `doRead`. -/
def readHandler (session : ℕ) (result : Except ErrorCode Bytes) (s : TcpServer) :
    Outcome TcpServer Event :=
  match result with
  | .ok data =>
    match s.sessions[session]? with
    | some c =>
      (invoke cb.onDataReceived (.onDataReceived c.id data) s).andThen fun s ↦
      .done (s.doRead session)
    | none => .done s
  | .error _ => close cb session s

/-- The handler of `asyncSend`, or of a part of it. -/
def writeHandler (session : ℕ) (data : Bytes) (length : ℕ) (ec : Option ErrorCode)
    (s : TcpServer) : Outcome TcpServer Event :=
  match ec with
  | none => if length < data.length then .done (s.writeSome session (data.drop length)) else .done s
  | some _ => close cb session s

/-- The handler of a completion. -/
def handle (completion : Completion) (answers : Answers) (s : TcpServer) :
    Outcome TcpServer Event :=
  match completion with
  | .accept ec => acceptHandler cb ec answers s
  | .stop => stopHandler cb answers.order s
  | .read session result => readHandler cb session result s
  | .write session data length ec => writeHandler cb session data length ec s

/-! ## The server as a system -/

/-- What is left of an outcome when the exception, if any, has left the handler. -/
def settle (o : Outcome TcpServer Event) : TcpServer × List Event :=
  (o.state, if o.thrown then o.outputs ++ [.threw] else o.outputs)

/-- The bytes of a completed write are on the wire. -/
def transmit (completion : Completion) (sessions : List ClientSession) : List ClientSession :=
  match completion with
  | .write session data length none =>
    sessions.modify session fun c ↦ { c with wire := c.wire ++ data.take length }
  | _ => sessions

def step (s : TcpServer) : Action → Option (TcpServer × List Event)
  | .start => some (settle s.start)
  | .stop => some (s.stop, [])
  | .broadcast data order =>
    if order.Perm s.registered then some (settle (broadcast data order s)) else none
  | .asyncSend session data =>
    if session < s.sessions.length then some (settle (asyncSend session data s)) else none
  | .close session => some (settle (close cb session s))
  | .complete i completion =>
    match s.operations.pending[i]? with
    | some op =>
      if op.Completes completion ∧ ∀ op' ∈ s.operations.pending.take i, op'.delays op = false then
        some ({ s with
          sessions := transmit completion s.sessions
          operations := s.operations.complete i completion }, [])
      else none
    | none => none
  | .handler i answers =>
    match s.operations.ready[i]? with
    | some .stop =>
      if answers.order.Perm s.registered then
        some (settle (handle cb .stop answers { s with operations := s.operations.take i }))
      else none
    | some completion =>
      some (settle (handle cb completion answers { s with operations := s.operations.take i }))
    | none => none

/-- The server with the given callbacks. -/
def system : System TcpServer Action Event := ⟨step cb⟩

end TcpServer

end Server

end PushService
