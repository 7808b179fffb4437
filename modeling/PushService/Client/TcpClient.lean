import PushService.Asio
import PushService.Bytes
import PushService.System.Operations
import PushService.System.Outcome

/-!
# `TcpClient`

The client side of `network`, with the parts of Boost.Asio it uses. Everything nondeterministic is
in the actions: what the resolver answers, when and how an operation completes, which of the queued
handlers runs next, and what `cancel`, `shutdown` and `close` of the socket answer.

## Boost.Asio

* `async_connect` closes the socket and opens it anew when it is initiated, long before there is a
  connection; with no endpoints it does not touch the socket and completes with an error.
* Closing or cancelling aborts the pending operations of the socket or the timer: they complete with
  `operation_aborted`. A completion that is already queued keeps its result.
* An operation started on a closed socket completes with an error.
* Handlers run only while the `io_context` is not stopped.
* `async_write` does not own the bytes that it writes. It gets `boost::asio::buffer(data)`, which
  refers to the vector of the caller, and takes the bytes when it completes. A write that the socket
  accepts at once completes within the call. Any other, and every one behind a connect that is under
  way, reads whatever stands there when its turn comes. The copy of the vector in the handler is not
  what is written.

`connection` counts how often the socket has been opened. A read remembers the number it was started
with, so that the bytes it delivers can be attributed to a connection; the code does not look at it.
In the same way `sends` counts the calls of `asyncSend`, and a write remembers the number of its
call, which says whose vector it refers to. How long the vector lives is up to the caller.

## Callbacks

The owner sets any of the six callbacks before the first call (`Callbacks`). Calling one is an
output. `closeConnection` calls `onError_` without testing it, which throws `std::bad_function_call`
if it is not set. A callback does not call the client back; those that the repository sets do not.
-/

namespace PushService

namespace Client

/-- `tcp::endpoint` -/
structure Endpoint where
  address : String
  port : UInt16
  deriving DecidableEq, Repr

/-- Which callbacks the owner has set. -/
structure Callbacks where
  onConnected : Bool
  onDisconnected : Bool
  onReconnect : Bool
  onDataReceived : Bool
  onDataSend : Bool
  onError : Bool
  deriving DecidableEq, Repr

/-- An asynchronous operation in flight. A write has a reference to the vector of the call with the
number `call`, and the size of the vector. -/
inductive Op
  | connect
  | read (connection : ℕ)
  | write (call size : ℕ)
  | wait
  deriving DecidableEq, Repr

/-- A completed operation, with the arguments of its handler. A completed read carries the bytes it
has put in `readBuffer_`. -/
inductive Completion
  | connect (ec : Option ErrorCode)
  | read (connection : ℕ) (result : Except ErrorCode Bytes)
  | write (ec : Option ErrorCode) (length : ℕ)
  | wait (ec : Option ErrorCode)

/-- The operation runs on the socket, not on the timer. -/
def Op.onSocket : Op → Bool
  | wait => false
  | _ => true

def Op.onTimer : Op → Bool
  | wait => true
  | _ => false

/-- How an operation completes when it is aborted. -/
def Op.aborted : Op → Completion
  | connect => .connect (some .operationAborted)
  | read connection => .read connection (.error .operationAborted)
  | write _ _ => .write (some .operationAborted) 0
  | wait => .wait (some .operationAborted)

/-- The size of `readBuffer_`. -/
def readBufferSize : ℕ := 1024

/-- The ways an operation can complete by itself. -/
def Op.Completes : Op → Completion → Prop
  | connect, .connect ec => ec ≠ some .operationAborted
  | read connection, .read connection' (.ok data) =>
    connection = connection' ∧ data ≠ [] ∧ data.length ≤ readBufferSize
  | read connection, .read connection' (.error ec) =>
    connection = connection' ∧ ec ≠ .operationAborted
  | write _ size, .write none length => length = size
  | write _ size, .write (some ec) length => ec ≠ .operationAborted ∧ length ≤ size
  | wait, .wait ec => ec = none
  | _, _ => False

instance : DecidableRel Op.Completes := fun op c ↦ by
  cases op <;> rcases c with _ | ⟨_, _ | _⟩ | ⟨_ | _, _⟩ | _ <;> unfold Op.Completes <;>
    infer_instance

/-- What can be observed. -/
inductive TcpClient.Event
  /-- `async_connect` has been initiated on these endpoints. -/
  | asyncConnect (endpoints : List Endpoint)
  /-- `async_wait` has been initiated on the reconnect timer. -/
  | asyncWait
  /-- `async_write` has been initiated on a vector that holds `data` at this moment. -/
  | asyncWrite (data : Bytes)
  /-- `onConnected_` has been called; this is connection number `connection`. -/
  | onConnected (connection : ℕ)
  | onDisconnected
  | onReconnect
  /-- `onDataReceived_` has been called with bytes that were read on `connection`. -/
  | onDataReceived (connection : ℕ) (data : Bytes)
  | onDataSend (length : ℕ)
  | onError (message : String)
  /-- `std::bad_function_call` has left the call or the handler. -/
  | badFunctionCall
  deriving DecidableEq, Repr

/-- What the three socket calls of `closeConnection` answer. -/
structure CloseResults where
  cancel : Option ErrorCode
  shutdown : Option ErrorCode
  close : Option ErrorCode
  deriving DecidableEq, Repr

/-- All three succeed. -/
def CloseResults.ok : CloseResults := ⟨none, none, none⟩

/-- Something that happens to the client. -/
inductive TcpClient.Action
  /-- `setEndpoint`, and what `resolve` answers for the given host and port. -/
  | setEndpoint (resolved : Except ErrorCode (List Endpoint))
  | connect
  | asyncSend (data : Bytes)
  | close (results : CloseResults)
  /-- Pending operation number `i` completes. -/
  | complete (i : ℕ) (c : Completion)
  /-- The handler of queued completion number `i` runs. -/
  | handler (i : ℕ) (results : CloseResults)
  /-- `io_context_.stop()`, or the context has run out of work. -/
  | ioStop
  /-- `io_context_.restart()` -/
  | ioRestart

/-- The members of `TcpClient`, with the state of its socket, its timer and the `io_context`. -/
structure TcpClient where
  socketOpen : Bool
  /-- How often the socket has been opened. -/
  connection : ℕ
  /-- How often `asyncSend` has been called. -/
  sends : ℕ
  endpoints : List Endpoint
  /-- `last_op_success_` -/
  lastOpSuccess : Bool
  wasConnected : Bool
  reconnectCount : ℤ
  shouldReconnect : Bool
  operations : Operations Op Completion
  ioStopped : Bool

namespace TcpClient

/-- The constructor. -/
def init : TcpClient where
  socketOpen := false
  connection := 0
  sends := 0
  endpoints := []
  lastOpSuccess := false
  wasConnected := false
  reconnectCount := 0
  shouldReconnect := false
  operations := .empty
  ioStopped := false

/-- `reconnect_max_count_` -/
def reconnectMaxCount : ℤ := 3

def isConnected (c : TcpClient) : Bool := c.socketOpen && !c.ioStopped && c.lastOpSuccess

/-! ## Callbacks -/

/-- `if (callback) callback(...)` -/
def invoke (isSet : Bool) (e : Event) (c : TcpClient) : Outcome TcpClient Event :=
  if isSet then .emit e c else .done c

/-- `callback(...)` without the test. -/
def invokeUntested (isSet : Bool) (e : Event) (c : TcpClient) : Outcome TcpClient Event :=
  if isSet then .emit e c else .throw c

/-! ## Operations of the socket and the timer -/

def abortSocket (c : TcpClient) : TcpClient :=
  { c with operations := c.operations.abort Op.onSocket Op.aborted }

def abortTimer (c : TcpClient) : TcpClient :=
  { c with operations := c.operations.abort Op.onTimer Op.aborted }

/-- `doConnect`. -/
def doConnect (c : TcpClient) : Outcome TcpClient Event :=
  match c.endpoints with
  | [] =>
    .emit (.asyncConnect [])
      { c with operations := c.operations.post (.connect (some .notFound)) }
  | e :: es =>
    .emit (.asyncConnect (e :: es))
      { c with
        socketOpen := true
        connection := c.connection + 1
        operations := (c.operations.abort Op.onSocket Op.aborted).start .connect }

/-- `doRead`. -/
def doRead (c : TcpClient) : TcpClient :=
  if c.socketOpen then { c with operations := c.operations.start (.read c.connection) }
  else
    { c with operations := c.operations.post (.read c.connection (.error .badDescriptor)) }

/-- `asyncSend`, called with a vector that holds `data`. -/
def asyncSend (data : Bytes) (c : TcpClient) : Outcome TcpClient Event :=
  .emit (.asyncWrite data)
    { c with
      sends := c.sends + 1
      operations :=
        if data = [] then c.operations.post (.write none 0)
        else if c.socketOpen then c.operations.start (.write c.sends data.length)
        else c.operations.post (.write (some .badDescriptor) 0) }

variable (cb : Callbacks)

def scheduleReconnect (c : TcpClient) : Outcome TcpClient Event :=
  (invoke cb.onReconnect .onReconnect { c with reconnectCount := c.reconnectCount + 1 }).andThen
    fun c ↦
  -- `expires_after` aborts a wait that is still pending
  let c := { c with operations := (c.operations.abort Op.onTimer Op.aborted).start .wait }
  .emit .asyncWait
    (if c.reconnectCount = reconnectMaxCount then
      { c with shouldReconnect := false, reconnectCount := 0 }
    else c)

/-- `socket_.cancel(ec)` and the test of `ec`. -/
def cancelSocket (result : Option ErrorCode) (c : TcpClient) : Outcome TcpClient Event :=
  match result with
  | none => .done c.abortSocket
  | some ec =>
    invokeUntested cb.onError (.onError ("Error when canceling operations: " ++ ec.message)) c

/-- `socket_.shutdown(shutdown_both, ec)` and the test of `ec`. -/
def shutdownSocket (result : Option ErrorCode) (c : TcpClient) : Outcome TcpClient Event :=
  match result with
  | none => .done c
  | some ec => invokeUntested cb.onError (.onError ("Shutdown error: " ++ ec.message)) c

/-- `socket_.close(ec)` and the test of `ec`. The socket is closed even when there is an error. -/
def closeSocket (result : Option ErrorCode) (c : TcpClient) : Outcome TcpClient Event :=
  let c := { c.abortSocket with socketOpen := false }
  match result with
  | none => .done c
  | some ec =>
    invokeUntested cb.onError (.onError ("Error closing the socket: " ++ ec.message)) c

def closeConnection (r : CloseResults) (c : TcpClient) : Outcome TcpClient Event :=
  (cancelSocket cb r.cancel c).andThen fun c ↦
  (shutdownSocket cb r.shutdown c).andThen fun c ↦
  (closeSocket cb r.close c).andThen fun c ↦
  invoke cb.onDisconnected .onDisconnected c

/-! ## The calls of the owner -/

def setEndpoint (resolved : Except ErrorCode (List Endpoint)) (c : TcpClient) :
    Outcome TcpClient Event :=
  let c := { c with wasConnected := false, shouldReconnect := false }
  match resolved with
  | .ok endpoints => .done { c with endpoints := endpoints, lastOpSuccess := true }
  | .error ec =>
    invoke cb.onError (.onError ("Error when resolving of an endpoint: " ++ ec.message))
      { c with endpoints := [], lastOpSuccess := false }

def connect (c : TcpClient) : Outcome TcpClient Event :=
  if c.lastOpSuccess then c.doConnect else .done c

def close (r : CloseResults) (c : TcpClient) : Outcome TcpClient Event :=
  (closeConnection cb r { c with shouldReconnect := false }).andThen fun c ↦ .done c.abortTimer

/-! ## The handlers -/

/-- The handler of `doConnect`. -/
def connectHandler (ec : Option ErrorCode) (c : TcpClient) : Outcome TcpClient Event :=
  match ec with
  | none =>
    (invoke cb.onConnected (.onConnected c.connection) { c with lastOpSuccess := true }).andThen
      fun c ↦
    .done (doRead { c with shouldReconnect := true, wasConnected := true, reconnectCount := 0 })
  | some _ =>
    (invoke cb.onError (.onError "Connect error") { c with lastOpSuccess := false }).andThen fun c ↦
    if c.shouldReconnect then scheduleReconnect cb c else .done c

/-- The handler of `doRead`. -/
def readHandler (connection : ℕ) (result : Except ErrorCode Bytes) (r : CloseResults)
    (c : TcpClient) : Outcome TcpClient Event :=
  match result with
  | .ok data =>
    (invoke cb.onDataReceived (.onDataReceived connection data)
      { c with lastOpSuccess := true }).andThen fun c ↦
    .done c.doRead
  | .error .operationAborted => .done { c with lastOpSuccess := false }
  | .error ec =>
    (invoke cb.onError (.onError ("Read error: " ++ ec.message))
      { c with lastOpSuccess := false }).andThen fun c ↦
    (closeConnection cb r c).andThen fun c ↦
    if c.shouldReconnect then scheduleReconnect cb c else .done c

/-- The handler of `asyncSend`. -/
def writeHandler (ec : Option ErrorCode) (length : ℕ) (c : TcpClient) : Outcome TcpClient Event :=
  match ec with
  | none => invoke cb.onDataSend (.onDataSend length) { c with lastOpSuccess := true }
  | some ec =>
    invoke cb.onError (.onError ("Send error: " ++ ec.message)) { c with lastOpSuccess := false }

/-- The handler of `scheduleReconnect`. -/
def waitHandler (ec : Option ErrorCode) (c : TcpClient) : Outcome TcpClient Event :=
  match ec with
  | none => c.doConnect
  | some _ => .done c

/-- The handler of a completion. -/
def handle (completion : Completion) (r : CloseResults) (c : TcpClient) :
    Outcome TcpClient Event :=
  match completion with
  | .connect ec => connectHandler cb ec c
  | .read connection result => readHandler cb connection result r c
  | .write ec length => writeHandler cb ec length c
  | .wait ec => waitHandler ec c

/-! ## The client as a system -/

/-- What is left of an outcome when the exception, if any, has left the call or the handler. -/
def settle (o : Outcome TcpClient Event) : TcpClient × List Event :=
  (o.state, if o.thrown then o.outputs ++ [.badFunctionCall] else o.outputs)

@[simp] theorem settle_fst (o : Outcome TcpClient Event) : (settle o).1 = o.state := rfl

def step (c : TcpClient) (a : Action) : Option (TcpClient × List Event) :=
  match a with
  | .setEndpoint resolved => some (settle (setEndpoint cb resolved c))
  | .connect => some (settle c.connect)
  | .asyncSend data => some (settle (c.asyncSend data))
  | .close r => some (settle (close cb r c))
  | .complete i completion =>
    match c.operations.pending[i]? with
    | some op =>
      if op.Completes completion then
        some ({ c with operations := c.operations.complete i completion }, [])
      else none
    | none => none
  | .handler i r =>
    match c.ioStopped, c.operations.ready[i]? with
    | false, some completion =>
      some (settle (handle cb completion r { c with operations := c.operations.take i }))
    | _, _ => none
  | .ioStop => some ({ c with ioStopped := true }, [])
  | .ioRestart => some ({ c with ioStopped := false }, [])

/-- The client with the given callbacks. -/
def system : System TcpClient Action Event := ⟨step cb⟩

end TcpClient

end Client

end PushService
