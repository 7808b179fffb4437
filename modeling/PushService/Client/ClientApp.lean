import PushService.Client.TcpClient
import PushService.Protocol.Adapter

/-!
# `ClientApp`

The application client of `client_lib`: host and port, the role obtained by `login`, the protocol
adapter, and one `TcpClient` with all six callbacks set by `setTcpEventHandlers`.

The callbacks touch the adapter and the owner's event handler and never call back into the
`TcpClient`, so what they do can be done in one go after the call or the handler that invoked them,
in the order of the invocations (`deliver`).
-/

namespace PushService

namespace Client

open Protocol

/-- `ClientRole`. -/
inductive ClientRole
  | admin
  | user
  deriving DecidableEq, Repr

/-- `AuthData`. -/
structure AuthData where
  token : String
  role : ClientRole
  userId : ℤ
  deriving DecidableEq, Repr

/-- `authorizeClient`, with `ADMIN_TEST_LOGIN` and its three siblings. -/
def authorizeClient (username password : String) : Option AuthData :=
  if username = "admin" ∧ password = "admin" then some ⟨"123456", .admin, 123⟩
  else if username = "user" ∧ password = "user" then some ⟨"123456", .user, 123⟩
  else none

/-- A call of `IClientEventHandler`. -/
inductive HandlerCall
  | onPushReceived (id : UInt32) (push : Push)
  | onAcceptPush (id : UInt32)
  | onConnected
  | onDisconnected
  | onReconnect
  | onDataSend (length : ℕ)
  | onError (message : String)
  deriving DecidableEq, Repr

/-- What can be observed. -/
inductive ClientApp.Event
  /-- The `TcpClient` has done `e`; if that was to invoke a callback, it has made these calls of the
  event handler. -/
  | tcp (e : TcpClient.Event) (calls : List HandlerCall)
  /-- A call of the owner has called the event handler. -/
  | handler (c : HandlerCall)
  /-- `login` has returned. -/
  | loginReturned (role : Option ClientRole)
  /-- An exception has left the call. -/
  | threw (message : String)
  deriving DecidableEq, Repr

/-- Something that happens to the client. -/
inductive ClientApp.Action
  | configure (host port : String)
  /-- `connect`, and what `resolve` answers should it be called. -/
  | connect (resolved : Except ErrorCode (List Endpoint))
  | disconnect (results : CloseResults)
  | login (login password : String)
  | sendMessage (id : UInt32) (push : Push)
  | complete (i : ℕ) (c : Completion)
  | handler (i : ℕ) (results : CloseResults)
  | ioStop
  | ioRestart

/-- The members of `ClientApp`. -/
structure ClientApp where
  host : String
  port : String
  userData : Option AuthData
  protocol : ProtocolAdapter
  tcpClient : TcpClient

namespace ClientApp

/-- The constructor. -/
def init : ClientApp where
  host := ""
  port := ""
  userData := none
  protocol := {}
  tcpClient := .init

/-- The callbacks set by `setTcpEventHandlers`. -/
def callbacks : Callbacks := ⟨true, true, true, true, true, true⟩

/-! ## Received data -/

/-- The `switch` of `onDataReceived`. -/
def handlerCalls (message : DecodedMessage) : List HandlerCall :=
  match message.type with
  | .push =>
    match message.push with
    | some push => [.onPushReceived message.id push]
    | none => []
  | .accepted => [.onAcceptPush message.id]
  | .error => [.onError "Server error"]

/-- `onDataReceived`. -/
def onDataReceived (data : Bytes) (app : ClientApp) : ClientApp × List HandlerCall :=
  match app.protocol.feed data with
  | (some message, protocol) => ({ app with protocol := protocol }, handlerCalls message)
  | (none, protocol) => ({ app with protocol := protocol }, [])

/-- `onDataReceived` called with one chunk after the other. -/
def receiving : System ClientApp Bytes HandlerCall where
  step app data := some (app.onDataReceived data)

/-! ## The callbacks of the `TcpClient` -/

/-- What a callback does. -/
def onTcpEvent (e : TcpClient.Event) (app : ClientApp) : ClientApp × List HandlerCall :=
  match e with
  | .onConnected _ => (app, [.onConnected])
  | .onDisconnected => (app, [.onDisconnected])
  | .onReconnect => (app, [.onReconnect])
  | .onDataReceived _ data => app.onDataReceived data
  | .onDataSend length => (app, [.onDataSend length])
  | .onError message => (app, [.onError message])
  | .asyncConnect _ | .asyncWait | .asyncWrite _ | .badFunctionCall => (app, [])

/-- The callbacks invoked by a call or a handler, one after the other. -/
def deliver : List TcpClient.Event → ClientApp → ClientApp × List Event
  | [], app => (app, [])
  | e :: es, app =>
    let r := app.onTcpEvent e
    let s := deliver es r.1
    (s.1, .tcp e r.2 :: s.2)

/-- A call of the `TcpClient`, or a handler of it, with the callbacks it invokes. -/
def callTcpClient (o : Outcome TcpClient TcpClient.Event) (app : ClientApp) :
    ClientApp × List Event :=
  deliver (TcpClient.settle o).2 { app with tcpClient := (TcpClient.settle o).1 }

/-! ## The calls of the owner -/

def isConnected (app : ClientApp) : Bool := app.tcpClient.isConnected

def configure (host port : String) (app : ClientApp) : ClientApp :=
  { app with host := host, port := port }

/-- `connect`, with `configureTcpClient`. -/
def connect (resolved : Except ErrorCode (List Endpoint)) (app : ClientApp) :
    ClientApp × List Event :=
  if app.isConnected then (app, [.handler (.onError "Already connected")])
  else if app.host.isEmpty ∨ app.port.isEmpty then
    (app, [.handler (.onError "Connection params doesn't set")])
  else
    app.callTcpClient ((app.tcpClient.setEndpoint callbacks resolved).andThen TcpClient.connect)

def disconnect (r : CloseResults) (app : ClientApp) : ClientApp × List Event :=
  if app.isConnected then
    let closed := app.callTcpClient (app.tcpClient.close callbacks r)
    ({ closed.1 with userData := none }, closed.2)
  else (app, [])

def login (login password : String) (app : ClientApp) : ClientApp × List Event :=
  if app.isConnected then
    let userData := authorizeClient login password
    ({ app with userData := userData }, [.loginReturned (userData.map AuthData.role)])
  else
    (app, [.handler (.onError "First you need to connect to the server"), .loginReturned none])

def canSend (app : ClientApp) : Bool :=
  match app.userData with
  | some data => data.role = .admin
  | none => false

def sendMessage (id : UInt32) (push : Push) (app : ClientApp) : ClientApp × List Event :=
  if app.isConnected then
    if app.canSend then
      match serializeToFrame push id .push with
      | .ok frame => app.callTcpClient (app.tcpClient.asyncSend frame)
      | .error message => (app, [.threw message])
    else (app, [.handler (.onError "Only administrator can send messages")])
  else (app, [.handler (.onError "First you need to connect to the server")])

def getRole (app : ClientApp) : Option ClientRole := app.userData.map AuthData.role

/-! ## The application as a system -/

/-- What happens on the network. -/
def network (a : TcpClient.Action) (app : ClientApp) : Option (ClientApp × List Event) :=
  (TcpClient.step callbacks app.tcpClient a).map fun r ↦
    deliver r.2 { app with tcpClient := r.1 }

def step (app : ClientApp) : Action → Option (ClientApp × List Event)
  | .configure host port => some (app.configure host port, [])
  | .connect resolved => some (app.connect resolved)
  | .disconnect r => some (app.disconnect r)
  | .login login password => some (app.login login password)
  | .sendMessage id push => some (app.sendMessage id push)
  | .complete i c => app.network (.complete i c)
  | .handler i r => app.network (.handler i r)
  | .ioStop => app.network .ioStop
  | .ioRestart => app.network .ioRestart

def system : System ClientApp Action Event := ⟨step⟩

end ClientApp

end Client

end PushService
