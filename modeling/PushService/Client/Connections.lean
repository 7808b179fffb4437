import PushService.Client.Disconnecting

/-!
# One connection after the other

What belongs to the current connection is not in the members of `ClientApp`: `user_data_` and
`protocol_` live on when a connection ends and the next one begins. `ConnectionLog` is that missing
knowledge, kept up to date from the history: whether a connection is up, the chunks that were read
on it, what the event handler was told while it was up, and whether an administrator has logged in
since it was established.

`Effect` sorts the calls and handlers of the `TcpClient` by what they mean for the log.
-/

namespace PushService

namespace Client

open Protocol

/-! ## The log -/

/-- What is known of the current connection. -/
structure ConnectionLog where
  /-- A connection has been established and has not ended. -/
  established : Bool
  /-- Its number. -/
  connection : ℕ
  /-- The chunks that were read on it and handed to `onDataReceived`. -/
  chunks : List Bytes
  /-- The messages of which the event handler has been told since it was established. -/
  calls : List HandlerCall
  /-- `login` has returned `ClientRole::Admin` since it was established. -/
  adminLogin : Bool
  deriving DecidableEq, Repr

namespace ConnectionLog

def empty : ConnectionLog := ⟨false, 0, [], [], false⟩

/-- A connection ends when it is closed, and when the socket is opened for another one. -/
def record (log : ConnectionLog) : ClientApp.Event → ConnectionLog
  | .tcp (.onConnected connection) _ => ⟨true, connection, [], [], false⟩
  | .tcp .onDisconnected _ => { log with established := false }
  | .tcp (.asyncConnect (_ :: _)) _ => { log with established := false }
  | .tcp (.onDataReceived connection data) calls =>
    { log with
      chunks := if connection = log.connection then log.chunks ++ [data] else log.chunks
      calls := log.calls ++ calls }
  | .loginReturned (some .admin) => { log with adminLogin := true }
  | _ => log

end ConnectionLog

namespace TcpClient

/-! ## Events that can only end a connection -/

/-- Neither a connection nor data nor a write. -/
def Event.IsPlain : Event → Prop
  | .onConnected _ | .onDataReceived _ _ | .asyncWrite _ => False
  | _ => True

theorem Event.Incidental.isPlain {e : Event} (h : e.Incidental) : e.IsPlain := by
  cases e <;> simp_all [Event.Incidental, Event.IsPlain]

/-! ## Reads and the connection they belong to -/

/-- The socket has been opened `n` times, the pending reads were started since, and the bytes that
are waiting to be handed over come from connections that are `ok`. -/
structure ReadsOn (n : ℕ) (ok : ℕ → Prop) (c : TcpClient) : Prop where
  connection : c.connection = n
  operations : c.operations.Forall (fun op ↦ ∀ k, op = .read k → k = n)
    (fun d ↦ ∀ k data, d = .read k (.ok data) → ok k)

variable {n : ℕ} {ok : ℕ → Prop} {cb : Callbacks} {c : TcpClient}

theorem aborted_ne_data (op : Op) (k : ℕ) (data : Bytes) : op.aborted ≠ .read k (.ok data) := by
  cases op <;> simp [Op.aborted]

theorem kept_readsOn (n : ℕ) (ok : ℕ → Prop) : Kept (ReadsOn n ok) where
  lastOpSuccess _ _ h := ⟨h.1, h.2⟩
  wasConnected _ _ h := ⟨h.1, h.2⟩
  reconnectCount _ _ h := ⟨h.1, h.2⟩
  endpoints _ _ h := ⟨h.1, h.2⟩
  stopReconnect _ h := ⟨h.1, h.2⟩
  ioStopped _ _ h := ⟨h.1, h.2⟩
  abortSocket _ h := ⟨h.1, h.2.abort (fun _ _ hop ↦ hop)
    fun op _ _ k data hd ↦ absurd hd (aborted_ne_data op k data)⟩
  closeSocket _ _ h := ⟨h.1, h.2⟩
  abortTimer _ h := ⟨h.1, h.2.abort (fun _ _ hop ↦ hop)
    fun op _ _ k data hd ↦ absurd hd (aborted_ne_data op k data)⟩

theorem ReadsOn.post (h : ReadsOn n ok c) {d : Completion}
    (hd : ∀ k data, d ≠ .read k (.ok data)) :
    ReadsOn n ok { c with operations := c.operations.post d } :=
  ⟨h.1, h.2.post fun k data heq ↦ absurd heq (hd k data)⟩

theorem ReadsOn.doRead (h : ReadsOn n ok c) : ReadsOn n ok c.doRead := by
  rw [TcpClient.doRead]
  split_ifs
  · exact ⟨h.1, h.2.start fun k hk ↦ by rw [← h.1]; exact (Op.read.inj hk).symm⟩
  · exact h.post (by simp)

theorem ReadsOn.asyncSend (h : ReadsOn n ok c) (data : Bytes) :
    ReadsOn n ok (c.asyncSend data).state := by
  dsimp only [TcpClient.asyncSend, Outcome.emit]
  refine ⟨h.1, ?_⟩
  split_ifs
  · exact h.2.post (by simp)
  · exact h.2.start (by simp)
  · exact h.2.post (by simp)

theorem ReadsOn.take (h : ReadsOn n ok c) (i : ℕ) :
    ReadsOn n ok { c with operations := c.operations.take i } :=
  ⟨h.1, h.2.take i⟩

theorem ReadsOn.retry (c : TcpClient) (h : ReadsOn n ok c) :
    (if c.shouldReconnect then scheduleReconnect cb c else .done c).Satisfies (ReadsOn n ok)
      Event.IsPlain := by
  split_ifs
  · refine scheduleReconnect_satisfies (kept_readsOn n ok) (fun _ ↦ Event.Incidental.isPlain)
      (fun c h ↦ ?_) trivial h
    have haborted := (kept_readsOn n ok).abortTimer c h
    exact ⟨haborted.1, haborted.2.start (by simp)⟩
  · exact Outcome.satisfies_done h

theorem ReadsOn.mono {ok' : ℕ → Prop} (h : ReadsOn n ok c) (hok : ∀ k, ok k → ok' k) :
    ReadsOn n ok' c :=
  ⟨h.1, h.2.pending, fun d hd k data heq ↦ hok k (h.2.ready d hd k data heq)⟩

/-! ## What a call or a handler means for the log -/

/-- The reads stay on their connection. -/
def KeepsReads (c c' : TcpClient) : Prop :=
  ∀ ok : ℕ → Prop, ok c.connection → ReadsOn c.connection ok c → ReadsOn c.connection ok c'

/-- What happened between `c` and `c'`, with the events `es`. `success` is to hold if the handler of
a successful connect has run. -/
inductive Effect (success : Prop) (c c' : TcpClient) (es : List Event) : Prop
  /-- Nothing but, possibly, the end of a connection. -/
  | plain (hes : ∀ e ∈ es, e.IsPlain) (hreads : KeepsReads c c')
  /-- The socket has been opened for a new connection. -/
  | opened (endpoint : Endpoint) (endpoints : List Endpoint)
      (hes : es = [.asyncConnect (endpoint :: endpoints)])
      (hreads : ∀ ok, ReadsOn c.connection ok c → ReadsOn (c.connection + 1) ok c')
  /-- The handler of a successful connect has run. -/
  | connected (hsuccess : success) (hes : es = [.onConnected c.connection])
      (hreads : KeepsReads c c')
  /-- The handler of a successful read has run. -/
  | received (k : ℕ) (data : Bytes) (hmem : .read k (.ok data) ∈ c.operations.ready)
      (hes : es = [.onDataReceived k data]) (hreads : KeepsReads c c')

variable {success : Prop}

/-- The pending reads were started on the socket as it is open now. -/
def Tagged (c : TcpClient) : Prop := ReadsOn c.connection (fun _ ↦ True) c

theorem Tagged.asyncSend (h : Tagged c) (data : Bytes) : Tagged (c.asyncSend data).state := by
  have hr := ReadsOn.asyncSend h data
  rwa [Tagged, hr.1]

theorem Effect.tagged {c' : TcpClient} {es : List Event} (h : Effect success c c' es)
    (htag : Tagged c) : Tagged c' := by
  have hkeeps : KeepsReads c c' → Tagged c' := by
    intro hk
    have hr := hk (fun _ ↦ True) trivial htag
    rwa [Tagged, hr.1]
  cases h with
  | plain _ hr => exact hkeeps hr
  | opened _ _ _ hr =>
    have hr' := hr _ htag
    rwa [Tagged, hr'.1]
  | connected _ _ hr => exact hkeeps hr
  | received _ _ _ _ hr => exact hkeeps hr

theorem Effect.ne_asyncWrite {c' : TcpClient} {es : List Event} (h : Effect success c c' es) :
    ∀ e ∈ es, ∀ frame, e ≠ .asyncWrite frame := by
  intro e he frame heq
  subst heq
  cases h with
  | plain hes => exact hes _ he
  | opened _ _ hes => exact absurd he (by simp [hes])
  | connected _ hes => exact absurd he (by simp [hes])
  | received _ _ _ hes => exact absurd he (by simp [hes])

theorem Effect.of_satisfies {o : Outcome TcpClient Event} (htag : Tagged c)
    (h : ∀ ok, ok c.connection → ReadsOn c.connection ok c →
      o.Satisfies (ReadsOn c.connection ok) Event.IsPlain) :
    Effect success c (settle o).1 (settle o).2 := by
  have hplain : ∀ e : Event, e.Incidental → e.IsPlain := fun _ ↦ Event.Incidental.isPlain
  refine .plain (settle_satisfies (h _ trivial htag) hplain).2 fun ok hok hreads ↦ ?_
  exact (settle_satisfies (h ok hok hreads) hplain).1

theorem Effect.of_nil {c' : TcpClient} (h : KeepsReads c c') : Effect success c c' [] :=
  .plain (by simp) h

/-- The effect of starting a connect, after changes to `c` that do not concern the reads. -/
theorem effect_doConnect {c₁ : TcpClient} (hconnection : c₁.connection = c.connection)
    (hreads : KeepsReads c c₁)
    (htag : ∀ ok, ReadsOn c.connection ok c → ReadsOn c.connection ok c₁) :
    Effect success c (settle c₁.doConnect).1 (settle c₁.doConnect).2 := by
  cases hendpoints : c₁.endpoints with
  | nil =>
    rw [doConnect_nil hendpoints]
    refine .plain (by simp [settle, Outcome.emit, Event.IsPlain]) fun ok hok hr ↦ ?_
    exact ReadsOn.post (hreads ok hok hr) (by simp)
  | cons e es =>
    rw [doConnect_cons hendpoints]
    refine .opened e es rfl fun ok hr ↦ ⟨by rw [← hconnection]; rfl, ?_⟩
    -- opening the socket aborts the reads that belong to it
    refine Operations.Forall.start (Operations.Forall.abort (htag ok hr).2 ?_ ?_) (by simp)
    · intro op hsel _ k hk
      rw [hk] at hsel
      exact absurd hsel (by simp [Op.onSocket])
    · exact fun op _ _ k data hd ↦ absurd hd (aborted_ne_data op k data)

end TcpClient

namespace ClientApp

open TcpClient

variable {success : Prop} {c c' : TcpClient} {es : List TcpClient.Event}

/-- A completion leads to an effect when its handler runs. -/
theorem effect_handle (htag : Tagged c) {i : ℕ} {completion : Completion}
    (hready : c.operations.ready[i]? = some completion) (r : CloseResults)
    (hsuccess : completion = .connect none → success) :
    Effect success c
      (settle (handle callbacks completion r { c with operations := c.operations.take i })).1
      (settle (handle callbacks completion r { c with operations := c.operations.take i })).2 := by
  have hmem := List.mem_of_getElem? hready
  have hplain : ∀ e : TcpClient.Event, e.Incidental → e.IsPlain := fun _ ↦ Event.Incidental.isPlain
  rcases completion with (_ | ec) | ⟨k, ec | data⟩ | ⟨ec, length⟩ | (_ | ec)
  · refine .connected (hsuccess rfl) rfl fun ok hok hr ↦ ?_
    have hflags : ReadsOn c.connection ok
        { c with
          operations := c.operations.take i
          lastOpSuccess := true
          shouldReconnect := true
          wasConnected := true
          reconnectCount := 0 } := ⟨rfl, hr.2.take i⟩
    exact hflags.doRead
  · exact Effect.of_satisfies htag fun ok hok hr ↦
      connectHandler_error_satisfies (kept_readsOn _ ok) hplain (fun c h ↦ h.retry c) ec (hr.take i)
  · exact Effect.of_satisfies htag fun ok hok hr ↦
      readHandler_error_satisfies (kept_readsOn _ ok) hplain (fun c h ↦ h.retry c) k ec r
        (hr.take i)
  · refine .received k data hmem rfl fun ok hok hr ↦ ?_
    exact ((kept_readsOn _ ok).lastOpSuccess _ true (hr.take i)).doRead
  · exact Effect.of_satisfies htag fun ok hok hr ↦
      writeHandler_satisfies (kept_readsOn _ ok) hplain ec length (hr.take i)
  · exact effect_doConnect rfl (fun ok _ hr ↦ hr.take i) fun ok hr ↦ hr.take i
  · exact Effect.of_satisfies htag fun ok hok hr ↦ Outcome.satisfies_done (hr.take i)

/-- Something happens on the network. -/
theorem effect_network {app : ClientApp} (htag : Tagged app.tcpClient) {a : TcpClient.Action}
    (ha : a.isNetwork = true) {r : TcpClient × List TcpClient.Event}
    (hstep : TcpClient.step callbacks app.tcpClient a = some r)
    (hsuccess : ∀ i results, a = .handler i results →
      app.tcpClient.operations.ready[i]? = some (.connect none) → success) :
    Effect success app.tcpClient r.1 r.2 := by
  cases a with
  | complete i completion =>
    obtain ⟨op, hop, hcompletes, rfl⟩ := step_complete_eq_some hstep
    refine Effect.of_nil fun ok hok hr ↦ ⟨hr.1, hr.2.complete i fun k data hd ↦ ?_⟩
    -- the bytes come from the connection on which the read was started
    subst hd
    cases op with
    | read k' =>
      obtain ⟨rfl, -⟩ := hcompletes
      rwa [hr.2.pending _ (List.mem_of_getElem? hop) k' rfl]
    | _ => exact absurd hcompletes (by simp [Op.Completes])
  | handler i results =>
    obtain ⟨completion, hready, -, rfl⟩ := step_handler_eq_some hstep
    exact effect_handle htag hready results fun h ↦ hsuccess i results rfl (h ▸ hready)
  | ioStop =>
    obtain rfl := Option.some_inj.mp hstep
    exact Effect.of_nil fun ok _ hr ↦ (kept_readsOn _ ok).ioStopped _ true hr
  | ioRestart =>
    obtain rfl := Option.some_inj.mp hstep
    exact Effect.of_nil fun ok _ hr ↦ (kept_readsOn _ ok).ioStopped _ false hr
  | _ => exact absurd ha (by simp [TcpClient.Action.isNetwork])

theorem effect_close (htag : Tagged c) (r : CloseResults) :
    Effect success c (settle (close callbacks r c)).1 (settle (close callbacks r c)).2 :=
  Effect.of_satisfies htag fun ok _ hr ↦
    close_satisfies (kept_readsOn _ ok) (fun _ ↦ Event.Incidental.isPlain) r hr

theorem effect_connect (resolved : Except ErrorCode (List Endpoint)) :
    Effect success c (settle ((setEndpoint callbacks resolved c).andThen TcpClient.connect)).1
      (settle ((setEndpoint callbacks resolved c).andThen TcpClient.connect)).2 := by
  cases resolved with
  | ok endpoints =>
    have hsame : ∀ ok, ReadsOn c.connection ok c → ReadsOn c.connection ok
        { c with
          wasConnected := false
          shouldReconnect := false
          endpoints := endpoints
          lastOpSuccess := true } := fun ok hr ↦ ⟨rfl, hr.2⟩
    exact effect_doConnect rfl (fun ok _ ↦ hsame ok) hsame
  | error ec =>
    refine .plain ?_ fun ok _ hr ↦ ⟨rfl, hr.2⟩
    simp [settle, setEndpoint, invoke, callbacks, Outcome.emit, Outcome.andThen,
      TcpClient.connect, Outcome.done, TcpClient.Event.IsPlain]

/-! ## The log and the callbacks -/

theorem record_of_isPlain {e : TcpClient.Event} (he : e.IsPlain) (calls : List HandlerCall)
    (log : ConnectionLog) : ∃ b, log.record (.tcp e calls)
      = { log with established := log.established && b } := by
  cases e with
  | onConnected _ => exact absurd he (by simp [TcpClient.Event.IsPlain])
  | onDataReceived _ _ => exact absurd he (by simp [TcpClient.Event.IsPlain])
  | onDisconnected => exact ⟨false, by simp [ConnectionLog.record]⟩
  | asyncConnect endpoints =>
    cases endpoints with
    | nil => exact ⟨true, by simp [ConnectionLog.record]⟩
    | cons e es => exact ⟨false, by simp [ConnectionLog.record]⟩
  | _ => exact ⟨true, by simp [ConnectionLog.record]⟩

/-- Callbacks that are not about data leave the adapter alone. -/
theorem deliver_of_isPlain {es : List TcpClient.Event} (hes : ∀ e ∈ es, e.IsPlain)
    (app : ClientApp) (log : ConnectionLog) :
    (deliver es app).1 = app ∧ ∃ b, (deliver es app).2.foldl ConnectionLog.record log
      = { log with established := log.established && b } := by
  induction es generalizing log with
  | nil => exact ⟨rfl, true, by simp [deliver]⟩
  | cons e es ih =>
    have he := hes e List.mem_cons_self
    have happ : (app.onTcpEvent e).1 = app := by
      cases e <;> first | rfl | exact absurd he (by simp [TcpClient.Event.IsPlain])
    obtain ⟨b, hb⟩ := record_of_isPlain he (app.onTcpEvent e).2 log
    obtain ⟨hsame, b', hb'⟩ := ih (fun e h ↦ hes e (List.mem_cons_of_mem _ h))
      { log with established := log.established && b }
    rw [deliver]
    dsimp only
    rw [happ, List.foldl_cons, hb]
    exact ⟨hsame, b && b', by rw [hb', Bool.and_assoc]⟩

/-! ## What a step means for the log -/

/-- The handler of a successful connect is the one that runs. -/
def connects (app : ClientApp) : Action → Bool
  | .handler i _ =>
    match app.tcpClient.operations.ready[i]? with
    | some (.connect none) => true
    | _ => false
  | _ => false

/-- An event that does not concern the connection. -/
def Event.IsIdle : Event → Prop
  | .tcp _ _ | .loginReturned (some _) => False
  | _ => True

theorem record_loginReturned (log : ConnectionLog) (role : Option ClientRole) :
    log.record (.loginReturned role)
      = { log with adminLogin := log.adminLogin || decide (role = some .admin) } := by
  rcases role with _ | _ | _ <;> simp [ConnectionLog.record]

theorem record_of_isIdle {es : List Event} (hes : ∀ e ∈ es, e.IsIdle) (log : ConnectionLog) :
    es.foldl ConnectionLog.record log = log := by
  induction es with
  | nil => rfl
  | cons e es ih =>
    have he := hes e List.mem_cons_self
    have hlog : log.record e = log := by
      rcases e with _ | _ | (_ | _) | _ <;> first | rfl | exact absurd he (by simp [Event.IsIdle])
    rw [List.foldl_cons, hlog]
    exact ih fun e h ↦ hes e (List.mem_cons_of_mem _ h)

/-- What the application does in a step. -/
inductive Moves (app : ClientApp) (a : Action) (app' : ClientApp) (es : List Event) : Prop
  /-- The `TcpClient` is called or runs a handler, and the callbacks are delivered. -/
  | tcp (es' : List TcpClient.Event)
      (heffect : Effect (app.connects a = true) app.tcpClient app'.tcpClient es')
      (hprotocol : app'.protocol
        = (deliver es' { app with tcpClient := app'.tcpClient }).1.protocol)
      (hes : es = (deliver es' { app with tcpClient := app'.tcpClient }).2)
      (huserData : app'.userData = app.userData ∨ app'.userData = none)
  /-- `sendMessage` hands a frame to `asyncSend`. -/
  | sends (id : UInt32) (push : Push) (frame : Bytes) (ha : a = .sendMessage id push)
      (hconnected : app.isConnected = true) (hcan : app.canSend = true)
      (happ : app' = { app with tcpClient := (app.tcpClient.asyncSend frame).state })
      (hes : es = [.tcp (.asyncWrite frame) []])
  /-- `login` returns. -/
  | logsIn (userData : Option AuthData) (happ : app' = { app with userData := userData })
      (hes : es = [.loginReturned (userData.map AuthData.role)])
  /-- Nothing that concerns the connection. -/
  | idle (htcp : app'.tcpClient = app.tcpClient) (hprotocol : app'.protocol = app.protocol)
      (huserData : app'.userData = app.userData) (hes : ∀ e ∈ es, e.IsIdle)

/-- The application has not changed. -/
theorem Moves.of_idle {app app' : ClientApp} {a : Action} {es es' : List Event}
    (h : (app, es) = (app', es')) (hes : ∀ e ∈ es, e.IsIdle) : Moves app a app' es' := by
  obtain ⟨rfl, rfl⟩ := Prod.mk.inj h
  exact .idle rfl rfl rfl hes

theorem Moves.of_callTcpClient {app : ClientApp} {a : Action}
    {o : Outcome TcpClient TcpClient.Event}
    (h : Effect (app.connects a = true) app.tcpClient (settle o).1 (settle o).2) :
    Moves app a (app.callTcpClient o).1 (app.callTcpClient o).2 := by
  refine .tcp (settle o).2 ?_ ?_ ?_ (.inl ?_) <;> simp only [callTcpClient, deliver_tcpClient,
    deliver_userData]
  exact h

theorem moves_network {app : ClientApp} (htag : Tagged app.tcpClient) {a : TcpClient.Action}
    (ha : a.isNetwork = true) {r : ClientApp × List Event} (hstep : app.network a = some r) :
    Moves app (.ofTcp a) r.1 r.2 := by
  obtain ⟨s, hs, rfl⟩ := Option.map_eq_some_iff.mp hstep
  have heffect : Effect (app.connects (.ofTcp a) = true) app.tcpClient s.1 s.2 :=
    effect_network htag ha hs fun i results heq hready ↦ by
      simp [heq, Action.ofTcp, connects, hready]
  refine .tcp s.2 ?_ ?_ ?_ (.inl ?_) <;> simp only [deliver_tcpClient, deliver_userData]
  exact heffect

/-- **What a step means for the log.** -/
theorem moves_of_step {app app' : ClientApp} {a : Action} {es : List Event}
    (htag : Tagged app.tcpClient) (hstep : system.step app a = some (app', es)) :
    Moves app a app' es := by
  cases a with
  | configure host port =>
    obtain ⟨rfl, rfl⟩ := Prod.mk.inj (Option.some_inj.mp hstep)
    exact .idle rfl rfl rfl (by simp)
  | connect resolved =>
    have hconnect : app.connect resolved = (app', es) := Option.some_inj.mp hstep
    rw [ClientApp.connect] at hconnect
    split_ifs at hconnect
    · exact .of_idle hconnect (by simp [Event.IsIdle])
    · exact .of_idle hconnect (by simp [Event.IsIdle])
    · have hmoves : Moves app (.connect resolved) _ _ := .of_callTcpClient (effect_connect resolved)
      rwa [hconnect] at hmoves
  | disconnect r =>
    have hdisconnect : app.disconnect r = (app', es) := Option.some_inj.mp hstep
    rw [ClientApp.disconnect] at hdisconnect
    split_ifs at hdisconnect
    · obtain ⟨rfl, rfl⟩ := Prod.mk.inj hdisconnect
      refine .tcp (settle (close callbacks r app.tcpClient)).2 ?_ ?_ ?_ (.inr rfl) <;>
        simp only [callTcpClient, deliver_tcpClient]
      exact effect_close htag r
    · exact .of_idle hdisconnect (by simp)
  | login login password =>
    have hlogin : app.login login password = (app', es) := Option.some_inj.mp hstep
    rw [ClientApp.login] at hlogin
    split_ifs at hlogin
    · obtain ⟨rfl, rfl⟩ := Prod.mk.inj hlogin
      exact .logsIn _ rfl rfl
    · exact .of_idle hlogin (by simp [Event.IsIdle])
  | sendMessage id push =>
    have hsend : app.sendMessage id push = (app', es) := Option.some_inj.mp hstep
    rw [ClientApp.sendMessage] at hsend
    split_ifs at hsend with hconnected hcan
    · split at hsend
      · obtain ⟨rfl, rfl⟩ := Prod.mk.inj hsend
        exact .sends id push _ rfl hconnected hcan rfl rfl
      · exact .of_idle hsend (by simp [Event.IsIdle])
    · exact .of_idle hsend (by simp [Event.IsIdle])
    · exact .of_idle hsend (by simp [Event.IsIdle])
  | complete i completion => exact moves_network htag (a := .complete i completion) rfl hstep
  | handler i results => exact moves_network htag (a := .handler i results) rfl hstep
  | ioStop => exact moves_network htag (a := .ioStop) rfl hstep
  | ioRestart => exact moves_network htag (a := .ioRestart) rfl hstep

end ClientApp

end Client

end PushService
