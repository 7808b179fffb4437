import PushService.Client.Connections
import PushService.Client.Delivery

/-!
# Isolation of connections

The adapter is constructed once, and only a frame it rejects clears its buffer; no end of a
connection does. What the event handler is told on a connection is a function of the bytes that
were received on it if nothing is left over from before: no bytes in the buffer when the connection
is established, and none in a read whose handler has not run.
-/

namespace PushService

namespace Client

open Protocol

/-- The completed read has bytes to hand over. -/
def Completion.isData : Completion → Bool
  | read _ (.ok _) => true
  | _ => false

/-- What the event handler is told when a new adapter is fed with the chunks. -/
def callsFor (chunks : List Bytes) : List HandlerCall :=
  match ProtocolAdapter.feeding.run {} chunks with
  | some (_, messages) => messages.flatMap ClientApp.handlerCalls
  | none => []

theorem callsFor_eq {chunks : List Bytes} {protocol : ProtocolAdapter}
    {messages : List DecodedMessage}
    (h : ProtocolAdapter.feeding.run {} chunks = some (protocol, messages)) :
    callsFor chunks = messages.flatMap ClientApp.handlerCalls := by
  rw [callsFor, h]

/-- The adapter is in the state in which a new one is after the chunks of the connection, and the
event handler has been told what it would have been told. -/
def ConnectionLog.Explains (log : ConnectionLog) (protocol : ProtocolAdapter) : Prop :=
  ∃ messages, ProtocolAdapter.feeding.run {} log.chunks = some (protocol, messages) ∧
    log.calls = messages.flatMap ClientApp.handlerCalls

theorem ConnectionLog.Explains.feed {log : ConnectionLog} {protocol : ProtocolAdapter}
    (h : log.Explains protocol) (data : Bytes) :
    ConnectionLog.Explains
      { log with
        chunks := log.chunks ++ [data]
        calls := log.calls ++ (protocol.feed data).1.toList.flatMap ClientApp.handlerCalls }
      (protocol.feed data).2 := by
  obtain ⟨messages, hrun, hcalls⟩ := h
  refine ⟨messages ++ (protocol.feed data).1.toList, ?_, ?_⟩
  · exact System.run_append_eq_some.mpr ⟨_, _, _, hrun, System.run_singleton rfl, rfl⟩
  · rw [hcalls, List.flatMap_append]

namespace ClientApp

open TcpClient

/-- When a connection is established, nothing is left over from before. -/
def StartsClean (app : ClientApp) (a : Action) : Prop :=
  app.connects a = true →
    app.protocol.buffer = [] ∧ ∀ d ∈ app.tcpClient.operations.ready, d.isData = false

instance (app : ClientApp) (a : Action) : Decidable (app.StartsClean a) :=
  inferInstanceAs (Decidable (_ → _))

/-! ## The invariant -/

/-- While a connection is up, the reads are on it and it explains the state of the adapter. -/
structure Isolated (p : ClientApp × ConnectionLog) : Prop where
  reads : ReadsOn p.1.tcpClient.connection
    (fun k ↦ p.2.established = true → k = p.1.tcpClient.connection) p.1.tcpClient
  current : p.2.established = true → p.2.connection = p.1.tcpClient.connection
  explains : p.2.established = true → p.2.Explains p.1.protocol

theorem Isolated.tagged {p : ClientApp × ConnectionLog} (h : Isolated p) : Tagged p.1.tcpClient :=
  h.reads.mono fun _ _ ↦ trivial

/-- The invariant after a step in which the reads stay on their connection. -/
theorem Isolated.of_keepsReads {p p' : ClientApp × ConnectionLog} (h : Isolated p)
    (hkeeps : KeepsReads p.1.tcpClient p'.1.tcpClient)
    (hup : p'.2.established = true → p.2.established = true)
    (hcurrent : p'.2.connection = p.2.connection)
    (hexplains : p'.2.established = true → p'.2.Explains p'.1.protocol) : Isolated p' := by
  have hreads := hkeeps _ (fun _ ↦ rfl) h.reads
  refine ⟨?_, fun hup' ↦ ?_, hexplains⟩
  · rw [hreads.1]
    exact hreads.mono fun k hk hup' ↦ hk (hup hup')
  · rw [hcurrent, hreads.1]
    exact h.current (hup hup')

/-- The invariant after a call or a handler of the `TcpClient`. -/
theorem Isolated.of_effect {app app' : ClientApp} {log : ConnectionLog} {a : Action}
    {es : List TcpClient.Event} (hp : Isolated (app, log)) (ha : app.StartsClean a)
    (heffect : Effect (app.connects a = true) app.tcpClient app'.tcpClient es)
    (hprotocol : app'.protocol
      = (deliver es { app with tcpClient := app'.tcpClient }).1.protocol) :
    Isolated (app', (deliver es { app with tcpClient := app'.tcpClient }).2.foldl
      ConnectionLog.record log) := by
  cases heffect with
  | plain hplain hkeeps =>
    obtain ⟨hsame, b, hb⟩ := deliver_of_isPlain hplain { app with tcpClient := app'.tcpClient } log
    rw [hb]
    rw [hsame] at hprotocol
    have hup : (log.established && b) = true → log.established = true := fun h ↦
      (Bool.and_eq_true _ _ ▸ h).1
    refine hp.of_keepsReads hkeeps hup rfl fun h ↦ ?_
    dsimp only
    rw [hprotocol]
    exact hp.explains (hup h)
  | opened e endpoints hopened hreads =>
    subst hopened
    -- nothing is claimed while there is no connection
    have hr := hreads _ hp.tagged
    refine ⟨?_, fun h ↦ absurd h (by simp [deliver, ConnectionLog.record]),
      fun h ↦ absurd h (by simp [deliver, ConnectionLog.record])⟩
    dsimp only
    rw [hr.1]
    exact hr.mono fun _ _ h ↦ absurd h (by simp [deliver, ConnectionLog.record])
  | connected hsuccess hconnected hkeeps =>
    subst hconnected
    obtain ⟨hbuffer, hready⟩ := ha hsuccess
    have hclean : ReadsOn app.tcpClient.connection (· = app.tcpClient.connection) app.tcpClient :=
      ⟨rfl, hp.reads.2.pending, fun d hd k data heq ↦
        absurd (hready d hd) (by simp [heq, Completion.isData])⟩
    have hr := hkeeps (· = app.tcpClient.connection) rfl hclean
    refine ⟨?_, fun _ ↦ hr.1.symm, fun _ ↦ ⟨[], ?_, rfl⟩⟩
    · dsimp only
      rw [hr.1]
      exact hr.mono fun _ h _ ↦ h
    · have hprotocol' : app'.protocol = app.protocol := hprotocol
      dsimp only
      rw [hprotocol', show app.protocol = {} from congrArg ProtocolAdapter.mk hbuffer]
      rfl
  | received k data hmem hreceived hkeeps =>
    subst hreceived
    refine hp.of_keepsReads hkeeps (fun h ↦ h) rfl fun h ↦ ?_
    -- the bytes come from the connection that is up
    have hk : k = log.connection := by
      rw [hp.current h]
      exact hp.reads.2.ready _ hmem k data rfl h
    have hfeed := (hp.explains h).feed data
    simpa [hprotocol, deliver, onTcpEvent, onDataReceived_eq, ConnectionLog.record, hk] using hfeed

/-- One step keeps the invariant. -/
theorem Isolated.step {p p' : ClientApp × ConnectionLog} {a : Action} {es : List Event}
    (hp : Isolated p) (ha : p.1.StartsClean a)
    (hstep : (system.observed ConnectionLog.record).step p a = some (p', es)) : Isolated p' := by
  obtain ⟨app, log⟩ := p
  obtain ⟨app', log'⟩ := p'
  obtain ⟨hstep, hlog'⟩ := System.observed_step_eq_some.mp hstep
  dsimp only at hstep hlog'
  cases moves_of_step hp.tagged hstep with
  | tcp es' heffect hprotocol hes huserData =>
    rw [hes] at hlog'
    rw [hlog']
    exact hp.of_effect ha heffect hprotocol
  | sends id push frame hsend hconnected hcan happ hes =>
    subst happ hes hlog'
    exact hp.of_keepsReads (fun ok _ hr ↦ hr.asyncSend frame) (fun h ↦ h) rfl hp.explains
  | logsIn userData happ hes =>
    rw [hes, List.foldl_cons, List.foldl_nil, record_loginReturned] at hlog'
    subst happ hlog'
    exact hp.of_keepsReads (fun ok _ hr ↦ hr) (fun h ↦ h) rfl hp.explains
  | idle htcp hprotocol huserData hes =>
    rw [record_of_isIdle hes] at hlog'
    subst hlog'
    refine hp.of_keepsReads (fun ok _ hr ↦ ?_) id rfl fun h ↦ ?_
    · rwa [htcp]
    · dsimp only
      rw [hprotocol]
      exact hp.explains h

/-! ## Whole runs -/

theorem isolated_init : Isolated (init, .empty) where
  reads := ⟨rfl, Operations.forall_empty⟩
  current h := absurd h (by simp [ConnectionLog.empty])
  explains h := absurd h (by simp [ConnectionLog.empty])

/-- What the event handler has been told while the connection is up is a function of the chunks that
were received on it. -/
def ConnectionIsolated (h : List Event) : Prop :=
  let log := h.foldl ConnectionLog.record .empty
  log.established = true → log.calls = callsFor log.chunks

/-- **Isolation of connections.** In every run in which nothing is left over when a connection is
established, what the event handler is told on a connection depends on that connection alone. -/
theorem connections_isolated :
    ∀ as app h, system.run init as = some (app, h) → system.Obeys StartsClean init as →
      ConnectionIsolated h := by
  intro as app h hrun hclean hup
  have hobserved := System.run_observed_of_run ConnectionLog.record .empty hrun
  have hobeys : (system.observed ConnectionLog.record).Obeys (fun p a ↦ p.1.StartsClean a)
      (init, .empty) as := (System.isView_observed system ConnectionLog.record).obeys.mp hclean
  have hisolated := System.run_induction (I := fun p _ ↦ Isolated p)
    (fun hp ha hst ↦ hp.step ha hst) isolated_init (h := []) hobeys hobserved
  obtain ⟨messages, hfeeding, hcalls⟩ := hisolated.explains hup
  rw [hcalls, callsFor_eq hfeeding]

/-- The frame of an acceptance. -/
def acceptedFrame : Bytes := [0, 0, 0, 12, 0, 0, 0, 7, 2, 0, 0, 0, 0, 0, 0, 0]

/-- The client connects, receives `first`, loses the connection, reconnects, and receives
`second`. -/
def twoConnections (first second : Bytes) : List Action :=
  [.configure "localhost" "8080", .connect (.ok [⟨"127.0.0.1", 8080⟩]), .complete 0 (.connect none),
    .handler 0 .ok, .complete 0 (.read 1 (.ok first)), .handler 0 .ok,
    .complete 0 (.read 1 (.error (.other "End of file"))), .handler 0 .ok,
    .complete 0 (.wait none), .handler 0 .ok, .complete 0 (.connect none), .handler 0 .ok,
    .complete 0 (.read 2 (.ok second)), .handler 0 .ok]

theorem connections_isolated_twoConnections :
    ∃ app h, system.run init (twoConnections acceptedFrame acceptedFrame) = some (app, h) ∧
      ConnectionIsolated h :=
  ⟨_, _, rfl, connections_isolated (twoConnections acceptedFrame acceptedFrame) _ _ rfl (by decide)⟩

/-- The first connection is lost in the middle of a frame, and the frame on the second is read
together with the rest. -/
theorem not_connections_isolated :
    serializeToFrame ⟨.normal, .notification, .source1, []⟩ 7 .accepted = .ok acceptedFrame ∧
      ∃ app h, system.run init (twoConnections (acceptedFrame.take 6) acceptedFrame)
        = some (app, h) ∧ ¬ConnectionIsolated h := by
  refine ⟨rfl, _, _, rfl, fun hisolated ↦ ?_⟩
  exact absurd (hisolated rfl) (by decide)

end ClientApp

end Client

end PushService
