import PushService.Client.Connections

/-!
# The administrator's rights

`canSend` looks at `user_data_`, which `login` sets and only a `disconnect` that finds
`isConnected()` true resets. A connection that is lost, and the reconnect or the `connect` after it,
leave it alone; so the role is good for the connection it was obtained on only if it is not held
when the next one is established. Even then a frame can be handed over while there is no connection,
since `isConnected()` can hold while the socket is open and still connecting.
-/

namespace PushService

namespace Client

open Protocol

/-- A connection is up, and an administrator has logged in since it was established. -/
def ConnectionLog.Authorised (log : ConnectionLog) : Prop :=
  log.established = true ∧ log.adminLogin = true

namespace ClientApp

open TcpClient

/-! ## Sending with the right to -/

/-- The event, if it hands a frame to `asyncSend`, comes when the log so far gives the right to. -/
def AuthorisedAfter (before : List Event) (e : Event) : Prop :=
  ∀ frame calls, e = .tcp (.asyncWrite frame) calls →
    ConnectionLog.Authorised (before.foldl ConnectionLog.record .empty)

/-- Every frame is handed to `asyncSend` with the right to. -/
def SendsAuthorised (h : List Event) : Prop := System.EachOutput AuthorisedAfter h

theorem SendsAuthorised.append {h es : List Event} (hh : SendsAuthorised h)
    (hes : ∀ e ∈ es, ∀ frame calls, e ≠ .tcp (.asyncWrite frame) calls) :
    SendsAuthorised (h ++ es) := by
  refine System.EachOutput.append hh fun es₁ e es₂ heq frame calls he ↦ ?_
  exact absurd he (hes e (by simp [heq]) frame calls)

def Action.isSend : Action → Bool
  | .sendMessage _ _ => true
  | _ => false

/-- The administrator's role is not held when a connection is established, and a frame is not
accepted while there is none. -/
def KeepsRights (p : ClientApp × ConnectionLog) (a : Action) : Prop :=
  (p.1.connects a = true → p.1.canSend = false) ∧
    (a.isSend = true → p.1.isConnected = true → p.1.canSend = true → p.2.established = true)

instance (p : ClientApp × ConnectionLog) (a : Action) : Decidable (KeepsRights p a) :=
  inferInstanceAs (Decidable (_ ∧ _))

/-! ## The invariant -/

/-- What holds after the history `h` of a run whose steps keep the rights. -/
structure RightsHeld (p : ClientApp × ConnectionLog) (h : List Event) : Prop where
  tagged : Tagged p.1.tcpClient
  log : p.2 = h.foldl ConnectionLog.record .empty
  admin : p.2.established = true → p.1.canSend = true → p.2.adminLogin = true
  sends : SendsAuthorised h

theorem canSend_of_userData {app app' : ClientApp}
    (h : app'.userData = app.userData ∨ app'.userData = none) (hcan : app'.canSend = true) :
    app.canSend = true := by
  rw [canSend] at hcan ⊢
  rcases h with h | h
  · rwa [h] at hcan
  · rw [h] at hcan
    exact absurd hcan (by simp)

/-- As long as no connection is established, the login stays that of the connection that is up. -/
theorem adminLogin_of_effect {success : Prop} {app : ClientApp} {c' : TcpClient}
    {es : List TcpClient.Event} {log : ConnectionLog}
    (heffect : Effect success app.tcpClient c' es) (hsuccess : ¬success)
    (hadmin : log.established = true → log.adminLogin = true)
    (hup : ((deliver es { app with tcpClient := c' }).2.foldl ConnectionLog.record log).established
      = true) :
    ((deliver es { app with tcpClient := c' }).2.foldl ConnectionLog.record log).adminLogin
      = true := by
  cases heffect with
  | plain hplain =>
    obtain ⟨-, b, hb⟩ := deliver_of_isPlain hplain { app with tcpClient := c' } log
    rw [hb] at hup ⊢
    exact hadmin (Bool.and_eq_true _ _ ▸ hup).1
  | opened e endpoints hopened =>
    subst hopened
    exact absurd hup (by simp [deliver, ConnectionLog.record])
  | connected h => exact absurd h hsuccess
  | received k data hmem hreceived =>
    subst hreceived
    exact hadmin hup

/-- One step keeps the invariant. -/
theorem RightsHeld.step {p : ClientApp × ConnectionLog} {h : List Event} {a : Action}
    {p' : ClientApp × ConnectionLog} {es : List Event} (hp : RightsHeld p h) (ha : KeepsRights p a)
    (hstep : (system.observed ConnectionLog.record).step p a = some (p', es)) :
    RightsHeld p' (h ++ es) := by
  obtain ⟨app, log⟩ := p
  obtain ⟨app', log'⟩ := p'
  obtain ⟨hstep, hlog'⟩ := System.observed_step_eq_some.mp hstep
  dsimp only at hstep hlog'
  have hlog : log' = (h ++ es).foldl ConnectionLog.record .empty := by
    rw [List.foldl_append, ← hp.log]
    exact hlog'
  cases moves_of_step hp.tagged hstep with
  | tcp es' heffect hprotocol hes huserData =>
    refine ⟨heffect.tagged hp.tagged, hlog, ?_, hp.sends.append ?_⟩
    · intro hup hcan'
      have hcan := canSend_of_userData huserData hcan'
      dsimp only at hup ⊢
      rw [hlog', hes] at hup ⊢
      -- a connection that is established now would find a role from an earlier one
      exact adminLogin_of_effect heffect (fun hsuccess ↦ by simp [ha.1 hsuccess] at hcan)
        (fun hup ↦ hp.admin hup hcan) hup
    · intro e he frame calls heq
      rw [hes] at he
      obtain ⟨e', he', calls', rfl⟩ := mem_deliver he
      exact heffect.ne_asyncWrite e' he' frame (Event.tcp.inj heq).1
  | sends id push frame hsend hconnected hcan happ hes =>
    subst hsend hes happ
    have hup := ha.2 rfl hconnected hcan
    refine ⟨TcpClient.Tagged.asyncSend hp.tagged frame, hlog, ?_,
      System.EachOutput.append hp.sends ?_⟩
    · intro _ _
      rw [hlog']
      exact hp.admin hup hcan
    · intro es₁ e es₂ heq frame' calls' _
      obtain rfl : es₁ = [] := by
        cases es₁ with
        | nil => rfl
        | cons _ _ => exact absurd heq (by simp)
      rw [List.append_nil, ← hp.log]
      exact ⟨hup, hp.admin hup hcan⟩
  | logsIn userData happ hes =>
    subst happ hes
    refine ⟨hp.tagged, hlog, ?_, hp.sends.append (by simp)⟩
    intro _ hcan
    cases userData with
    | none => exact absurd hcan (by simp [canSend])
    | some data =>
      have hrole : data.role = .admin := by simpa [canSend] using hcan
      simp [hlog', ConnectionLog.record, hrole]
  | idle htcp hprotocol huserData hes =>
    refine ⟨?_, hlog, ?_, hp.sends.append fun e he frame calls heq ↦ ?_⟩
    · rw [htcp]
      exact hp.tagged
    · intro hup hcan
      dsimp only at hup ⊢
      rw [hlog', record_of_isIdle hes] at hup ⊢
      exact hp.admin hup (canSend_of_userData (.inl huserData) hcan)
    · subst heq
      exact hes _ he

/-! ## Whole runs -/

theorem rightsHeld_init : RightsHeld (init, .empty) [] where
  tagged := ⟨rfl, Operations.forall_empty⟩
  log := rfl
  admin h := absurd h (by simp [ConnectionLog.empty])
  sends := System.eachOutput_nil

/-- **Rights and connections.** In every run in which the administrator's role is never held when a
connection is established and no frame is accepted while there is none, every frame handed to
`asyncSend` is covered by a login of an administrator on the connection that is up. -/
theorem sends_authorised :
    ∀ as app h, system.run init as = some (app, h) →
      (system.observed ConnectionLog.record).Obeys KeepsRights (init, .empty) as →
        SendsAuthorised h := by
  intro as app h hrun hkeeps
  have hobserved := System.run_observed_of_run ConnectionLog.record .empty hrun
  exact (System.run_induction (I := RightsHeld) (fun hp ha hst ↦ hp.step ha hst) rightsHeld_init
    hkeeps hobserved).sends

/-- An empty push. -/
def samplePush : Push := ⟨.normal, .notification, .source1, []⟩

/-- The administrator sends on the connection on which the login was. -/
theorem sends_authorised_loginRun :
    ∃ app h, system.run init (loginRun ++ [.sendMessage 1 samplePush]) = some (app, h) ∧
      SendsAuthorised h :=
  ⟨_, _, rfl, sends_authorised (loginRun ++ [.sendMessage 1 samplePush]) _ _ rfl (by decide)⟩

/-- The connection is lost, and the client reconnects. -/
def rejoinRun : List Action :=
  backOffRun ++
    [.complete 0 (.wait none), .handler 0 .ok, .complete 0 (.connect none), .handler 0 .ok]

/-- On the second connection nobody has logged in, and the frame is sent. -/
theorem not_sends_authorised :
    ¬∀ as app h, system.run init as = some (app, h) → SendsAuthorised h := by
  intro hall
  have hsends := hall (rejoinRun ++ [.sendMessage 1 samplePush]) _ _
    (System.run_append_eq_some.mpr ⟨_, _, _, rfl, rfl, rfl⟩)
  have hauthorised := hsends _ _ [] rfl _ _ rfl
  exact absurd hauthorised.2 (by decide)

end ClientApp

end Client

end PushService
