import PushService.Client.ClientApp
import PushService.Client.Closing

/-!
# What `disconnect` leaves behind

`ClientApp::disconnect` does nothing unless `isConnected()` holds, which asks for an open socket, a
running `io_context` and the success of whatever network operation completed last. In all other
states the role is kept and the reconnect cycle goes on, so that the user is only heeded if neither
was there in the first place (`disconnect_honoured_iff`).
-/

namespace PushService

namespace Client

def Op.isRead : Op → Bool
  | read _ => true
  | _ => false

namespace ClientApp

/-- A new attempt to connect. -/
def Event.isAttempt : Event → Bool
  | .tcp e _ => e.isAttempt
  | _ => false

/-- Something that happens without a call of the owner. -/
def Action.isNetwork : Action → Bool
  | .complete _ _ | .handler _ _ | .ioStop | .ioRestart => true
  | _ => false

/-- Anything but a call of `connect` or `login`. -/
def Action.isPassive : Action → Bool
  | .connect _ | .login _ _ => false
  | _ => true

/-! ## What the callbacks do -/

theorem onTcpEvent_frame (e : TcpClient.Event) (app : ClientApp) :
    (app.onTcpEvent e).1 = { app with protocol := (app.onTcpEvent e).1.protocol } := by
  cases e with
  | onDataReceived connection data =>
    rw [onTcpEvent, onDataReceived]
    split <;> rfl
  | _ => rfl

/-- The callbacks change nothing but the protocol adapter. -/
theorem deliver_frame (es : List TcpClient.Event) (app : ClientApp) :
    (deliver es app).1 = { app with protocol := (deliver es app).1.protocol } := by
  induction es generalizing app with
  | nil => rfl
  | cons e es ih =>
    rw [deliver]
    dsimp only
    rw [ih, onTcpEvent_frame]

@[simp] theorem deliver_tcpClient (es : List TcpClient.Event) (app : ClientApp) :
    (deliver es app).1.tcpClient = app.tcpClient := by
  rw [deliver_frame]

@[simp] theorem deliver_userData (es : List TcpClient.Event) (app : ClientApp) :
    (deliver es app).1.userData = app.userData := by
  rw [deliver_frame]

/-- What the application does in the callbacks is recorded with the event that invoked them. -/
theorem mem_deliver {es : List TcpClient.Event} {app : ClientApp} {e' : Event}
    (h : e' ∈ (deliver es app).2) : ∃ e ∈ es, ∃ calls, e' = .tcp e calls := by
  induction es generalizing app with
  | nil => exact absurd h (by simp [deliver])
  | cons e es ih =>
    rw [deliver] at h
    rcases List.mem_cons.mp h with rfl | h
    · exact ⟨e, List.mem_cons_self, _, rfl⟩
    · obtain ⟨e, he, calls, rfl⟩ := ih h
      exact ⟨e, List.mem_cons_of_mem _ he, calls, rfl⟩

theorem exists_mem_deliver {es : List TcpClient.Event} {e : TcpClient.Event} (he : e ∈ es)
    (app : ClientApp) : ∃ calls, Event.tcp e calls ∈ (deliver es app).2 := by
  induction es generalizing app with
  | nil => exact absurd he (by simp)
  | cons e' es ih =>
    rw [deliver]
    rcases List.mem_cons.mp he with rfl | he
    · exact ⟨_, List.mem_cons_self⟩
    · obtain ⟨calls, hmem⟩ := ih he (app.onTcpEvent e').1
      exact ⟨calls, List.mem_cons_of_mem _ hmem⟩

/-! ## Runs of the network -/

/-- The same thing, happening to the application. -/
def Action.ofTcp : TcpClient.Action → Action
  | .complete i c => .complete i c
  | .handler i r => .handler i r
  | .ioRestart => .ioRestart
  | _ => .ioStop

theorem step_ofTcp {a : TcpClient.Action} (ha : a.isNetwork = true) (app : ClientApp) :
    system.step app (.ofTcp a) = app.network a := by
  cases a <;> first | rfl | exact absurd ha (by simp [TcpClient.Action.isNetwork])

theorem isNetwork_ofTcp (a : TcpClient.Action) : (Action.ofTcp a).isNetwork = true := by
  cases a <;> rfl

/-- What the `TcpClient` may come to, left alone, the application may come to. -/
theorem mayAttempt_of_tcpClient {app : ClientApp}
    (h : TcpClient.MayAttempt callbacks app.tcpClient) :
    system.Emits (fun a ↦ a.isNetwork = true) (fun e ↦ e.isAttempt = true) app := by
  obtain ⟨as, c, es, hnetwork, hrun, e, he, hattempt⟩ := h
  induction as generalizing app es with
  | nil =>
    obtain ⟨rfl, rfl⟩ : app.tcpClient = c ∧ [] = es := by simpa using hrun
    exact absurd he (by simp)
  | cons a as ih =>
    obtain ⟨c₁, es₁, fs, hstep, hrest, rfl⟩ := System.run_cons_eq_some.mp hrun
    have ha := hnetwork a List.mem_cons_self
    have hstep' : system.step app (.ofTcp a)
        = some (deliver es₁ { app with tcpClient := c₁ }) := by
      rw [step_ofTcp ha, network, show TcpClient.step callbacks app.tcpClient a = _ from hstep]
      rfl
    rcases List.mem_append.mp he with he | he
    · obtain ⟨calls, hmem⟩ := exists_mem_deliver he { app with tcpClient := c₁ }
      exact System.emits_now (isNetwork_ofTcp a) hstep' hmem hattempt
    · refine System.Emits.of_step (isNetwork_ofTcp a) hstep'
        (ih fs (fun b hb ↦ hnetwork b (List.mem_cons_of_mem a hb)) ?_ he)
      simpa using hrest

/-! ## Quiet applications -/

/-- There is no role, and the client will not come to a connect by itself. -/
structure Quiet (app : ClientApp) : Prop where
  userData : app.userData = none
  tcpClient : TcpClient.Settled app.tcpClient ∨ TcpClient.Dormant app.tcpClient

theorem deliver_not_attempt {es : List TcpClient.Event} (h : ∀ e ∈ es, e.restarts = false)
    (app : ClientApp) : ∀ e ∈ (deliver es app).2, e.isAttempt = false := by
  intro e' he'
  obtain ⟨e, he, calls, rfl⟩ := mem_deliver he'
  have hno := h e he
  cases e <;> simp_all [Event.isAttempt, TcpClient.Event.isAttempt, TcpClient.Event.restarts]

/-- No call and no handler of the `TcpClient` but `connect` disturbs the quiet. -/
theorem Quiet.deliver {app : ClientApp} (h : app.Quiet) {a : TcpClient.Action} (ha : a ≠ .connect)
    {r : TcpClient × List TcpClient.Event}
    (hstep : TcpClient.step callbacks app.tcpClient a = some r) :
    (ClientApp.deliver r.2 { app with tcpClient := r.1 }).1.Quiet ∧
      ∀ e ∈ (ClientApp.deliver r.2 { app with tcpClient := r.1 }).2, e.isAttempt = false := by
  have hkeeps : (TcpClient.Settled r.1 ∨ TcpClient.Dormant r.1) ∧
      ∀ e ∈ r.2, e.restarts = false := by
    rcases h.tcpClient with hs | hd
    · exact (hs.step ha hstep).imp_left fun h ↦ .inl h.1
    · exact (hd.step ha hstep).imp_left .inr
  exact ⟨⟨by simp [h.userData], by simpa using hkeeps.1⟩, deliver_not_attempt hkeeps.2 _⟩

theorem Quiet.disconnect {app : ClientApp} (h : app.Quiet) (r : CloseResults) :
    (app.disconnect r).1.Quiet ∧ ∀ e ∈ (app.disconnect r).2, e.isAttempt = false := by
  rw [ClientApp.disconnect]
  split_ifs
  · obtain ⟨hquiet, hevents⟩ := h.deliver (a := .close r) (by simp) rfl
    exact ⟨⟨rfl, hquiet.tcpClient⟩, hevents⟩
  · exact ⟨h, by simp⟩

theorem Quiet.sendMessage {app : ClientApp} (h : app.Quiet) (id : UInt32) (push : Push) :
    (app.sendMessage id push).1.Quiet ∧ ∀ e ∈ (app.sendMessage id push).2, e.isAttempt = false := by
  rw [ClientApp.sendMessage]
  split_ifs
  · split
    · exact h.deliver (a := .asyncSend _) (by simp) rfl
    · exact ⟨h, by simp [Event.isAttempt]⟩
  · exact ⟨h, by simp [Event.isAttempt]⟩
  · exact ⟨h, by simp [Event.isAttempt]⟩

theorem Quiet.network {app : ClientApp} (h : app.Quiet) {a : TcpClient.Action} (ha : a ≠ .connect)
    {r : ClientApp × List Event} (hstep : app.network a = some r) :
    r.1.Quiet ∧ ∀ e ∈ r.2, e.isAttempt = false := by
  obtain ⟨s, hs, rfl⟩ := Option.map_eq_some_iff.mp hstep
  exact h.deliver ha hs

/-- A quiet application stays quiet until `connect` or `login` is called. -/
theorem Quiet.step {app : ClientApp} {a : Action} {r : ClientApp × List Event} (h : app.Quiet)
    (ha : a.isPassive = true) (hstep : system.step app a = some r) :
    r.1.Quiet ∧ ∀ e ∈ r.2, e.isAttempt = false := by
  cases a with
  | configure host port =>
    obtain rfl := Option.some_inj.mp hstep
    exact ⟨⟨h.userData, h.tcpClient⟩, by simp⟩
  | connect resolved => exact absurd ha (by simp [Action.isPassive])
  | disconnect results =>
    obtain rfl := Option.some_inj.mp hstep
    exact h.disconnect results
  | login login password => exact absurd ha (by simp [Action.isPassive])
  | sendMessage id push =>
    obtain rfl := Option.some_inj.mp hstep
    exact h.sendMessage id push
  | complete i c => exact h.network (a := .complete i c) (by simp) hstep
  | handler i results => exact h.network (a := .handler i results) (by simp) hstep
  | ioStop => exact h.network (a := .ioStop) (by simp) hstep
  | ioRestart => exact h.network (a := .ioRestart) (by simp) hstep

/-! ## Disconnecting -/

/-- Whatever happens after this `disconnect`, there is no role and no connect is started until
`connect` or `login` is called again. -/
def DisconnectHonoured (app : ClientApp) (r : CloseResults) : Prop :=
  ∀ bs app' h, (∀ b ∈ bs, b.isPassive = true) →
    system.run app (.disconnect r :: bs) = some (app', h) →
      app'.getRole = none ∧ ∀ e ∈ h, e.isAttempt = false

/-- The client is connected, or there is nothing to give up: no role, no connect and no reconnect
timer under way, and no read whose failure would lead to a reconnect. -/
def CanDisconnect (app : ClientApp) : Prop :=
  app.isConnected = true ∨
    (app.userData = none ∧ Op.connect ∉ app.tcpClient.operations.pending ∧
      Op.wait ∉ app.tcpClient.operations.pending ∧
      (app.tcpClient.shouldReconnect = true →
        ∀ op ∈ app.tcpClient.operations.pending, op.isRead = false))

instance (app : ClientApp) : Decidable app.CanDisconnect :=
  inferInstanceAs (Decidable (_ ∨ _))

theorem not_throws (r : CloseResults) : ¬TcpClient.Throws callbacks r :=
  fun h ↦ absurd h.1 (by simp [callbacks])

/-- A `disconnect` that can be honoured leaves a quiet application behind. -/
theorem CanDisconnect.quiet {app : ClientApp} (h : app.CanDisconnect)
    (hready : app.tcpClient.operations.ready = []) (r : CloseResults) :
    (app.disconnect r).1.Quiet ∧ ∀ e ∈ (app.disconnect r).2, e.isAttempt = false := by
  have hnone : ∀ d ∈ app.tcpClient.operations.ready, d.starts = false := by simp [hready]
  by_cases hconnected : app.isConnected = true
  · have hgood : TcpClient.ClosesForGood callbacks r app.tcpClient :=
      ⟨hnone, fun ht ↦ absurd ht (not_throws r), fun ht ↦ absurd ht (not_throws r)⟩
    rw [ClientApp.disconnect, if_pos hconnected, callTcpClient]
    refine ⟨⟨rfl, .inl ?_⟩, deliver_not_attempt (TcpClient.close_not_restarts r _) _⟩
    simpa using hgood.settled
  · obtain ⟨hrole, hconnect, hwait, hread⟩ := h.resolve_left hconnected
    refine Quiet.disconnect ⟨hrole, ?_⟩ r
    by_cases hreconnect : app.tcpClient.shouldReconnect = true
    · refine .inr ⟨fun op hop ↦ ?_, by simp [hready]⟩
      have hnotread := hread hreconnect op hop
      cases op with
      | connect => exact absurd hop hconnect
      | read connection => exact absurd hnotread (by simp [Op.isRead])
      | write call size => exact ⟨call, size, rfl⟩
      | wait => exact absurd hop hwait
    · refine .inl ⟨by simpa using hreconnect, fun op hop ↦ ?_, hnone⟩
      cases op with
      | connect => exact absurd hop hconnect
      | read connection => rfl
      | write call size => rfl
      | wait => exact absurd hop hwait

/-- A `disconnect` that cannot be honoured leaves the role or the way to a connect in place. -/
theorem not_honoured_of_not_canDisconnect {app : ClientApp} (h : ¬app.CanDisconnect)
    (r : CloseResults) : ¬app.DisconnectHonoured r := by
  intro hhonoured
  obtain ⟨hconnected, hgive⟩ := not_or.mp h
  have hnothing : app.disconnect r = (app, []) := by rw [ClientApp.disconnect, if_neg hconnected]
  have hrun : ∀ {bs app' es}, system.run app bs = some (app', es) →
      system.run app (.disconnect r :: bs) = some (app', es) := fun hrun ↦
    System.run_cons_eq_some.mpr ⟨app, [], _, congrArg some hnothing, hrun, rfl⟩
  have hrole : app.userData = none :=
    Option.map_eq_none_iff.mp (hhonoured [] app [] (by simp) (hrun rfl)).1
  have hattempt : TcpClient.MayAttempt callbacks app.tcpClient := by
    by_contra hno
    refine hgive ⟨hrole, fun hop ↦ hno (TcpClient.attempts_of_connect hop),
      fun hop ↦ hno (TcpClient.attempts_of_wait hop), fun hreconnect op hop ↦ ?_⟩
    cases op with
    | read connection => exact absurd (TcpClient.attempts_of_read hreconnect hop) hno
    | _ => rfl
  obtain ⟨bs, app', es, hnetwork, hbs, e, he, hisAttempt⟩ := mayAttempt_of_tcpClient hattempt
  have hpassive : ∀ b ∈ bs, b.isPassive = true := by
    intro b hb
    have := hnetwork b hb
    cases b <;> simp_all [Action.isNetwork, Action.isPassive]
  have hbad := (hhonoured bs app' es hpassive (hrun hbs)).2 e he
  rw [hisAttempt] at hbad
  exact absurd hbad (by simp)

/-- **When `disconnect` is honoured.** At every point of every run at which no handler is waiting,
`disconnect` is honoured if and only if the client is connected or has nothing to give up. -/
theorem disconnect_honoured_iff :
    ∀ as app h, system.run init as = some (app, h) → app.tcpClient.operations.ready = [] →
      ∀ r, app.DisconnectHonoured r ↔ app.CanDisconnect := by
  intro as app h _ hready r
  constructor
  · intro hhonoured
    by_contra hnot
    exact not_honoured_of_not_canDisconnect hnot r hhonoured
  · intro hcan bs app' es hpassive hrun
    obtain ⟨app₁, es₁, fs, hstep, hrest, rfl⟩ := System.run_cons_eq_some.mp hrun
    obtain ⟨hquiet, hevents⟩ := hcan.quiet hready r
    rw [show app.disconnect r = (app₁, es₁) from Option.some_inj.mp hstep] at hquiet hevents
    have hkept := System.run_outputs (C := fun _ a ↦ a.isPassive = true) (I := Quiet)
      (fun hq ha hs ↦ hq.step ha hs) hquiet (System.obeys_of_forall hpassive) hrest
    refine ⟨by rw [getRole, hkept.1.userData, Option.map_none], fun e he ↦ ?_⟩
    rcases List.mem_append.mp he with he | he
    · exact hevents e he
    · exact hkept.2 e he

/-! ### Two runs -/

/-- The client connects, and the user logs in. -/
def loginRun : List Action :=
  [.configure "localhost" "8080", .connect (.ok [⟨"127.0.0.1", 8080⟩]), .complete 0 (.connect none),
    .handler 0 .ok, .login "admin" "admin"]

/-- The connection is lost, and the client waits for the reconnect timer. -/
def backOffRun : List Action :=
  loginRun ++ [.complete 0 (.read 1 (.error (.other "End of file"))), .handler 0 .ok]

theorem disconnect_honoured_loginRun :
    ∃ app h, system.run init loginRun = some (app, h) ∧ app.DisconnectHonoured .ok :=
  ⟨_, _, rfl, (disconnect_honoured_iff loginRun _ _ rfl rfl .ok).mpr (by decide)⟩

/-- After the `disconnect` the administrator's role is still there. -/
theorem not_disconnect_honoured :
    ¬∀ as app h, system.run init as = some (app, h) → app.tcpClient.operations.ready = [] →
      ∀ r, app.DisconnectHonoured r := by
  intro hall
  have hhonoured := hall backOffRun _ _ rfl rfl .ok [] _ _ (by simp) rfl
  exact absurd hhonoured.1 (by decide)

end ClientApp

end Client

end PushService
