import PushService.Client.Disconnecting

/-!
# What the event handler is told of the connection

The event handler is told of a connection when the handler of a connect succeeds, and of its end
when `closeConnection` runs. In between there is exactly one read, pending or completed, which has
not been aborted: it is what notices that the connection has ended. `liveReads` counts these reads.

The notifications alternate as long as this read and the connection stay together (`Interferes` says
how they can part). Opening the socket anew aborts the read, and nobody reports the end; a `close`
cannot take back a read that has completed, and the end is reported again; and closing without a
read reports the end of a connection that there never was.
-/

namespace PushService

namespace Client

open Protocol

/-! ## Alternating notifications -/

/-- The notifications `bs` alternate and lead from `up` to `up'`. -/
def Alternates : Bool → List Bool → Bool → Prop
  | up, [], up' => up' = up
  | up, b :: bs, up' => b = !up ∧ Alternates b bs up'

theorem Alternates.append {up up' up'' : Bool} {bs cs : List Bool} (h : Alternates up bs up')
    (h' : Alternates up' cs up'') : Alternates up (bs ++ cs) up'' := by
  induction bs generalizing up with
  | nil =>
    obtain rfl : up' = up := h
    exact h'
  | cons b bs ih => exact ⟨h.1, ih h.2⟩

/-- The read, when completed, has not been aborted. -/
def Completion.isLiveRead : Completion → Bool
  | read _ (.error .operationAborted) => false
  | read _ _ => true
  | _ => false

theorem Op.completes_isLiveRead {op : Op} {d : Completion} (h : op.Completes d) :
    d.isLiveRead = op.isRead := by
  cases op <;> rcases d with _ | ⟨_, (_ | _) | _⟩ | ⟨_ | _, _⟩ | _ <;>
    simp_all [Op.Completes, Completion.isLiveRead, Op.isRead]

theorem isLiveRead_aborted (op : Op) : op.aborted.isLiveRead = false := by
  cases op <;> rfl

namespace TcpClient

/-- What the event handler is told: that there is a connection, or that it has ended. -/
def Event.report : Event → Option Bool
  | .onConnected _ => some true
  | .onDisconnected => some false
  | _ => none

/-- The reads that are pending or have completed without being aborted. -/
def liveReads (c : TcpClient) : ℕ := c.operations.count Op.isRead Completion.isLiveRead

def readPending (c : TcpClient) : Bool := c.operations.pending.any Op.isRead

variable {c c' : TcpClient} {es : List Event}

/-! ## Reads -/

theorem liveReads_doRead (c : TcpClient) : c.doRead.liveReads = c.liveReads + 1 := by
  rw [doRead]
  split_ifs
  · exact Operations.count_start ..
  · exact Operations.count_post ..

/-- Aborting the reads leaves those that have completed. -/
theorem liveReads_abortSocket (c : TcpClient) :
    c.abortSocket.liveReads = c.operations.ready.countP Completion.isLiveRead :=
  Operations.count_abort_of_lost _ (fun op hop ↦ by
      cases op with
      | read connection => rfl
      | _ => exact absurd hop (by simp [Op.isRead]))
    fun op _ ↦ isLiveRead_aborted op

theorem liveReads_abortTimer (c : TcpClient) : c.abortTimer.liveReads = c.liveReads :=
  Operations.count_abort _ fun op hop ↦ by
    cases op with
    | wait => rfl
    | _ => exact absurd hop (by simp [Op.onTimer])

theorem countP_ready_le (c : TcpClient) :
    c.operations.ready.countP Completion.isLiveRead ≤ c.liveReads :=
  Nat.le_add_left ..

theorem liveReads_of_readPending (h : c.readPending = false) :
    c.liveReads = c.operations.ready.countP Completion.isLiveRead := by
  rw [readPending, List.any_eq_false] at h
  rw [liveReads, Operations.count, List.countP_eq_zero.mpr h, Nat.zero_add]

theorem lt_liveReads_of_readPending (h : c.readPending = true) :
    c.operations.ready.countP Completion.isLiveRead < c.liveReads := by
  have hpos : 0 < c.operations.pending.countP Op.isRead :=
    List.countP_pos_iff.mpr (List.any_eq_true.mp h)
  rw [liveReads, Operations.count]
  omega

/-- Opening the socket loses no read if none is pending. -/
theorem liveReads_doConnect (h : c.endpoints = [] ∨ c.readPending = false) :
    c.doConnect.state.liveReads = c.liveReads := by
  cases hendpoints : c.endpoints with
  | nil =>
    rw [doConnect_nil hendpoints]
    exact Operations.count_post ..
  | cons e es =>
    have hpending := h.resolve_left (by simp [hendpoints])
    rw [doConnect_cons hendpoints, liveReads_of_readPending hpending, ← liveReads_abortSocket]
    exact Operations.count_start ..

/-! ## What is reported -/

/-- The reports alternate as long as there is one read for a connection and none without. -/
def Tracks (c : TcpClient) (es : List Event) (c' : TcpClient) : Prop :=
  ∀ up : Bool, c.liveReads = up.toNat →
    ∃ up', Alternates up (es.filterMap Event.report) up' ∧ c'.liveReads = up'.toNat

/-- Nothing is reported, and the reads are the same. -/
def Unreported (c : TcpClient) (es : List Event) (c' : TcpClient) : Prop :=
  c'.liveReads = c.liveReads ∧ es.filterMap Event.report = []

theorem composes_unreported : System.Composes Unreported where
  nil _ := ⟨rfl, rfl⟩
  append h h' := ⟨h'.1.trans h.1, by rw [List.filterMap_append, h.2, h'.2, List.append_nil]⟩

theorem Tracks.of_unreported (h : Unreported c es c') : Tracks c es c' :=
  fun up hup ↦ ⟨up, by rw [h.2]; rfl, h.1.trans hup⟩

/-- One report, of a change. -/
theorem Tracks.of_report {b : Bool} (hes : es.filterMap Event.report = [b])
    (h : c.liveReads ≤ 1 → c.liveReads = (!b).toNat)
    (h' : c.liveReads ≤ 1 → c'.liveReads = b.toNat) :
    Tracks c es c' := by
  intro up hup
  have hle : c.liveReads ≤ 1 := hup ▸ Bool.toNat_le up
  have heq : up = !b := by
    have htoNat := hup.symm.trans (h hle)
    revert htoNat
    cases up <;> cases b <;> decide
  exact ⟨b, by rw [hes]; exact ⟨by rw [heq, Bool.not_not], rfl⟩, h' hle⟩

theorem invoke_unreported {isSet : Bool} {e : Event} (he : e.report = none)
    (h : c'.liveReads = c.liveReads) : (invoke isSet e c').Relates Unreported c := by
  rw [invoke]
  split_ifs
  · exact ⟨h, by simp [Outcome.emit, he]⟩
  · exact ⟨h, rfl⟩

theorem scheduleReconnect_unreported (cb : Callbacks) (c : TcpClient) :
    (scheduleReconnect cb c).Relates Unreported c := by
  refine Outcome.Relates.andThen composes_unreported (invoke_unreported rfl rfl) ?_
  have hwait : ∀ c : TcpClient, Operations.count Op.isRead Completion.isLiveRead
      ((c.operations.abort Op.onTimer Op.aborted).start .wait) = c.liveReads :=
    fun c ↦ (Operations.count_start ..).trans (liveReads_abortTimer c)
  refine ⟨?_, rfl⟩
  dsimp only [Outcome.emit]
  split_ifs
  · exact hwait _
  · exact hwait _

theorem retry_unreported (cb : Callbacks) (c : TcpClient) :
    (if c.shouldReconnect then scheduleReconnect cb c else .done c).Relates Unreported c := by
  split_ifs
  · exact scheduleReconnect_unreported cb c
  · exact composes_unreported.nil c

theorem doConnect_unreported (h : c.endpoints = [] ∨ c.readPending = false) :
    c.doConnect.Relates Unreported c := by
  refine ⟨liveReads_doConnect h, ?_⟩
  rw [doConnect]
  split <;> rfl

theorem asyncSend_unreported (data : Bytes) (c : TcpClient) :
    (c.asyncSend data).Relates Unreported c := by
  refine ⟨?_, rfl⟩
  dsimp only [asyncSend, Outcome.emit]
  split_ifs
  · exact Operations.count_post ..
  · exact Operations.count_start ..
  · exact Operations.count_post ..

end TcpClient

namespace ClientApp

open TcpClient

variable {c c' : TcpClient} {es : List TcpClient.Event}

/-- `closeConnection` with all callbacks set: it closes the socket and reports that. -/
theorem closeConnection_callbacks (r : CloseResults) (c : TcpClient) :
    (closeConnection callbacks r c).thrown = false ∧
      (closeConnection callbacks r c).state = { c.abortSocket with socketOpen := false } ∧
      (closeConnection callbacks r c).outputs.filterMap TcpClient.Event.report = [false] := by
  obtain ⟨cancel, shutdown, closed⟩ := r
  have habort : c.abortSocket.abortSocket = c.abortSocket := by simp [abortSocket]
  cases cancel with
  | none =>
    have hstate : { c.abortSocket.abortSocket with socketOpen := false }
        = { c.abortSocket with socketOpen := false } := by rw [habort]
    cases shutdown <;> cases closed <;> exact ⟨rfl, hstate, rfl⟩
  | some ec => cases shutdown <;> cases closed <;> exact ⟨rfl, rfl, rfl⟩

/-- Closing reports the end of the connection, and leaves the reads that have completed. -/
theorem closeConnection_andThen (r : CloseResults) (c : TcpClient)
    {f : TcpClient → Outcome TcpClient TcpClient.Event}
    (hf : ∀ c, (f c).Relates Unreported c) :
    ((closeConnection callbacks r c).andThen f).outputs.filterMap TcpClient.Event.report = [false] ∧
      ((closeConnection callbacks r c).andThen f).state.liveReads
        = c.operations.ready.countP Completion.isLiveRead := by
  obtain ⟨hthrown, hstate, hreport⟩ := closeConnection_callbacks r c
  obtain ⟨hreads, hnone⟩ := hf (closeConnection callbacks r c).state
  rw [Outcome.andThen_of_not_thrown hthrown]
  refine ⟨by rw [List.filterMap_append, hreport, hnone, List.append_nil], hreads.trans ?_⟩
  rw [hstate]
  exact liveReads_abortSocket c

/-- An exception is not reported. -/
theorem report_settle (o : Outcome TcpClient TcpClient.Event) :
    (settle o).2.filterMap TcpClient.Event.report = o.outputs.filterMap TcpClient.Event.report := by
  rw [settle]
  dsimp only
  split_ifs
  · rw [List.filterMap_append]
    exact List.append_nil _
  · rfl

theorem settle_tracks {o : Outcome TcpClient TcpClient.Event} (ho : o.Relates Tracks c) :
    Tracks c (settle o).2 (settle o).1 := by
  intro up hup
  rw [report_settle]
  exact ho up hup

/-- `close` while a read is pending ends a connection. -/
theorem close_tracks (h : c.readPending = true) (r : CloseResults) :
    (close callbacks r c).Relates Tracks c := by
  obtain ⟨hreport, hreads⟩ := closeConnection_andThen r { c with shouldReconnect := false }
    (f := fun c ↦ .done c.abortTimer) fun c ↦ ⟨liveReads_abortTimer c, rfl⟩
  have hlt := lt_liveReads_of_readPending h
  refine Tracks.of_report hreport (fun hle ↦ ?_) fun hle ↦ hreads.trans ?_
  · exact Nat.le_antisymm hle (show 1 ≤ _ by omega)
  · change c.operations.ready.countP _ = 0
    omega

/-- The handler of a read that has failed reports the end of the connection. -/
theorem readHandler_other_tracks {c₀ : TcpClient} (htake : c₀.liveReads + 1 = c.liveReads)
    (connection : ℕ) (message : String) (r : CloseResults) :
    (readHandler callbacks connection (.error (.other message)) r c₀).Relates Tracks c := by
  obtain ⟨hreport, hreads⟩ := closeConnection_andThen r { c₀ with lastOpSuccess := false }
    (retry_unreported callbacks)
  have hready := countP_ready_le c₀
  rw [readHandler_other]
  refine Tracks.of_report hreport (fun hle ↦ ?_) fun hle ↦ hreads.trans ?_
  · exact Nat.le_antisymm hle (show 1 ≤ _ by omega)
  · change c₀.operations.ready.countP _ = 0
    omega

theorem Tracks.of_taken {c₀ : TcpClient} {o : Outcome TcpClient TcpClient.Event}
    (htake : c₀.liveReads = c.liveReads) (ho : o.Relates Unreported c₀) : o.Relates Tracks c :=
  .of_unreported ⟨ho.1.trans htake, ho.2⟩

/-- The handlers keep up with the connection, if a connect does not succeed while there is a read,
and the timer does not open the socket while one is pending. -/
theorem handle_tracks {i : ℕ} {d : Completion} (hready : c.operations.ready[i]? = some d)
    (r : CloseResults) (hconnect : d = .connect none → c.liveReads = 0)
    (hwait : d = .wait none → c.endpoints = [] ∨ c.readPending = false) :
    (handle callbacks d r { c with operations := c.operations.take i }).Relates Tracks c := by
  have htake := Operations.count_take (p := Op.isRead) (q := Completion.isLiveRead) hready
  have hdead : d.isLiveRead = false →
      liveReads { c with operations := c.operations.take i } = c.liveReads := by
    intro hd
    rwa [hd] at htake
  have hlive : d.isLiveRead = true →
      liveReads { c with operations := c.operations.take i } + 1 = c.liveReads := by
    intro hd
    rwa [hd] at htake
  rcases d with (_ | ec) | ⟨connection, (_ | message) | data⟩ | ⟨_ | ec, length⟩ | (_ | ec)
  · refine Tracks.of_report (b := true) rfl (fun _ ↦ hconnect rfl) fun _ ↦ ?_
    exact (liveReads_doRead _).trans (congrArg Nat.succ ((hdead rfl).trans (hconnect rfl)))
  · refine Tracks.of_taken (hdead rfl) (Outcome.Relates.andThen composes_unreported ?_ ?_)
    · exact invoke_unreported rfl rfl
    · exact retry_unreported ..
  · exact Tracks.of_taken (hdead rfl) ⟨rfl, rfl⟩
  · exact readHandler_other_tracks (hlive rfl) connection message r
  · exact .of_unreported ⟨(liveReads_doRead _).trans (hlive rfl), rfl⟩
  · exact Tracks.of_taken (hdead rfl) (invoke_unreported rfl rfl)
  · exact Tracks.of_taken (hdead rfl) (invoke_unreported rfl rfl)
  · exact Tracks.of_taken (hdead rfl) (doConnect_unreported (hwait rfl))
  · exact Tracks.of_taken (hdead rfl) ⟨rfl, rfl⟩

/-! ## The event handler -/

/-- The calls of the event handler. -/
def Event.calls : Event → List HandlerCall
  | .tcp _ calls => calls
  | .handler call => [call]
  | _ => []

/-- `onConnected` and `onDisconnected`. -/
def notification : HandlerCall → Option Bool
  | .onConnected => some true
  | .onDisconnected => some false
  | _ => none

/-- The notifications that the event handler receives. -/
def notifications (h : List Event) : List Bool := (h.flatMap Event.calls).filterMap notification

@[simp] theorem notifications_nil : notifications [] = [] := rfl

theorem notifications_append (h es : List Event) :
    notifications (h ++ es) = notifications h ++ notifications es := by
  rw [notifications, List.flatMap_append, List.filterMap_append]
  rfl

theorem notification_of_mem_handlerCalls {message : DecodedMessage} :
    ∀ call ∈ handlerCalls message, notification call = none := by
  intro call hcall
  rw [handlerCalls] at hcall
  split at hcall
  · split at hcall
    · rw [List.mem_singleton.mp hcall]
      rfl
    · exact absurd hcall (by simp)
  · rw [List.mem_singleton.mp hcall]
    rfl
  · rw [List.mem_singleton.mp hcall]
    rfl

/-- The callbacks pass the reports on, and nothing else. -/
theorem notifications_onTcpEvent (e : TcpClient.Event) (app : ClientApp) :
    (app.onTcpEvent e).2.filterMap notification = e.report.toList := by
  cases e with
  | onDataReceived connection data =>
    rw [onTcpEvent, onDataReceived]
    split
    · exact List.filterMap_eq_nil_iff.mpr notification_of_mem_handlerCalls
    · rfl
  | _ => rfl

theorem notifications_deliver (es : List TcpClient.Event) (app : ClientApp) :
    notifications (deliver es app).2 = es.filterMap TcpClient.Event.report := by
  induction es generalizing app with
  | nil => rfl
  | cons e es ih =>
    have htold : notifications (deliver (e :: es) app).2
        = (app.onTcpEvent e).2.filterMap notification
          ++ notifications (deliver es (app.onTcpEvent e).1).2 :=
      List.filterMap_append ..
    rw [htold, notifications_onTcpEvent, ih, List.filterMap_cons]
    cases e.report <;> rfl

/-! ## When the notifications alternate -/

/-- A connect, a read and a `close` get in each other's way: the socket is opened while a read is
pending, a connect succeeds while there is a read, or `disconnect` finds no read pending. -/
def Interferes (app : ClientApp) : Action → Prop
  | .connect (.ok (_ :: _)) =>
    app.isConnected = false ∧ app.host.isEmpty = false ∧ app.port.isEmpty = false ∧
      app.tcpClient.readPending = true
  | .disconnect _ => app.isConnected = true ∧ app.tcpClient.readPending = false
  | .handler i _ =>
    match app.tcpClient.operations.ready[i]? with
    | some (.connect none) => app.tcpClient.liveReads ≠ 0
    | some (.wait none) => app.tcpClient.endpoints ≠ [] ∧ app.tcpClient.readPending = true
    | _ => False
  | _ => False

instance (app : ClientApp) (a : Action) : Decidable (app.Interferes a) := by
  unfold Interferes
  split
  · infer_instance
  · infer_instance
  · split <;> infer_instance
  · infer_instance

/-- What the event handler is told in a step alternates with what it was told before. -/
def Alternating (app : ClientApp) (es : List Event) (app' : ClientApp) : Prop :=
  ∀ up : Bool, app.tcpClient.liveReads = up.toNat →
    ∃ up', Alternates up (notifications es) up' ∧ app'.tcpClient.liveReads = up'.toNat

theorem composes_alternating : System.Composes Alternating where
  nil _ up hup := ⟨up, rfl, hup⟩
  append h h' up hup := by
    obtain ⟨up', hes, hup'⟩ := h up hup
    obtain ⟨up'', hfs, hup''⟩ := h' up' hup'
    exact ⟨up'', by rw [notifications_append]; exact hes.append hfs, hup''⟩

theorem Alternating.deliver {app : ClientApp} (h : Tracks app.tcpClient es c') :
    Alternating app (ClientApp.deliver es { app with tcpClient := c' }).2
      (ClientApp.deliver es { app with tcpClient := c' }).1 := by
  intro up hup
  rw [notifications_deliver, deliver_tcpClient]
  exact h up hup

theorem Alternating.of_silent {app app' : ClientApp} {es : List Event}
    (htcpClient : app'.tcpClient = app.tcpClient) (hes : notifications es = []) :
    Alternating app es app' := fun up hup ↦ ⟨up, by rw [hes]; rfl, by rwa [htcpClient]⟩

theorem Alternating.call {app : ClientApp} {o : Outcome TcpClient TcpClient.Event}
    (h : o.Relates Tracks app.tcpClient) :
    Alternating app (app.callTcpClient o).2 (app.callTcpClient o).1 :=
  .deliver (settle_tracks h)

theorem connect_alternating {app : ClientApp} {resolved : Except ErrorCode (List Endpoint)}
    (h : ¬app.Interferes (.connect resolved)) :
    Alternating app (app.connect resolved).2 (app.connect resolved).1 := by
  rw [connect]
  split_ifs with hconnected hconfigured
  · exact .of_silent rfl rfl
  · exact .of_silent rfl rfl
  · refine .call (.of_unreported ?_)
    rcases resolved with ec | _ | ⟨e, es⟩
    · exact ⟨rfl, rfl⟩
    · exact ⟨Operations.count_post .., rfl⟩
    · simp only [Interferes, not_or, Bool.not_eq_true] at h hconnected hconfigured
      -- the socket is opened anew, which would abort a read without a report
      have hpending : app.tcpClient.readPending = false := by
        by_contra hpending
        exact h ⟨hconnected, hconfigured.1, hconfigured.2, by simpa using hpending⟩
      refine Outcome.Relates.andThen composes_unreported ⟨rfl, rfl⟩ ?_
      exact doConnect_unreported (.inr hpending)

theorem disconnect_alternating {app : ClientApp} {r : CloseResults}
    (h : ¬app.Interferes (.disconnect r)) :
    Alternating app (app.disconnect r).2 (app.disconnect r).1 := by
  rw [disconnect]
  split_ifs with hconnected
  · refine Alternating.call (close_tracks ?_ r)
    by_contra hpending
    exact h ⟨hconnected, by simpa using hpending⟩
  · exact composes_alternating.nil app

theorem sendMessage_alternating (app : ClientApp) (id : UInt32) (push : Push) :
    Alternating app (app.sendMessage id push).2 (app.sendMessage id push).1 := by
  rw [sendMessage]
  split_ifs
  · split
    · exact .call (.of_unreported (asyncSend_unreported ..))
    · exact .of_silent rfl rfl
  · exact .of_silent rfl rfl
  · exact .of_silent rfl rfl

theorem network_alternating {app : ClientApp} {a : TcpClient.Action} {r : ClientApp × List Event}
    (h : ∀ c' es, TcpClient.step callbacks app.tcpClient a = some (c', es) →
      Tracks app.tcpClient es c') (hstep : app.network a = some r) : Alternating app r.2 r.1 := by
  obtain ⟨⟨c', es⟩, hs, rfl⟩ := Option.map_eq_some_iff.mp hstep
  exact .deliver (h c' es hs)

/-- In a step that interferes with nothing the notifications go on alternating. -/
theorem step_alternating {app app' : ClientApp} {a : Action} {es : List Event}
    (ha : ¬app.Interferes a) (hstep : step app a = some (app', es)) : Alternating app es app' := by
  cases a with
  | configure host port =>
    obtain ⟨rfl, rfl⟩ := Prod.mk.inj (Option.some_inj.mp hstep)
    exact .of_silent rfl rfl
  | connect resolved =>
    have hr := connect_alternating ha
    rwa [show app.connect resolved = (app', es) from Option.some_inj.mp hstep] at hr
  | disconnect r =>
    have hr := disconnect_alternating ha
    rwa [show app.disconnect r = (app', es) from Option.some_inj.mp hstep] at hr
  | login login password =>
    have hr : app.login login password = (app', es) := Option.some_inj.mp hstep
    rw [ClientApp.login] at hr
    split_ifs at hr
    · obtain ⟨rfl, rfl⟩ := Prod.mk.inj hr
      exact .of_silent rfl rfl
    · obtain ⟨rfl, rfl⟩ := Prod.mk.inj hr
      exact .of_silent rfl rfl
  | sendMessage id push =>
    have hr := sendMessage_alternating app id push
    rwa [show app.sendMessage id push = (app', es) from Option.some_inj.mp hstep] at hr
  | complete i completion =>
    refine network_alternating (fun c' es hs ↦ ?_) hstep
    obtain ⟨op, hop, hcompletes, hr⟩ := step_complete_eq_some hs
    obtain ⟨rfl, rfl⟩ := Prod.mk.inj hr
    exact .of_unreported ⟨Operations.count_complete hop (Op.completes_isLiveRead hcompletes), rfl⟩
  | handler i r =>
    refine network_alternating (fun c' es hs ↦ ?_) hstep
    obtain ⟨completion, hready, -, hr⟩ := step_handler_eq_some hs
    have htracks := settle_tracks (handle_tracks hready r ?_ ?_)
    · rwa [← hr] at htracks
    · rintro rfl
      simpa [Interferes, hready] using ha
    · rintro rfl
      have hopens : app.tcpClient.endpoints ≠ [] → app.tcpClient.readPending = false := by
        simpa [Interferes, hready] using ha
      exact or_iff_not_imp_left.mpr hopens
  | ioStop =>
    refine network_alternating (fun c' es hs ↦ ?_) hstep
    obtain ⟨rfl, rfl⟩ := Prod.mk.inj (Option.some_inj.mp hs)
    exact .of_unreported ⟨rfl, rfl⟩
  | ioRestart =>
    refine network_alternating (fun c' es hs ↦ ?_) hstep
    obtain ⟨rfl, rfl⟩ := Prod.mk.inj (Option.some_inj.mp hs)
    exact .of_unreported ⟨rfl, rfl⟩

/-- **The notifications alternate**, beginning with `onConnected`, in every run in which nothing
interferes. -/
theorem notifications_alternate (as : List Action) (app : ClientApp) (h : List Event)
    (hcondition : system.Obeys (fun app a ↦ ¬app.Interferes a) init as)
    (hrun : system.run init as = some (app, h)) : ∃ up, Alternates false (notifications h) up := by
  have hall : Alternating init h app := System.run_relates composes_alternating
    (fun ha hstep ↦ step_alternating ha hstep) hcondition hrun
  obtain ⟨up, hup, -⟩ := hall false rfl
  exact ⟨up, hup⟩

/-- The client connects, loses the connection, connects again and disconnects. -/
def twiceConnectedRun : List Action :=
  backOffRun ++ [.complete 0 (.wait none), .handler 0 .ok, .complete 0 (.connect none),
    .handler 0 .ok, .disconnect .ok]

theorem notifications_alternate_twiceConnectedRun : ∃ app h,
    system.run init twiceConnectedRun = some (app, h) ∧
      ∃ up, Alternates false (notifications h) up :=
  ⟨_, _, rfl, notifications_alternate twiceConnectedRun _ _ (by decide) rfl⟩

/-- The user disconnects while the client is connecting. -/
def givenUpRun : List Action :=
  [.configure "localhost" "8080", .connect (.ok [⟨"127.0.0.1", 8080⟩]), .disconnect .ok]

theorem not_notifications_alternate : ¬∀ (as : List Action) (app : ClientApp) (h : List Event),
    system.run init as = some (app, h) → ∃ up, Alternates false (notifications h) up := by
  intro hall
  obtain ⟨up, hup⟩ := hall givenUpRun _ _ rfl
  exact absurd hup.1 (by decide)

end ClientApp

end Client

end PushService
