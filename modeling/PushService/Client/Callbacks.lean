import PushService.Client.Rules

/-!
# Callbacks that are not set

Every callback but one is tested before it is called. The one is `onError_` in `closeConnection`: it
is called for a failing `cancel`, `shutdown` or `close` of the socket whether or not it is set.
`closeConnection` is run by `close` and by the handler of a read that fails. So an empty callback is
invoked exactly by those steps that run it with a failing result while `onError_` is not set
(`ClosesQuietly`).

A `close` before there was ever a connection is such a step: there is no socket, and `cancel` fails.
-/

namespace PushService

namespace Client

namespace TcpClient

variable {cb : Callbacks} {c : TcpClient}

/-! ## The condition -/

/-- The results of the `closeConnection` that a step runs, if it runs one. -/
def closing (c : TcpClient) : Action → Option CloseResults
  | .close r => some r
  | .handler i r =>
    match c.operations.ready[i]? with
    | some (.read _ (.error (.other _))) => some r
    | _ => none
  | _ => none

variable (cb) in
/-- In a `closeConnection` nothing fails, or `onError_` is set. -/
def ClosesQuietly (c : TcpClient) (a : Action) : Prop :=
  ∀ r ∈ c.closing a, ¬Throws cb r

instance (c : TcpClient) (a : Action) : Decidable (ClosesQuietly cb c a) :=
  inferInstanceAs (Decidable (∀ r ∈ c.closing a, ¬Throws cb r))

/-! ## What returns -/

/-- A callback has been called, or an operation started, and nothing was thrown. -/
def Event.Regular (e : Event) : Prop := e ≠ .badFunctionCall

theorem invoke_returns {isSet : Bool} {e : Event} (c : TcpClient) (he : e.Regular) :
    (invoke isSet e c).Returns Event.Regular := by
  rw [invoke]
  split_ifs
  · exact Outcome.returns_emit c he
  · exact Outcome.returns_done c

theorem doConnect_returns (c : TcpClient) : c.doConnect.Returns Event.Regular := by
  rw [doConnect]
  split
  · exact Outcome.returns_emit _ (by simp [Event.Regular])
  · exact Outcome.returns_emit _ (by simp [Event.Regular])

theorem scheduleReconnect_returns (cb : Callbacks) (c : TcpClient) :
    (scheduleReconnect cb c).Returns Event.Regular :=
  (invoke_returns _ (by simp [Event.Regular])).andThen fun _ ↦
    Outcome.returns_emit _ (by simp [Event.Regular])

/-- The end of a handler that has failed. -/
theorem retry_returns (cb : Callbacks) (c : TcpClient) :
    (if c.shouldReconnect then scheduleReconnect cb c else .done c).Returns Event.Regular := by
  split_ifs
  · exact scheduleReconnect_returns cb c
  · exact Outcome.returns_done c

theorem setEndpoint_returns (resolved : Except ErrorCode (List Endpoint)) (c : TcpClient) :
    (setEndpoint cb resolved c).Returns Event.Regular := by
  cases resolved with
  | ok endpoints => exact Outcome.returns_done _
  | error ec => exact invoke_returns _ (by simp [Event.Regular])

theorem connect_returns (c : TcpClient) : c.connect.Returns Event.Regular := by
  rw [connect]
  split_ifs
  · exact doConnect_returns c
  · exact Outcome.returns_done c

theorem connectHandler_returns (ec : Option ErrorCode) (c : TcpClient) :
    (connectHandler cb ec c).Returns Event.Regular := by
  cases ec with
  | none =>
    exact (invoke_returns _ (by simp [Event.Regular])).andThen fun _ ↦ Outcome.returns_done _
  | some ec => exact (invoke_returns _ (by simp [Event.Regular])).andThen (retry_returns cb)

theorem writeHandler_returns (ec : Option ErrorCode) (length : ℕ) (c : TcpClient) :
    (writeHandler cb ec length c).Returns Event.Regular := by
  cases ec with
  | none | some ec => exact invoke_returns _ (by simp [Event.Regular])

theorem waitHandler_returns (ec : Option ErrorCode) (c : TcpClient) :
    (waitHandler ec c).Returns Event.Regular := by
  cases ec with
  | none => exact doConnect_returns c
  | some ec => exact Outcome.returns_done c

/-! ## `closeConnection` -/

/-- A part of `closeConnection` that tests the result of a call. -/
theorem invokeUntested_returns {e : Event} (c : TcpClient) (he : e.Regular)
    (hset : cb.onError = true) : (invokeUntested cb.onError e c).Returns Event.Regular := by
  rw [invokeUntested, if_pos hset]
  exact Outcome.returns_emit c he

theorem closeConnection_returns {r : CloseResults} (h : ¬Throws cb r) (c : TcpClient) :
    (closeConnection cb r c).Returns Event.Regular := by
  have hfinal : ∀ c, (invoke cb.onDisconnected .onDisconnected c).Returns Event.Regular :=
    fun c ↦ invoke_returns c (by simp [Event.Regular])
  cases hset : cb.onError with
  | false =>
    obtain rfl : r = .ok := by
      by_contra hne
      exact h ⟨hset, hne⟩
    rw [closeConnection_ok]
    exact hfinal _
  | true =>
    have hreport : ∀ message c,
        (invokeUntested cb.onError (.onError message) c).Returns Event.Regular :=
      fun message c ↦ invokeUntested_returns c (by simp [Event.Regular]) hset
    obtain ⟨cancel, shutdown, closed⟩ := r
    have hcancel : ∀ c, (cancelSocket cb cancel c).Returns Event.Regular := fun c ↦ by
      cases cancel with
      | none => exact Outcome.returns_done _
      | some ec => exact hreport _ c
    have hshutdown : ∀ c, (shutdownSocket cb shutdown c).Returns Event.Regular := fun c ↦ by
      cases shutdown with
      | none => exact Outcome.returns_done _
      | some ec => exact hreport _ c
    have hclose : ∀ c, (closeSocket cb closed c).Returns Event.Regular := fun c ↦ by
      cases closed with
      | none => exact Outcome.returns_done _
      | some ec => exact hreport _ _
    exact (hcancel c).andThen fun c ↦ (hshutdown c).andThen fun c ↦ (hclose c).andThen hfinal

/-- The first result that fails throws. -/
theorem closeConnection_thrown {r : CloseResults} (h : Throws cb r) (c : TcpClient) :
    (closeConnection cb r c).thrown = true := by
  obtain ⟨hset, hne⟩ := h
  obtain ⟨cancel, shutdown, closed⟩ := r
  cases cancel with
  | some ec => simp [closeConnection, cancelSocket, invokeUntested, hset]
  | none =>
    cases shutdown with
    | some ec =>
      simp [closeConnection, cancelSocket, shutdownSocket, invokeUntested, hset]
    | none =>
      cases closed with
      | some ec =>
        simp [closeConnection, cancelSocket, shutdownSocket, closeSocket, invokeUntested, hset]
      | none => exact absurd rfl hne

/-! ## Steps and runs -/

theorem settle_of_returns {o : Outcome TcpClient Event} (h : o.Returns Event.Regular) :
    ∀ e ∈ (settle o).2, e ≠ .badFunctionCall := by
  rw [settle, if_neg (by simp [h.1])]
  exact h.2

theorem settle_of_thrown {o : Outcome TcpClient Event} (h : o.thrown = true) :
    .badFunctionCall ∈ (settle o).2 := by
  rw [settle, if_pos h]
  exact List.mem_append_right _ List.mem_cons_self

/-- A handler that does not run `closeConnection` returns. -/
theorem handle_returns {completion : Completion} (r : CloseResults) (c : TcpClient)
    (h : ∀ connection message, completion ≠ .read connection (.error (.other message))) :
    (handle cb completion r c).Returns Event.Regular := by
  rcases completion with ec | ⟨connection, result⟩ | ⟨ec, length⟩ | ec
  · exact connectHandler_returns ec c
  · rcases result with ec | data
    · cases ec with
      | operationAborted => exact Outcome.returns_done _
      | other message => exact absurd rfl (h connection message)
    · exact (invoke_returns _ (by simp [Event.Regular])).andThen fun _ ↦ Outcome.returns_done _
  · exact writeHandler_returns ec length c
  · exact waitHandler_returns ec c

/-- The handler of a read that fails throws where its `closeConnection` does. -/
theorem readHandler_thrown {r : CloseResults} (h : Throws cb r) (connection : ℕ) (message : String)
    (c : TcpClient) : (readHandler cb connection (.error (.other message)) r c).thrown = true := by
  rw [readHandler_other]
  refine Outcome.andThen_thrown fun c ↦ ?_
  rw [Outcome.andThen_of_thrown (closeConnection_thrown h c)]
  exact closeConnection_thrown h c

theorem readHandler_returns {r : CloseResults} (h : ¬Throws cb r) (connection : ℕ)
    (message : String) (c : TcpClient) :
    (readHandler cb connection (.error (.other message)) r c).Returns Event.Regular := by
  rw [readHandler_other]
  exact (invoke_returns _ (by simp [Event.Regular])).andThen fun c ↦
    (closeConnection_returns h c).andThen (retry_returns cb)

theorem closing_handler_eq_none {i : ℕ} {r : CloseResults} {completion : Completion}
    (hready : c.operations.ready[i]? = some completion)
    (h : ∀ connection message, completion ≠ .read connection (.error (.other message))) :
    c.closing (.handler i r) = none := by
  rw [closing, hready]
  rcases completion with ec | ⟨connection, ec | data⟩ | ⟨ec, length⟩ | ec
  · rfl
  · cases ec with
    | operationAborted => rfl
    | other message => exact absurd rfl (h connection message)
  · rfl
  · rfl
  · rfl

/-- **One step.** An empty callback is invoked exactly if the step does not close quietly. -/
theorem step_regular_iff {a : Action} {c' : TcpClient} {es : List Event}
    (hstep : step cb c a = some (c', es)) :
    (∀ e ∈ es, e ≠ .badFunctionCall) ↔ ClosesQuietly cb c a := by
  have hreturns : ∀ {o : Outcome TcpClient Event}, o.Returns Event.Regular → ClosesQuietly cb c a →
      some (settle o) = some (c', es) →
      ((∀ e ∈ es, e ≠ .badFunctionCall) ↔ ClosesQuietly cb c a) := by
    intro o ho hquiet heq
    have hes := settle_of_returns ho
    rw [Option.some_inj.mp heq] at hes
    exact iff_of_true hes hquiet
  have hthrown : ∀ {o : Outcome TcpClient Event}, o.thrown = true → ¬ClosesQuietly cb c a →
      some (settle o) = some (c', es) →
      ((∀ e ∈ es, e ≠ .badFunctionCall) ↔ ClosesQuietly cb c a) := by
    intro o ho hloud heq
    have hes := settle_of_thrown ho
    rw [Option.some_inj.mp heq] at hes
    exact iff_of_false (fun h ↦ h _ hes rfl) hloud
  have hnone : c.closing a = none → ClosesQuietly cb c a := by
    intro hclosing r hr
    rw [hclosing] at hr
    exact absurd hr (by simp)
  cases a with
  | setEndpoint resolved => exact hreturns (setEndpoint_returns resolved c) (hnone rfl) hstep
  | connect => exact hreturns (connect_returns c) (hnone rfl) hstep
  | asyncSend data =>
    exact hreturns (Outcome.returns_emit _ (by simp [Event.Regular])) (hnone rfl) hstep
  | close r =>
    by_cases hthrows : Throws cb r
    · refine hthrown ?_ (fun hquiet ↦ hquiet r rfl hthrows) hstep
      rw [close, Outcome.andThen_of_thrown (closeConnection_thrown hthrows _)]
      exact closeConnection_thrown hthrows _
    · refine hreturns
        ((closeConnection_returns hthrows _).andThen fun _ ↦ Outcome.returns_done _) ?_
        hstep
      intro r' hr'
      rwa [← Option.some_inj.mp hr']
  | complete i completion =>
    obtain ⟨op, -, -, hr⟩ := step_complete_eq_some hstep
    obtain ⟨-, rfl⟩ := Prod.mk.inj hr
    exact iff_of_true (by simp) (hnone rfl)
  | handler i r =>
    obtain ⟨completion, hready, -, hr⟩ := step_handler_eq_some hstep
    rw [← Option.some_inj] at hr
    by_cases hread : ∃ connection message, completion = .read connection (.error (.other message))
    · obtain ⟨connection, message, rfl⟩ := hread
      have hclosing : c.closing (.handler i r) = some r := by rw [closing, hready]
      by_cases hthrows : Throws cb r
      · exact hthrown (readHandler_thrown hthrows connection message _)
          (fun hquiet ↦ hquiet r hclosing hthrows) hr.symm
      · refine hreturns (readHandler_returns hthrows connection message _) ?_ hr.symm
        intro r' hr'
        rw [hclosing] at hr'
        rwa [← Option.some_inj.mp hr']
    · have hother : ∀ connection message,
          completion ≠ .read connection (.error (.other message)) :=
        fun connection message heq ↦ hread ⟨connection, message, heq⟩
      exact hreturns (handle_returns r _ hother) (hnone (closing_handler_eq_none hready hother))
        hr.symm
  | ioStop =>
    obtain ⟨-, rfl⟩ := Prod.mk.inj (Option.some_inj.mp hstep)
    exact iff_of_true (by simp) (hnone rfl)
  | ioRestart =>
    obtain ⟨-, rfl⟩ := Prod.mk.inj (Option.some_inj.mp hstep)
    exact iff_of_true (by simp) (hnone rfl)

/-- **No empty callback.** For every set of callbacks and every run, no empty callback is invoked
exactly if every step closes quietly. -/
theorem no_badFunctionCall_iff {as : List Action} {es : List Event}
    (hrun : (system cb).run init as = some (c, es)) :
    (∀ e ∈ es, e ≠ .badFunctionCall) ↔ (system cb).Obeys (ClosesQuietly cb) init as :=
  System.forall_outputs_iff_obeys (I := fun _ ↦ True)
    (fun _ hstep ↦ ⟨trivial, step_regular_iff hstep⟩) trivial hrun

/-- No callback is set, as in the tests of `network`. -/
def noCallbacks : Callbacks := ⟨false, false, false, false, false, false⟩

/-- The client connects and is closed, and the socket does as it is told. -/
theorem no_badFunctionCall_iff_connected :
    ∃ c es, (system noCallbacks).run init
        [.setEndpoint (.ok [⟨"127.0.0.1", 8080⟩]), .connect, .complete 0 (.connect none),
          .handler 0 .ok, .close .ok] = some (c, es) ∧ ∀ e ∈ es, e ≠ .badFunctionCall := by
  have hquiet : (system noCallbacks).Obeys (ClosesQuietly noCallbacks) init
      [.setEndpoint (.ok [⟨"127.0.0.1", 8080⟩]), .connect, .complete 0 (.connect none),
        .handler 0 .ok, .close .ok] := by decide
  exact ⟨_, _, rfl, (no_badFunctionCall_iff rfl).mpr hquiet⟩

/-- A client that was never connected is closed: there is no socket to cancel. -/
theorem badFunctionCall_unconnected :
    ∃ c, (system noCallbacks).run init
        [.close ⟨some .badDescriptor, some .badDescriptor, none⟩] = some (c, [.badFunctionCall]) :=
  ⟨_, rfl⟩

end TcpClient

end Client

end PushService
