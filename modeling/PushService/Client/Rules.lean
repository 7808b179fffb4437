import PushService.Client.TcpClient

/-!
# Rules for the calls and handlers of `TcpClient`

Partial correctness of each function, for any property `P` of the state and any property `Q` of the
outputs. What a law needs of `P` is that the small changes the functions make keep it (`Kept`), and
of `Q` that it allows the outputs which go with them (`Allowed`). Starting a connect, a read or a
wait is what the laws differ in, so these stay hypotheses.
-/

namespace PushService

namespace Client

namespace TcpClient

/-- The outputs that neither start an operation nor report a connection or data. -/
def Event.Incidental : Event → Prop
  | .onDisconnected | .onReconnect | .onDataSend _ | .onError _ | .badFunctionCall => True
  | _ => False

/-- `P` is kept by every change that starts nothing. The socket is closed when its operations have
been aborted. -/
structure Kept (P : TcpClient → Prop) : Prop where
  lastOpSuccess : ∀ c b, P c → P { c with lastOpSuccess := b }
  wasConnected : ∀ c b, P c → P { c with wasConnected := b }
  reconnectCount : ∀ c n, P c → P { c with reconnectCount := n }
  endpoints : ∀ c es, P c → P { c with endpoints := es }
  stopReconnect : ∀ c, P c → P { c with shouldReconnect := false }
  ioStopped : ∀ c b, P c → P { c with ioStopped := b }
  abortSocket : ∀ c, P c → P c.abortSocket
  closeSocket : ∀ c, (∀ op ∈ c.operations.pending, op.onSocket = false) → P c →
    P { c with socketOpen := false }
  abortTimer : ∀ c, P c → P c.abortTimer

theorem kept_true : Kept fun _ ↦ True :=
  ⟨fun _ _ h ↦ h, fun _ _ h ↦ h, fun _ _ h ↦ h, fun _ _ h ↦ h, fun _ h ↦ h, fun _ _ h ↦ h,
    fun _ h ↦ h, fun _ _ h ↦ h, fun _ h ↦ h⟩

variable {P : TcpClient → Prop} {Q : Event → Prop} {cb : Callbacks} {c : TcpClient}

theorem invoke_satisfies {isSet : Bool} {e : Event} (h : P c) (he : Q e) :
    (invoke isSet e c).Satisfies P Q :=
  Outcome.satisfies_ite h he

@[simp] theorem invoke_andThen_state (isSet : Bool) (e : Event) (c : TcpClient)
    (f : TcpClient → Outcome TcpClient Event) :
    ((invoke isSet e c).andThen f).state = (f c).state := by
  cases isSet <;> rfl

/-- A `closeConnection` in which nothing fails. -/
theorem closeConnection_ok (c : TcpClient) :
    closeConnection cb .ok c
      = invoke cb.onDisconnected .onDisconnected
        { c.abortSocket.abortSocket with socketOpen := false } := rfl

theorem doConnect_nil (h : c.endpoints = []) :
    c.doConnect = .emit (.asyncConnect [])
      { c with operations := c.operations.post (.connect (some .notFound)) } := by
  rw [doConnect, h]

theorem doConnect_cons {e : Endpoint} {es : List Endpoint} (h : c.endpoints = e :: es) :
    c.doConnect = .emit (.asyncConnect (e :: es))
      { c with
        socketOpen := true
        connection := c.connection + 1
        operations := (c.operations.abort Op.onSocket Op.aborted).start .connect } := by
  rw [doConnect, h]

theorem readHandler_other (connection : ℕ) (message : String) (r : CloseResults) (c : TcpClient) :
    readHandler cb connection (.error (.other message)) r c =
      (invoke cb.onError (.onError ("Read error: " ++ message))
        { c with lastOpSuccess := false }).andThen fun c ↦
      (closeConnection cb r c).andThen fun c ↦
      if c.shouldReconnect then scheduleReconnect cb c else .done c := rfl

theorem invokeUntested_satisfies {isSet : Bool} {e : Event} (h : P c) (he : Q e) :
    (invokeUntested isSet e c).Satisfies P Q := by
  rw [invokeUntested]
  split_ifs
  · exact Outcome.satisfies_emit h he
  · exact Outcome.satisfies_throw h

theorem settle_satisfies {o : Outcome TcpClient Event} (h : o.Satisfies P Q)
    (hQ : ∀ e, e.Incidental → Q e) : P (settle o).1 ∧ ∀ e ∈ (settle o).2, Q e :=
  ⟨h.1, h.reported (hQ .badFunctionCall trivial)⟩

/-- No operation is left on the socket. -/
theorem onSocket_abortSocket (c : TcpClient) :
    ∀ op ∈ c.abortSocket.operations.pending, op.onSocket = false := by
  intro op hop
  simpa using (List.mem_filter.mp hop).2

section Closing

/- Closing the socket needs only what aborting and closing mean. -/
variable (habort : ∀ c, P c → P c.abortSocket)
    (hclosed : ∀ c, (∀ op ∈ c.operations.pending, op.onSocket = false) → P c →
      P { c with socketOpen := false })
  (hQ : ∀ e, e.Incidental → Q e)

include hQ

theorem shutdownSocket_satisfies (result : Option ErrorCode) (h : P c) :
    (shutdownSocket cb result c).Satisfies P Q := by
  cases result with
  | none => exact Outcome.satisfies_done h
  | some ec => exact invokeUntested_satisfies h (hQ _ trivial)

include habort

theorem cancelSocket_of_abort (result : Option ErrorCode) (h : P c) :
    (cancelSocket cb result c).Satisfies P Q := by
  cases result with
  | none => exact Outcome.satisfies_done (habort c h)
  | some ec => exact invokeUntested_satisfies h (hQ _ trivial)

include hclosed

theorem closeSocket_of_abort (result : Option ErrorCode) (h : P c) :
    (closeSocket cb result c).Satisfies P Q := by
  have hshut := hclosed _ (onSocket_abortSocket c) (habort c h)
  cases result with
  | none => exact Outcome.satisfies_done hshut
  | some ec => exact invokeUntested_satisfies hshut (hQ _ trivial)

theorem closeConnection_of_abort (r : CloseResults) (h : P c) :
    (closeConnection cb r c).Satisfies P Q :=
  (cancelSocket_of_abort habort hQ r.cancel h).andThen fun _ h ↦
    (shutdownSocket_satisfies hQ r.shutdown h).andThen fun _ h ↦
      (closeSocket_of_abort habort hclosed hQ r.close h).andThen fun _ h ↦
        invoke_satisfies h (hQ _ trivial)

end Closing

/-- `closeConnection` changes nothing but the socket and its operations. -/
theorem closeConnection_spec (cb : Callbacks) (r : CloseResults) (c : TcpClient) :
    (closeConnection cb r c).Satisfies
      (fun c' ↦ ∃ isOpen operations, c' = { c with socketOpen := isOpen, operations := operations })
      Event.Incidental := by
  apply closeConnection_of_abort
  · rintro _ ⟨isOpen, operations, rfl⟩
    exact ⟨isOpen, _, rfl⟩
  · rintro _ - ⟨isOpen, operations, rfl⟩
    exact ⟨false, operations, rfl⟩
  · exact fun _ he ↦ he
  · exact ⟨c.socketOpen, c.operations, rfl⟩

/-- Passing data on, for a law that allows it. -/
theorem readHandler_ok_satisfies (hP : Kept P) (hread : ∀ c, P c → P c.doRead) {connection : ℕ}
    {data : Bytes} (hQ : Q (.onDataReceived connection data)) (r : CloseResults) (h : P c) :
    (readHandler cb connection (.ok data) r c).Satisfies P Q :=
  (invoke_satisfies (hP.lastOpSuccess c true h) hQ).andThen fun c h ↦
    Outcome.satisfies_done (hread c h)

section Rules

variable (hP : Kept P) (hQ : ∀ e, e.Incidental → Q e)

include hP hQ

theorem closeConnection_satisfies (r : CloseResults) (h : P c) :
    (closeConnection cb r c).Satisfies P Q :=
  closeConnection_of_abort hP.abortSocket hP.closeSocket hQ r h

theorem close_satisfies (r : CloseResults) (h : P c) : (close cb r c).Satisfies P Q :=
  (closeConnection_satisfies hP hQ r (hP.stopReconnect c h)).andThen fun c h ↦
    Outcome.satisfies_done (hP.abortTimer c h)

theorem setEndpoint_satisfies (resolved : Except ErrorCode (List Endpoint)) (h : P c) :
    (setEndpoint cb resolved c).Satisfies P Q := by
  have hreset := hP.stopReconnect _ (hP.wasConnected c false h)
  cases resolved with
  | ok es => exact Outcome.satisfies_done (hP.lastOpSuccess _ true (hP.endpoints _ es hreset))
  | error ec =>
    exact invoke_satisfies (hP.lastOpSuccess _ false (hP.endpoints _ [] hreset)) (hQ _ trivial)

/-- Arming the reconnect timer, for a law that allows it. -/
theorem scheduleReconnect_satisfies
    (hwait : ∀ c, P c →
      P { c with operations := (c.operations.abort Op.onTimer Op.aborted).start .wait })
    (hQwait : Q .asyncWait) (h : P c) : (scheduleReconnect cb c).Satisfies P Q := by
  refine (invoke_satisfies (hP.reconnectCount c _ h) (hQ .onReconnect trivial)).andThen fun c h ↦ ?_
  refine Outcome.satisfies_emit ?_ hQwait
  split_ifs
  · exact hP.reconnectCount _ _ (hP.stopReconnect _ (hwait c h))
  · exact hwait c h

theorem writeHandler_satisfies (ec : Option ErrorCode) (length : ℕ) (h : P c) :
    (writeHandler cb ec length c).Satisfies P Q := by
  cases ec with
  | none => exact invoke_satisfies (hP.lastOpSuccess c true h) (hQ _ trivial)
  | some ec => exact invoke_satisfies (hP.lastOpSuccess c false h) (hQ _ trivial)

section Retry

variable (hretry : ∀ c, P c →
  (if c.shouldReconnect then scheduleReconnect cb c else .done c).Satisfies P Q)

include hretry

theorem connectHandler_error_satisfies (ec : ErrorCode) (h : P c) :
    (connectHandler cb (some ec) c).Satisfies P Q :=
  (invoke_satisfies (hP.lastOpSuccess c false h) (hQ (.onError _) trivial)).andThen hretry

theorem readHandler_error_satisfies (connection : ℕ) (ec : ErrorCode) (r : CloseResults)
    (h : P c) : (readHandler cb connection (.error ec) r c).Satisfies P Q := by
  have hfalse := hP.lastOpSuccess c false h
  cases ec with
  | operationAborted => exact Outcome.satisfies_done hfalse
  | other message =>
    exact (invoke_satisfies hfalse (hQ (.onError _) trivial)).andThen fun c h ↦
      (closeConnection_satisfies hP hQ r h).andThen hretry

/-- A handler keeps a law, if the three that start something do. -/
theorem handle_satisfies (completion : Completion) (r : CloseResults) (h : P c)
    (hconnect : completion = .connect none → (connectHandler cb none c).Satisfies P Q)
    (hread : ∀ connection data, completion = .read connection (.ok data) →
      (readHandler cb connection (.ok data) r c).Satisfies P Q)
    (hwait : completion = .wait none → c.doConnect.Satisfies P Q) :
    (handle cb completion r c).Satisfies P Q := by
  rcases completion with ec | ⟨connection, result⟩ | ⟨ec, length⟩ | ec
  · cases ec with
    | none => exact hconnect rfl
    | some ec => exact connectHandler_error_satisfies hP hQ hretry ec h
  · cases result with
    | ok data => exact hread connection data rfl
    | error ec => exact readHandler_error_satisfies hP hQ hretry connection ec r h
  · exact writeHandler_satisfies hP hQ ec length h
  · cases ec with
    | none => exact hwait rfl
    | some ec => exact Outcome.satisfies_done h

end Retry

end Rules

/-! ## Closing -/

/-- `closeConnection` calls an `onError_` that is not set. -/
def Throws (cb : Callbacks) (r : CloseResults) : Prop :=
  cb.onError = false ∧ r ≠ .ok

instance (cb : Callbacks) (r : CloseResults) : Decidable (Throws cb r) :=
  inferInstanceAs (Decidable (_ ∧ _))

/-- A `close` that does not throw closes the socket and aborts everything. -/
theorem close_of_not_throws {r : CloseResults} (h : ¬Throws cb r) (c : TcpClient) :
    (close cb r c).thrown = false ∧
      (close cb r c).state =
        { c with
          socketOpen := false
          shouldReconnect := false
          operations :=
            (c.operations.abort Op.onSocket Op.aborted).abort Op.onTimer Op.aborted } := by
  obtain ⟨cancel, shutdown, closed⟩ := r
  cases honError : cb.onError with
  | true =>
    cases cancel <;> cases shutdown <;> cases closed <;>
      cases honDisconnected : cb.onDisconnected <;>
      simp [close, closeConnection, cancelSocket, shutdownSocket, closeSocket, invoke,
        invokeUntested, honError, honDisconnected, abortSocket, abortTimer, Outcome.done,
        Outcome.emit, Outcome.andThen]
  | false =>
    obtain ⟨rfl, rfl, rfl⟩ : cancel = none ∧ shutdown = none ∧ closed = none := by
      simpa [Throws, honError, CloseResults.ok] using h
    cases honDisconnected : cb.onDisconnected <;>
      simp [close, closeConnection, cancelSocket, shutdownSocket, closeSocket, invoke,
        honDisconnected, abortSocket, abortTimer, Outcome.done, Outcome.emit, Outcome.andThen]

/-- A `close` that throws leaves the timer alone, and the socket too if it was `cancel` that
failed. -/
theorem close_of_throws {r : CloseResults} (h : Throws cb r) (c : TcpClient) :
    ∃ isOpen, close cb r c = .throw
      { c with
        socketOpen := isOpen
        shouldReconnect := false
        operations :=
          if r.cancel = none then c.operations.abort Op.onSocket Op.aborted
          else c.operations } := by
  obtain ⟨honError, hne⟩ := h
  obtain ⟨cancel, shutdown, closed⟩ := r
  cases cancel with
  | some ec =>
    exact ⟨c.socketOpen, by simp [close, closeConnection, cancelSocket, invokeUntested, honError]⟩
  | none =>
    cases shutdown with
    | some ec =>
      exact ⟨c.socketOpen, by
        simp [close, closeConnection, cancelSocket, shutdownSocket, invokeUntested, honError,
          abortSocket]⟩
    | none =>
      cases closed with
      | some ec =>
        exact ⟨false, by
          simp [close, closeConnection, cancelSocket, shutdownSocket, closeSocket, invokeUntested,
            honError, abortSocket]⟩
      | none => exact absurd rfl hne

/-! ## Steps -/

theorem step_complete_eq_some {i : ℕ} {completion : Completion} {r : TcpClient × List Event}
    (h : step cb c (.complete i completion) = some r) :
    ∃ op, c.operations.pending[i]? = some op ∧ op.Completes completion ∧
      r = ({ c with operations := c.operations.complete i completion }, []) := by
  simp only [step] at h
  split at h
  · rename_i op hop
    split_ifs at h with hcomplete
    exact ⟨op, hop, hcomplete, (Option.some_inj.mp h).symm⟩
  · exact absurd h (by simp)

theorem step_handler_eq_some {i : ℕ} {results : CloseResults} {r : TcpClient × List Event}
    (h : step cb c (.handler i results) = some r) :
    ∃ completion, c.operations.ready[i]? = some completion ∧ c.ioStopped = false ∧
      r = settle (handle cb completion results
        { c with operations := c.operations.take i }) := by
  simp only [step] at h
  split at h
  · rename_i completion hio hready
    exact ⟨completion, hready, hio, (Option.some_inj.mp h).symm⟩
  · exact absurd h (by simp)

/-- The handler of a successful connect runs. -/
def Connects (c : TcpClient) : Action → Prop
  | .handler i _ =>
    match c.operations.ready[i]? with
    | some (.connect none) => True
    | _ => False
  | _ => False

instance (c : TcpClient) (a : Action) : Decidable (Connects c a) := by
  unfold Connects
  split
  · split <;> infer_instance
  · infer_instance

theorem connects_handler_iff {i : ℕ} {r : CloseResults} :
    Connects c (.handler i r) ↔ c.operations.ready[i]? = some (.connect none) := by
  dsimp only [Connects]
  split
  · rename_i hready
    simp [hready]
  · rename_i hne
    simpa using hne

theorem Connects.exists_handler {a : Action} (h : Connects c a) :
    ∃ i r, a = .handler i r ∧ c.operations.ready[i]? = some (.connect none) := by
  cases a with
  | handler i r => exact ⟨i, r, rfl, connects_handler_iff.mp h⟩
  | _ => exact h.elim

/-- Every step but a `connect` keeps a law, if writes, completions and handlers do. -/
theorem step_keeps (hP : Kept P) (hQ : ∀ e, e.Incidental → Q e)
    (hsend : ∀ c data, P c → (asyncSend data c).Satisfies P Q)
    (hcomplete : ∀ c i op completion, P c → op ∈ c.operations.pending → op.Completes completion →
      P { c with operations := c.operations.complete i completion })
    (hhandle : ∀ c i completion r, P c → completion ∈ c.operations.ready →
      (handle cb completion r { c with operations := c.operations.take i }).Satisfies P Q)
    {a : Action} {c' : TcpClient} {es : List Event} (h : P c) (ha : a ≠ .connect)
    (hstep : step cb c a = some (c', es)) : P c' ∧ ∀ e ∈ es, Q e := by
  have hsettle : ∀ {o : Outcome TcpClient Event}, o.Satisfies P Q →
      some (settle o) = some (c', es) → P c' ∧ ∀ e ∈ es, Q e := by
    intro o ho heq
    have hr := settle_satisfies ho hQ
    rwa [Option.some_inj.mp heq] at hr
  cases a with
  | setEndpoint resolved => exact hsettle (setEndpoint_satisfies hP hQ resolved h) hstep
  | connect => exact absurd rfl ha
  | asyncSend data => exact hsettle (hsend c data h) hstep
  | close r => exact hsettle (close_satisfies hP hQ r h) hstep
  | complete i completion =>
    obtain ⟨op, hop, hcompletes, hr⟩ := step_complete_eq_some hstep
    obtain ⟨rfl, rfl⟩ := Prod.mk.inj hr
    exact ⟨hcomplete c i op completion h (List.mem_of_getElem? hop) hcompletes, by simp⟩
  | handler i r =>
    obtain ⟨completion, hready, -, hr⟩ := step_handler_eq_some hstep
    exact hsettle (hhandle c i completion r h (List.mem_of_getElem? hready)) (by rw [hr])
  | ioStop =>
    obtain ⟨rfl, rfl⟩ := Prod.mk.inj (Option.some_inj.mp hstep)
    exact ⟨hP.ioStopped c true h, by simp⟩
  | ioRestart =>
    obtain ⟨rfl, rfl⟩ := Prod.mk.inj (Option.some_inj.mp hstep)
    exact ⟨hP.ioStopped c false h, by simp⟩

/-- Every step but a send and a completion keeps a law, if it is not about completions, and the
starts of the other operations keep it. It starts no write. -/
theorem step_keeps_of_starts (hP : Kept P)
    (hcompletions : ∀ c i, P c → P { c with operations := c.operations.take i })
    (hreconnect : ∀ c, P c → P { c with shouldReconnect := true })
    (hconnect : ∀ c, P c → P c.doConnect.state) (hread : ∀ c, P c → P c.doRead)
    (hwait : ∀ c, P c →
      P { c with operations := (c.operations.abort Op.onTimer Op.aborted).start .wait })
    {a : Action} {c' : TcpClient} {es : List Event} (h : P c) (hsend : ∀ data, a ≠ .asyncSend data)
    (hcomplete : ∀ i completion, a ≠ .complete i completion)
    (hstep : step cb c a = some (c', es)) : P c' ∧ ∀ e ∈ es, ∀ data, e ≠ .asyncWrite data := by
  have hQ : ∀ e : Event, e.Incidental → ∀ data, e ≠ .asyncWrite data := by
    rintro _ he data rfl
    exact he
  have hretry : ∀ c, P c → (if c.shouldReconnect then scheduleReconnect cb c else .done c).Satisfies
      P (fun e ↦ ∀ data, e ≠ .asyncWrite data) := by
    intro c h
    split_ifs
    · exact scheduleReconnect_satisfies hP hQ hwait (by simp) h
    · exact Outcome.satisfies_done h
  have hdoConnect : ∀ c, P c → c.doConnect.Satisfies P (fun e ↦ ∀ data, e ≠ .asyncWrite data) := by
    intro c h
    refine ⟨hconnect c h, ?_⟩
    rw [doConnect]
    split <;> simp [Outcome.emit]
  have hsettle : ∀ {o : Outcome TcpClient Event},
      o.Satisfies P (fun e ↦ ∀ data, e ≠ .asyncWrite data) → some (settle o) = some (c', es) →
      P c' ∧ ∀ e ∈ es, ∀ data, e ≠ .asyncWrite data := by
    intro o ho heq
    obtain ⟨rfl, rfl⟩ := Prod.mk.inj (Option.some_inj.mp heq)
    exact settle_satisfies ho hQ
  cases a with
  | setEndpoint resolved => exact hsettle (setEndpoint_satisfies hP hQ resolved h) hstep
  | connect =>
    refine hsettle (o := connect c) ?_ hstep
    rw [connect]
    split_ifs
    · exact hdoConnect c h
    · exact Outcome.satisfies_done h
  | asyncSend data => exact absurd rfl (hsend data)
  | close r => exact hsettle (close_satisfies hP hQ r h) hstep
  | complete i completion => exact absurd rfl (hcomplete i completion)
  | handler i r =>
    obtain ⟨completion, -, -, hr⟩ := step_handler_eq_some hstep
    have htaken := hcompletions c i h
    refine hsettle (handle_satisfies hP hQ hretry completion r htaken (fun _ ↦ ?_)
      (fun _ _ _ ↦ readHandler_ok_satisfies hP hread (by simp) r htaken)
      fun _ ↦ hdoConnect _ htaken) (by rw [hr])
    refine (invoke_satisfies (hP.lastOpSuccess _ true htaken) (by simp)).andThen fun c h ↦ ?_
    have hset := hP.reconnectCount _ 0 (hP.wasConnected _ true (hreconnect c h))
    exact Outcome.satisfies_done (hread _ hset)
  | ioStop =>
    obtain ⟨rfl, rfl⟩ := Prod.mk.inj (Option.some_inj.mp hstep)
    exact ⟨hP.ioStopped c true h, by simp⟩
  | ioRestart =>
    obtain ⟨rfl, rfl⟩ := Prod.mk.inj (Option.some_inj.mp hstep)
    exact ⟨hP.ioStopped c false h, by simp⟩

/-- Only `asyncSend` starts a write. -/
theorem ne_asyncWrite_of_step {a : Action} {c' : TcpClient} {es : List Event}
    (hsend : ∀ data, a ≠ .asyncSend data) (hstep : step cb c a = some (c', es)) :
    ∀ e ∈ es, ∀ data, e ≠ .asyncWrite data := by
  by_cases hcomplete : ∃ i completion, a = .complete i completion
  · obtain ⟨i, completion, rfl⟩ := hcomplete
    obtain ⟨-, -, -, hr⟩ := step_complete_eq_some hstep
    obtain ⟨-, rfl⟩ := Prod.mk.inj hr
    simp
  · exact (step_keeps_of_starts kept_true (fun _ _ h ↦ h) (fun _ h ↦ h) (fun _ h ↦ h) (fun _ h ↦ h)
      (fun _ h ↦ h) trivial hsend (fun i completion heq ↦ hcomplete ⟨i, completion, heq⟩) hstep).2

/-! ## The socket -/

/-- An operation on the socket is only in flight while the socket is open. -/
def Grounded (c : TcpClient) : Prop :=
  c.socketOpen = false → ∀ op ∈ c.operations.pending, op.onSocket = false

theorem kept_grounded : Kept Grounded where
  lastOpSuccess _ _ h := h
  wasConnected _ _ h := h
  reconnectCount _ _ h := h
  endpoints _ _ h := h
  stopReconnect _ h := h
  ioStopped _ _ h := h
  abortSocket c _ := fun _ ↦ onSocket_abortSocket c
  closeSocket _ hnone _ := fun _ ↦ hnone
  abortTimer _ h := fun hclosed op hop ↦ h hclosed op (List.mem_filter.mp hop).1

theorem Grounded.asyncSend (h : Grounded c) (data : Bytes) : Grounded (c.asyncSend data).state := by
  intro hclosed op hop
  have hclosed' : c.socketOpen = false := hclosed
  simp only [TcpClient.asyncSend, Outcome.emit, hclosed', Bool.false_eq_true, if_false] at hop
  split_ifs at hop
  · exact h hclosed' op hop
  · exact h hclosed' op hop

theorem Grounded.step {a : Action} {c' : TcpClient} {es : List Event} (h : Grounded c)
    (hstep : step cb c a = some (c', es)) : Grounded c' := by
  by_cases hsend : ∃ data, a = .asyncSend data
  · obtain ⟨data, rfl⟩ := hsend
    obtain ⟨rfl, -⟩ := Prod.mk.inj (Option.some_inj.mp hstep)
    exact h.asyncSend data
  by_cases hcomplete : ∃ i completion, a = .complete i completion
  · obtain ⟨i, completion, rfl⟩ := hcomplete
    obtain ⟨-, -, -, hr⟩ := step_complete_eq_some hstep
    obtain ⟨rfl, -⟩ := Prod.mk.inj hr
    exact fun hclosed op hop ↦ h hclosed op (List.eraseIdx_subset hop)
  refine (step_keeps_of_starts kept_grounded (fun _ _ h ↦ h) (fun _ h ↦ h) ?_ ?_ ?_ h
    (fun data heq ↦ hsend ⟨data, heq⟩)
    (fun i completion heq ↦ hcomplete ⟨i, completion, heq⟩) hstep).1
  · intro c h
    rw [doConnect]
    split
    · exact h
    · exact fun hclosed ↦ absurd hclosed (by simp [Outcome.emit])
  · intro c h
    rw [doRead]
    split_ifs with hopen
    · exact fun hclosed ↦ absurd (hopen.symm.trans hclosed) (by simp)
    · exact h
  · intro c h hclosed op hop
    rcases List.mem_append.mp hop with hop | hop
    · exact h hclosed op (List.mem_filter.mp hop).1
    · rw [List.mem_singleton.mp hop]
      rfl

end TcpClient

end Client

end PushService
