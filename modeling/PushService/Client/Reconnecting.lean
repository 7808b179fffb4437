import PushService.Client.Rules

/-!
# What leads to a connection attempt, and what does not

Six situations lead to a further `async_connect` without anybody calling `connect`: the reconnect
timer runs or has expired, a connect is under way or has succeeded, or `shouldReconnect_` is set and
a read is under way or has failed. Each of them is a step away from the one before
(`attempts_of_…`).

Two properties of the state rule all of that out for good, until `connect` is called: `Settled`, for
a client that is not going to reconnect, and `Dormant`, for a client with nothing but writes in
flight.
-/

namespace PushService

namespace Client

/-- An operation whose success starts something. -/
def Op.starts : Op → Bool
  | connect | wait => true
  | _ => false

/-- A completion whose handler starts something, or reports a connection. -/
def Completion.starts : Completion → Bool
  | connect none | wait none => true
  | _ => false

namespace TcpClient

/-- A new attempt to connect. -/
def Event.isAttempt : Event → Bool
  | .asyncConnect _ => true
  | _ => false

/-- A new attempt to connect, a wait for one, or the report of a connection. -/
def Event.restarts : Event → Bool
  | .asyncConnect _ | .asyncWait | .onConnected _ => true
  | _ => false

/-- Something that happens without a call of the owner. -/
def Action.isNetwork : Action → Bool
  | .complete _ _ | .handler _ _ | .ioStop | .ioRestart => true
  | _ => false

variable {cb : Callbacks} {c : TcpClient}

/-! ## What leads to an attempt -/

/-- Left alone, the client may come to another attempt. -/
def MayAttempt (cb : Callbacks) (c : TcpClient) : Prop :=
  (system cb).Emits (fun a ↦ a.isNetwork = true) (fun e ↦ e.isAttempt = true) c

theorem MayAttempt.of_complete {i : ℕ} {op : Op} (completion : Completion)
    (hop : c.operations.pending[i]? = some op) (hcompletes : op.Completes completion)
    (h : MayAttempt cb { c with operations := c.operations.complete i completion }) :
    MayAttempt cb c := by
  have hstep : (system cb).step c (.complete i completion)
      = some ({ c with operations := c.operations.complete i completion }, []) := by
    simp only [system, step, hop, if_pos hcompletes]
  exact System.Emits.of_step rfl hstep h

/-- The context is restarted, in case it had stopped, and a handler runs. -/
theorem MayAttempt.of_handler {completion : Completion} (hmem : completion ∈ c.operations.ready)
    (r : CloseResults)
    (h : ∀ i, (∃ e ∈ (settle (handle cb completion r
        { c with ioStopped := false, operations := c.operations.take i })).2, e.isAttempt = true) ∨
      MayAttempt cb (settle (handle cb completion r
        { c with ioStopped := false, operations := c.operations.take i })).1) :
    MayAttempt cb c := by
  obtain ⟨i, hi⟩ := List.mem_iff_getElem?.mp hmem
  have hstep : (system cb).step { c with ioStopped := false } (.handler i r)
      = some (settle (handle cb completion r
        { c with ioStopped := false, operations := c.operations.take i })) := by
    simp only [system, step, hi]
  refine System.Emits.of_step (a := .ioRestart) rfl rfl ?_
  rcases h i with ⟨e, he, hattempt⟩ | hnext
  · exact System.emits_now rfl hstep he hattempt
  · exact System.Emits.of_step rfl hstep hnext

/-- The reconnect timer has expired. -/
theorem attempts_of_expired (h : Completion.wait none ∈ c.operations.ready) : MayAttempt cb c := by
  refine MayAttempt.of_handler h .ok fun i ↦ .inl ⟨.asyncConnect c.endpoints, ?_, rfl⟩
  rw [handle, waitHandler, doConnect]
  split <;> simp_all [settle, Outcome.emit]

/-- The reconnect timer is running. -/
theorem attempts_of_wait (h : Op.wait ∈ c.operations.pending) : MayAttempt cb c := by
  obtain ⟨i, hi⟩ := List.mem_iff_getElem?.mp h
  exact MayAttempt.of_complete (.wait none) hi rfl
    (attempts_of_expired (Operations.mem_ready_complete c.operations i (.wait none)))

/-- Scheduling a reconnect arms the timer. -/
theorem wait_mem_scheduleReconnect (c : TcpClient) :
    Op.wait ∈ (scheduleReconnect cb c).state.operations.pending := by
  rw [scheduleReconnect, invoke_andThen_state]
  dsimp only [Outcome.emit]
  split_ifs <;> simp

/-- A read has failed, and `shouldReconnect_` is set. -/
theorem attempts_of_read_failed (hreconnect : c.shouldReconnect = true) {connection : ℕ}
    {message : String}
    (h : Completion.read connection (.error (.other message)) ∈ c.operations.ready) :
    MayAttempt cb c := by
  refine MayAttempt.of_handler h .ok fun i ↦ .inr (attempts_of_wait ?_)
  rw [handle, readHandler_other, settle, invoke_andThen_state, closeConnection_ok,
    invoke_andThen_state, if_pos (by exact hreconnect)]
  exact wait_mem_scheduleReconnect _

/-- A read is under way, and `shouldReconnect_` is set. -/
theorem attempts_of_read (hreconnect : c.shouldReconnect = true) {connection : ℕ}
    (h : Op.read connection ∈ c.operations.pending) : MayAttempt cb c := by
  obtain ⟨i, hi⟩ := List.mem_iff_getElem?.mp h
  exact MayAttempt.of_complete (.read connection (.error (.other "End of file"))) hi
    ⟨rfl, by simp⟩ (attempts_of_read_failed hreconnect (Operations.mem_ready_complete ..))

theorem attempts_of_doRead (hreconnect : c.shouldReconnect = true) : MayAttempt cb c.doRead := by
  rw [doRead]
  split_ifs
  · exact attempts_of_read hreconnect (Operations.mem_pending_start c.operations _)
  · exact attempts_of_read_failed hreconnect (Operations.mem_ready_post c.operations _)

/-- A connect has succeeded. -/
theorem attempts_of_connected (h : Completion.connect none ∈ c.operations.ready) :
    MayAttempt cb c := by
  refine MayAttempt.of_handler h .ok fun i ↦ .inr ?_
  rw [handle, connectHandler, settle, invoke_andThen_state]
  exact attempts_of_doRead rfl

/-- A connect is under way. -/
theorem attempts_of_connect (h : Op.connect ∈ c.operations.pending) : MayAttempt cb c := by
  obtain ⟨i, hi⟩ := List.mem_iff_getElem?.mp h
  exact MayAttempt.of_complete (.connect none) hi (by simp [Op.Completes])
    (attempts_of_connected (Operations.mem_ready_complete c.operations i (.connect none)))

/-- A completion that starts something is queued. -/
theorem attempts_of_ready {completion : Completion} (h : completion ∈ c.operations.ready)
    (hstarts : completion.starts = true) : MayAttempt cb c := by
  rcases completion with (_ | ec) | _ | _ | (_ | ec)
  · exact attempts_of_connected h
  · exact absurd hstarts (by simp [Completion.starts])
  · exact absurd hstarts (by simp [Completion.starts])
  · exact absurd hstarts (by simp [Completion.starts])
  · exact attempts_of_expired h
  · exact absurd hstarts (by simp [Completion.starts])

/-! ## What rules attempts out -/

/-- The client is not going to reconnect, and nothing is in flight that would make it. -/
structure Settled (c : TcpClient) : Prop where
  shouldReconnect : c.shouldReconnect = false
  operations : c.operations.Forall (fun op ↦ op.starts = false) (fun d ↦ d.starts = false)

/-- Nothing is in flight but writes, and no completion is queued but theirs and aborted waits. -/
def Dormant (c : TcpClient) : Prop :=
  c.operations.Forall (fun op ↦ ∃ call size, op = .write call size)
    (fun d ↦ (∃ ec length, d = .write ec length) ∨ ∃ ec, d = .wait (some ec))

theorem aborted_starts (op : Op) : op.aborted.starts = false := by
  cases op <;> rfl

/-- Settled, with a socket that is open only if `S`. -/
theorem kept_settled (S : Prop) : Kept fun c ↦ Settled c ∧ (c.socketOpen = true → S) where
  lastOpSuccess _ _ h := ⟨⟨h.1.1, h.1.2⟩, h.2⟩
  wasConnected _ _ h := ⟨⟨h.1.1, h.1.2⟩, h.2⟩
  reconnectCount _ _ h := ⟨⟨h.1.1, h.1.2⟩, h.2⟩
  endpoints _ _ h := ⟨⟨h.1.1, h.1.2⟩, h.2⟩
  stopReconnect _ h := ⟨⟨rfl, h.1.2⟩, h.2⟩
  ioStopped _ _ h := ⟨⟨h.1.1, h.1.2⟩, h.2⟩
  abortSocket _ h :=
    ⟨⟨h.1.1, h.1.2.abort (fun _ _ hop ↦ hop) fun op _ _ ↦ aborted_starts op⟩, h.2⟩
  closeSocket _ _ h := ⟨⟨h.1.1, h.1.2⟩, by simp⟩
  abortTimer _ h :=
    ⟨⟨h.1.1, h.1.2.abort (fun _ _ hop ↦ hop) fun op _ _ ↦ aborted_starts op⟩, h.2⟩

theorem kept_dormant : Kept Dormant where
  lastOpSuccess _ _ h := h
  wasConnected _ _ h := h
  reconnectCount _ _ h := h
  endpoints _ _ h := h
  stopReconnect _ h := h
  ioStopped _ _ h := h
  abortSocket _ h := h.abort (fun _ _ hop ↦ hop) fun op _ hop ↦ by
    obtain ⟨call, size, rfl⟩ := hop
    exact .inl ⟨_, _, rfl⟩
  closeSocket _ _ h := h
  abortTimer _ h := h.abort (fun _ _ hop ↦ hop) fun op hsel hop ↦ by
    obtain ⟨call, size, rfl⟩ := hop
    exact absurd hsel (by simp [Op.onTimer])

theorem not_restarts_of_incidental {e : Event} (h : e.Incidental) : e.restarts = false := by
  cases e <;> simp_all [Event.Incidental, Event.restarts]

/-- A settled client stays settled, and does not open its socket. -/
theorem Settled.step {a : Action} {c' : TcpClient} {es : List Event} (h : Settled c)
    (ha : a ≠ .connect) (hstep : TcpClient.step cb c a = some (c', es)) :
    (Settled c' ∧ (c'.socketOpen = true → c.socketOpen = true)) ∧
      ∀ e ∈ es, e.restarts = false := by
  have hQ : ∀ e : Event, e.Incidental → e.restarts = false := fun _ ↦ not_restarts_of_incidental
  have hkept := kept_settled (c.socketOpen = true)
  refine step_keeps hkept hQ ?_ ?_ ?_ ⟨h, id⟩ ha hstep
  · rintro c data ⟨h, hopen⟩
    refine Outcome.satisfies_emit ⟨⟨h.1, ?_⟩, hopen⟩ rfl
    split_ifs
    · exact h.2.post rfl
    · exact h.2.start rfl
    · exact h.2.post rfl
  · rintro c i op completion ⟨h, hopen⟩ hop hcompletes
    refine ⟨⟨h.1, h.2.complete i ?_⟩, hopen⟩
    have hstarts := h.2.pending op hop
    cases op <;> rcases completion with _ | _ | _ | _ <;>
      simp_all [Op.starts, Op.Completes, Completion.starts]
  · rintro c i completion r ⟨h, hopen⟩ hmem
    have hstarts := h.2.ready completion hmem
    have htaken : Settled { c with operations := c.operations.take i } := ⟨h.1, h.2.take i⟩
    refine handle_satisfies hkept hQ (fun c h ↦ ?_) completion r ⟨htaken, hopen⟩ ?_ ?_ ?_
    · rw [if_neg (by simp [h.1.1])]
      exact Outcome.satisfies_done h
    · rintro rfl
      exact absurd hstarts (by simp [Completion.starts])
    · rintro connection data rfl
      refine readHandler_ok_satisfies (Q := fun e ↦ e.restarts = false) hkept (fun c h ↦ ?_)
        rfl r ⟨htaken, hopen⟩
      rw [doRead]
      split_ifs
      · exact ⟨⟨h.1.1, h.1.2.start rfl⟩, h.2⟩
      · exact ⟨⟨h.1.1, h.1.2.post rfl⟩, h.2⟩
    · rintro rfl
      exact absurd hstarts (by simp [Completion.starts])

/-- A dormant client stays dormant. -/
theorem Dormant.step {a : Action} {c' : TcpClient} {es : List Event} (h : Dormant c)
    (ha : a ≠ .connect) (hstep : TcpClient.step cb c a = some (c', es)) :
    Dormant c' ∧ ∀ e ∈ es, e.restarts = false := by
  have hQ : ∀ e : Event, e.Incidental → e.restarts = false := fun _ ↦ not_restarts_of_incidental
  refine step_keeps kept_dormant hQ ?_ ?_ ?_ h ha hstep
  · intro c data h
    refine Outcome.satisfies_emit ?_ rfl
    split_ifs
    · exact h.post (.inl ⟨_, _, rfl⟩)
    · exact h.start ⟨_, _, rfl⟩
    · exact h.post (.inl ⟨_, _, rfl⟩)
  · intro c i op completion h hop hcompletes
    apply h.complete i
    obtain ⟨call, size, rfl⟩ := h.pending op hop
    rcases completion with _ | _ | _ | _ <;> simp_all [Op.Completes]
  · intro c i completion r h hmem
    have htaken : Dormant { c with operations := c.operations.take i } := h.take i
    rcases h.ready completion hmem with ⟨ec, length, rfl⟩ | ⟨ec, rfl⟩
    · exact writeHandler_satisfies kept_dormant hQ ec length htaken
    · exact Outcome.satisfies_done htaken

end TcpClient

end Client

end PushService
