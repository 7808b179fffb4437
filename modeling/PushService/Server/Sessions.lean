import PushService.Server.Registry

/-!
# Closing a session once

A session can be closed by its own read or write failing, by the owner, and by the server when it
stops, and several of these can happen to the same session. `close` looks at the socket first, so
only the first does anything, and that is when `onDisconnected_` is called. `Reports` says so of
every piece of the server: as many sessions with an id have been closed as were reported.
-/

namespace PushService

namespace Server

namespace TcpServer

variable {cb : Callbacks} {s s' : TcpServer} {id : SessionId}

/-- How many sessions with this id have been closed. -/
def closed (s : TcpServer) (id : SessionId) : ℕ :=
  s.sessions.countP fun c ↦ c.id = id && !c.socketOpen

/-- The sessions closed in between are those that have been reported. -/
def Reports (s : TcpServer) (es : List Event) (s' : TcpServer) : Prop :=
  ∀ id, s'.closed id = s.closed id + es.count (.onDisconnected id)

theorem composes_reports : System.Composes Reports where
  nil s id := by simp
  append h h' id := by
    rw [h' id, h id, List.count_append, Nat.add_assoc]

/-- Nothing is closed and nothing is reported. -/
theorem Reports.of_closed {es : List Event} (hclosed : ∀ id, s'.closed id = s.closed id)
    (hes : ∀ e ∈ es, ∀ id, e ≠ .onDisconnected id) : Reports s es s' := by
  intro id
  rw [hclosed, List.count_eq_zero_of_not_mem fun hmem ↦ hes _ hmem id rfl, Nat.add_zero]

theorem Reports.of_sessions {es : List Event} (hsessions : s'.sessions = s.sessions)
    (hes : ∀ e ∈ es, ∀ id, e ≠ .onDisconnected id) : Reports s es s' :=
  .of_closed (fun id ↦ by rw [closed, closed, hsessions]) hes

/-! ## The pieces -/

@[simp] theorem sessions_doRead (session : ℕ) : (s.doRead session).sessions = s.sessions :=
  doRead_cases (P := fun s' ↦ s'.sessions = s.sessions) rfl rfl

@[simp] theorem sessions_doAccept : s.doAccept.state.sessions = s.sessions :=
  doAccept_cases (P := fun s' ↦ s'.sessions = s.sessions) rfl rfl

@[simp] theorem sessions_writeSome (session : ℕ) (data : Bytes) :
    (s.writeSome session data).sessions = s.sessions :=
  writeSome_cases (P := fun s' ↦ s'.sessions = s.sessions) (fun _ ↦ rfl) rfl

theorem closed_enroll : s.enroll.closed id = s.closed id := by
  simp [closed, enroll, List.countP_append]

theorem closed_shut {session : ℕ} {c : ClientSession} (hc : s.sessions[session]? = some c)
    (hopen : c.socketOpen = true) :
    (s.shut session c).closed id = s.closed id + if c.id = id then 1 else 0 := by
  have hset := Operations.countP_set (p := fun c ↦ decide (c.id = id) && !c.socketOpen) hc
    { c with socketOpen := false }
  simpa [closed, shut, hopen] using hset

theorem closed_transmit (completion : Completion) (operations : Operations Op Completion) :
    closed { s with sessions := transmit completion s.sessions, operations := operations } id
      = s.closed id := by
  have hcount : ∀ sessions : List ClientSession,
      sessions.countP (fun c ↦ decide (c.id = id) && !c.socketOpen)
        = (sessions.map fun c ↦ (c.id, c.socketOpen)).countP fun p ↦ decide (p.1 = id) && !p.2 :=
    fun sessions ↦ by rw [List.countP_map]; rfl
  rw [closed, closed, hcount, hcount, map_transmit fun _ _ ↦ rfl]

/-- `close` reports the session if it closes it. -/
theorem close_reports (hcb : cb.onDisconnected = true) (session : ℕ) :
    (close cb session s).Relates Reports s := by
  by_cases hopen : s.isOpen session = true
  · obtain ⟨c, hc, hco⟩ := isOpen_iff.mp hopen
    rw [close_of_open hc hco, invoke, if_pos hcb]
    intro id
    change (s.shut session c).closed id = s.closed id + List.count _ [Event.onDisconnected c.id]
    rw [closed_shut hc hco, List.count_singleton]
    simp
  · rw [close_of_not_open (by simpa using hopen)]
    exact composes_reports.nil s

theorem closeEach_reports (hcb : cb.onDisconnected = true) (order : List ℕ) :
    (closeEach cb order s).Relates Reports s := by
  induction order generalizing s with
  | nil => exact composes_reports.nil s
  | cons session order ih => exact (close_reports hcb session).andThen composes_reports ih

theorem invoke_reports {isSet : Bool} {e : Event} (he : ∀ id, e ≠ .onDisconnected id)
    (hsessions : ∀ id, s'.closed id = s.closed id) :
    (invoke isSet e s').Relates Reports s := by
  rw [invoke]
  split_ifs
  · exact Reports.of_closed hsessions (by simpa [Outcome.emit] using he)
  · exact Reports.of_closed hsessions (by simp [Outcome.done])

theorem doAccept_reports : s.doAccept.Relates Reports s :=
  Reports.of_sessions sessions_doAccept (by simp [doAccept, Outcome.emit])

theorem welcome_reports (answers : Answers) : (welcome cb answers s).Relates Reports s := by
  rw [welcome]
  split
  · exact composes_reports.nil s
  · refine (invoke_reports (by simp) fun id ↦ closed_enroll).andThen composes_reports ?_
    split_ifs
    · exact composes_reports.nil _
    · exact Reports.of_sessions (sessions_doRead _) (by simp [Outcome.done])

theorem acceptHandler_reports (ec : Option ErrorCode) (answers : Answers) :
    (acceptHandler cb ec answers s).Relates Reports s := by
  refine Outcome.Relates.andThen composes_reports ?_ ?_
  · cases ec with
    | none => exact welcome_reports answers
    | some ec => exact composes_reports.nil s
  · split_ifs
    · exact doAccept_reports
    · exact composes_reports.nil _

theorem readHandler_reports (hcb : cb.onDisconnected = true) (session : ℕ)
    (result : Except ErrorCode Bytes) : (readHandler cb session result s).Relates Reports s := by
  cases result with
  | error ec => exact close_reports hcb session
  | ok data =>
    rw [readHandler]
    split
    · exact (invoke_reports (by simp) fun id ↦ rfl).andThen composes_reports
        (Reports.of_sessions (sessions_doRead _) (by simp [Outcome.done]))
    · exact composes_reports.nil s

theorem writeHandler_reports (hcb : cb.onDisconnected = true) (session : ℕ) (data : Bytes)
    (length : ℕ) (ec : Option ErrorCode) :
    (writeHandler cb session data length ec s).Relates Reports s := by
  cases ec with
  | some ec => exact close_reports hcb session
  | none =>
    rw [writeHandler]
    split_ifs
    · exact Reports.of_sessions (sessions_writeSome ..) (by simp [Outcome.done])
    · exact composes_reports.nil s

theorem handle_reports (hcb : cb.onDisconnected = true) (completion : Completion)
    (answers : Answers) : (handle cb completion answers s).Relates Reports s := by
  cases completion with
  | accept ec => exact acceptHandler_reports ec answers
  | stop => exact closeEach_reports hcb answers.order
  | read session result => exact readHandler_reports hcb session result
  | write session data length ec => exact writeHandler_reports hcb session data length ec

theorem asyncSend_reports (session : ℕ) (data : Bytes) :
    (asyncSend session data s).Relates Reports s := by
  refine Reports.of_sessions ?_ (by simp [asyncSend, Outcome.emit])
  rw [asyncSend]
  dsimp only [Outcome.emit]
  split_ifs
  · rfl
  · exact sessions_writeSome session data

theorem sendToEach_reports (data : Bytes) (order : List ℕ) :
    (sendToEach data order s).Relates Reports s := by
  induction order generalizing s with
  | nil => exact composes_reports.nil s
  | cons session order ih => exact (asyncSend_reports session data).andThen composes_reports ih

theorem settle_reports {o : Outcome TcpServer Event} (ho : o.Relates Reports s) :
    Reports s (settle o).2 (settle o).1 :=
  ho.reported composes_reports fun _ ↦ .of_closed (fun _ ↦ rfl) (by simp)

/-- What is closed in a step is reported in it. -/
theorem step_reports (hcb : cb.onDisconnected = true) {a : Action} {es : List Event}
    (hstep : step cb s a = some (s', es)) : Reports s es s' := by
  have hsettle : ∀ {o : Outcome TcpServer Event}, o.Relates Reports s → (s', es) = settle o →
      Reports s es s' := by
    intro o ho heq
    have hr := settle_reports ho
    rwa [← heq] at hr
  cases a with
  | start => exact hsettle doAccept_reports (Option.some_inj.mp hstep).symm
  | stop =>
    obtain ⟨rfl, rfl⟩ := Prod.mk.inj (Option.some_inj.mp hstep)
    exact .of_sessions rfl (by simp)
  | broadcast data order =>
    obtain ⟨-, hr⟩ := step_broadcast_eq_some hstep
    exact hsettle (sendToEach_reports data order) hr
  | asyncSend session data =>
    obtain ⟨-, hr⟩ := step_asyncSend_eq_some hstep
    exact hsettle (asyncSend_reports session data) hr
  | close session => exact hsettle (close_reports hcb session) (Option.some_inj.mp hstep).symm
  | complete i completion =>
    obtain ⟨-, -, -, -, hr⟩ := step_complete_eq_some hstep
    obtain ⟨rfl, rfl⟩ := Prod.mk.inj hr
    exact .of_closed (fun _ ↦ closed_transmit completion _) (by simp)
  | handler i answers =>
    obtain ⟨completion, -, -, hr⟩ := step_handler_eq_some hstep
    have hhandled := settle_reports
      (handle_reports hcb completion answers (s := { s with operations := s.operations.take i }))
    rw [← hr] at hhandled
    exact hhandled

/-! ## Whole runs -/

theorem Numbered.nodup_ids (h : s.Numbered) (hlt : s.sessions.length < 2 ^ 64) :
    (s.sessions.map ClientSession.id).Nodup := by
  rw [List.nodup_iff_injective_getElem]
  rintro ⟨i, hi⟩ ⟨j, hj⟩ heq
  rw [List.length_map] at hi hj
  -- the id is the number of the session plus one, which does not wrap around
  have hids := h.ids i _ (List.getElem?_eq_getElem hi)
  have hids' := h.ids j _ (List.getElem?_eq_getElem hj)
  simp only [List.getElem_map] at heq
  have hij := ofNat_inj_of_lt (by omega) (by omega) (hids.symm.trans (heq.trans hids'))
  exact Fin.ext (Nat.succ.inj hij)

/-- With distinct ids, a session that is closed counts once and one that is open not at all. -/
theorem closed_of_nodup (hnodup : (s.sessions.map ClientSession.id).Nodup) {session : ℕ}
    {c : ClientSession} (hc : s.sessions[session]? = some c) :
    s.closed c.id = if c.socketOpen then 0 else 1 := by
  obtain ⟨l₁, l₂, hsplit, -, -⟩ := Operations.exists_split hc
  rw [hsplit, List.map_append, List.map_cons, List.nodup_middle, List.nodup_cons] at hnodup
  -- nothing to the left or to the right has this id
  have hnone : ∀ l : List ClientSession, (∀ c' ∈ l, c' ∈ l₁ ∨ c' ∈ l₂) →
      l.countP (fun c' ↦ decide (c'.id = c.id) && !c'.socketOpen) = 0 := by
    intro l hl
    rw [List.countP_eq_zero]
    intro c' hc' hp
    obtain ⟨hid, -⟩ := Bool.and_eq_true _ _ ▸ hp
    refine hnodup.1 (List.mem_append.mpr ?_)
    rw [← of_decide_eq_true hid]
    exact (hl c' hc').imp List.mem_map_of_mem List.mem_map_of_mem
  rw [closed, hsplit, List.countP_append, List.countP_cons, hnone l₁ fun _ ↦ .inl,
    hnone l₂ fun _ ↦ .inr]
  cases c.socketOpen <;> simp

theorem Bookkept.mem_registry_iff (h : s.Bookkept) (hlt : s.sessions.length < 2 ^ 64)
    {session : ℕ} {c : ClientSession} (hc : s.sessions[session]? = some c) :
    c.id ∈ s.registry ↔ c.socketOpen = true := by
  have hid := h.ids session c hc
  have hsession : session < s.sessions.length := (List.getElem?_eq_some_iff.mp hc).1
  rw [← AList.lookup_isSome, Option.isSome_iff_exists]
  constructor
  · rintro ⟨session', hlookup⟩
    obtain ⟨heq, hopen⟩ := (h.lookup hlt _ _).mp hlookup
    have hsession' := lt_of_isOpen hopen
    have hinj := ofNat_inj_of_lt (by omega) (by omega) (hid.symm.trans heq)
    obtain rfl : session = session' := Nat.succ.inj hinj
    obtain ⟨c', hc', hopen⟩ := isOpen_iff.mp hopen
    rwa [Option.some_inj.mp (hc.symm.trans hc')]
  · intro hopen
    exact ⟨session, (h.lookup hlt _ _).mpr ⟨hid, isOpen_iff.mpr ⟨c, hc, hopen⟩⟩⟩

/-- **Every session is accounted for.** With `onDisconnected_` set and fewer than `2 ^ 64` sessions,
ids are distinct, a session is in the registry exactly while its socket is open, and it is
reported once if it has been closed and not before. -/
theorem sessions_accounted (cb : Callbacks) (hcb : cb.onDisconnected = true) :
    ∀ as s (h : List Event), (system cb).run init as = some (s, h) → s.sessions.length < 2 ^ 64 →
      (s.sessions.map ClientSession.id).Nodup ∧
      ∀ (session : ℕ) c, s.sessions[session]? = some c →
        (c.id ∈ s.registry ↔ c.socketOpen = true) ∧
        h.count (.onDisconnected c.id) = if c.socketOpen then 0 else 1 := by
  intro as s h hrun hlt
  have hbookkept := bookkept_of_run hrun
  have hnodup := hbookkept.nodup_ids hlt
  have hreports : Reports init h s := System.run_relates composes_reports
    (C := fun _ _ ↦ True) (fun _ hstep ↦ step_reports hcb hstep)
    (System.obeys_of_all (fun _ _ ↦ trivial) _ _) hrun
  refine ⟨hnodup, fun session c hc ↦ ⟨hbookkept.mem_registry_iff hlt hc, ?_⟩⟩
  have hclosed := hreports c.id
  rw [closed_of_nodup hnodup hc] at hclosed
  simpa [closed, init] using hclosed.symm

/-- One client is accepted and then closed by the owner. -/
def closedRun : List Action := [.start, .complete 0 (.accept none), .handler 0 .ok, .close 0]

theorem sessions_accounted_closedRun : ∃ s h, (system .allSet).run init closedRun = some (s, h) ∧
    (1 : SessionId) ∉ s.registry ∧ h.count (.onDisconnected 1) = 1 := by
  obtain ⟨hregistry, hcount⟩ :=
    (sessions_accounted .allSet rfl closedRun _ _ rfl (by decide)).2 0 ⟨1, false, []⟩ rfl
  exact ⟨_, _, rfl, by simpa using hregistry, hcount⟩

end TcpServer

end Server

end PushService
