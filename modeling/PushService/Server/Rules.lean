import PushService.Server.TcpServer

/-!
# Rules for the calls and handlers of `TcpServer`

Partial correctness of each function, for any property `P` of the state and any property `Q` of the
outputs. A law says what it makes of the small changes the functions consist of (`Kept`); what a new
session and what is left of a message mean for it stays a hypothesis.
-/

namespace PushService

namespace Server

namespace TcpServer

/-- The outputs that report neither a connection nor a message. -/
def Event.Incidental : Event → Prop
  | .onConnected _ _ | .asyncSend _ _ => False
  | _ => True

/-- The session is closed and taken out of the registry. -/
def shut (session : ℕ) (c : ClientSession) (s : TcpServer) : TcpServer :=
  { s with
    sessions := s.sessions.set session { c with socketOpen := false }
    registry := s.registry.erase c.id
    operations := s.operations.abort (Op.onSession session) Op.aborted }

/-- A new session is made and registered. -/
def enroll (s : TcpServer) : TcpServer :=
  { s with
    nextSessionId := s.nextSessionId + 1
    sessions := s.sessions ++ [⟨s.nextSessionId, true, []⟩]
    registry := s.registry.insert s.nextSessionId s.sessions.length }

/-- The acceptor is closed. -/
def shutAcceptor (s : TcpServer) : TcpServer :=
  { s with
    acceptorOpen := false
    operations := s.operations.abort Op.onAcceptor Op.aborted }

variable {P : TcpServer → Prop} {Q : Event → Prop} {cb : Callbacks} {s : TcpServer}

theorem isOpen_iff {session : ℕ} :
    s.isOpen session = true ↔ ∃ c, s.sessions[session]? = some c ∧ c.socketOpen = true := by
  rw [isOpen]
  cases s.sessions[session]? <;> simp

theorem close_of_open {session : ℕ} {c : ClientSession} (hc : s.sessions[session]? = some c)
    (hopen : c.socketOpen = true) :
    close cb session s
      = invoke cb.onDisconnected (.onDisconnected c.id) (s.shut session c) := by
  rw [close, hc]
  dsimp only
  rw [if_pos hopen]
  rfl

theorem close_of_not_open {session : ℕ} (h : s.isOpen session = false) :
    close cb session s = .done s := by
  rw [isOpen] at h
  rw [close]
  cases hc : s.sessions[session]? with
  | none => rfl
  | some c =>
    rw [hc] at h
    simp [show c.socketOpen = false from h]

theorem invoke_satisfies {isSet : Bool} {e : Event} (h : P s) (he : Q e) :
    (invoke isSet e s).Satisfies P Q :=
  Outcome.satisfies_ite h he

@[simp] theorem invoke_state (isSet : Bool) (e : Event) (s : TcpServer) :
    (invoke isSet e s).state = s := by
  cases isSet <;> rfl

@[simp] theorem settle_fst (o : Outcome TcpServer Event) : (settle o).1 = o.state := rfl

theorem settle_satisfies {o : Outcome TcpServer Event} (h : o.Satisfies P Q)
    (hQ : ∀ e, e.Incidental → Q e) : P (settle o).1 ∧ ∀ e ∈ (settle o).2, Q e :=
  ⟨h.1, h.reported (hQ .threw trivial)⟩

/-- What a law makes of the changes that concern neither a new session nor a message. -/
structure Kept (P : TcpServer → Prop) : Prop where
  shut : ∀ s session c, P s → s.sessions[session]? = some c → c.socketOpen = true →
    P (s.shut session c)
  doRead : ∀ s session, P s → P (s.doRead session)
  doAccept : ∀ s, P s → P s.doAccept.state

/-- The two ways a read can start. -/
theorem doRead_cases {session : ℕ}
    (hstart : P { s with operations := s.operations.start (.read session) })
    (hpost : P { s with
      operations := s.operations.post (.read session (.error .badDescriptor)) }) :
    P (s.doRead session) := by
  rw [doRead]
  split_ifs
  · exact hstart
  · exact hpost

/-- The two ways an accept can start. -/
theorem doAccept_cases (hstart : P { s with operations := s.operations.start .accept })
    (hpost : P { s with operations := s.operations.post (.accept (some .badDescriptor)) }) :
    P s.doAccept.state := by
  rw [doAccept]
  dsimp only [Outcome.emit]
  split_ifs
  · exact hstart
  · exact hpost

/-- The two ways the next part of a message can start. -/
theorem writeSome_cases {session : ℕ} {data : Bytes}
    (hstart : s.isOpen session = true →
      P { s with operations := s.operations.start (.write session data) })
    (hpost : P { s with
      operations := s.operations.post (.write session data 0 (some .badDescriptor)) }) :
    P (s.writeSome session data) := by
  rw [writeSome]
  split_ifs with hopen
  · exact hstart hopen
  · exact hpost

/-- A law that does not look at the operations. -/
theorem Kept.of_operations
    (hshut : ∀ s session c, P s → s.sessions[session]? = some c → P (s.shut session c))
    (hoperations : ∀ (s : TcpServer) o, P s → P { s with operations := o }) : Kept P where
  shut s session c h hc _ := hshut s session c h hc
  doRead s _ h := doRead_cases (hoperations s _ h) (hoperations s _ h)
  doAccept s h := doAccept_cases (hoperations s _ h) (hoperations s _ h)

theorem Kept.and {P' : TcpServer → Prop} (hP : Kept P) (hP' : Kept P') :
    Kept (fun s ↦ P s ∧ P' s) where
  shut s session c h hc hopen :=
    ⟨hP.shut s session c h.1 hc hopen, hP'.shut s session c h.2 hc hopen⟩
  doRead s session h := ⟨hP.doRead s session h.1, hP'.doRead s session h.2⟩
  doAccept s h := ⟨hP.doAccept s h.1, hP'.doAccept s h.2⟩

theorem sendToEach_satisfies {data : Bytes}
    (hsend : ∀ s session, P s → (asyncSend session data s).Satisfies P Q) (order : List ℕ)
    (h : P s) :
    (sendToEach data order s).Satisfies P Q := by
  induction order generalizing s with
  | nil => exact Outcome.satisfies_done h
  | cons session order ih => exact (hsend s session h).andThen fun _ h ↦ ih h

section Sessions

/- Closing and reading need only what these two changes mean. -/
variable (hshut : ∀ s session c, P s → s.sessions[session]? = some c → c.socketOpen = true →
  P (s.shut session c)) (hQ : ∀ e, e.Incidental → Q e)

include hshut hQ

theorem close_of_shut (session : ℕ) (h : P s) : (close cb session s).Satisfies P Q := by
  by_cases hopen : s.isOpen session = true
  · obtain ⟨c, hc, hco⟩ := isOpen_iff.mp hopen
    rw [close_of_open hc hco]
    exact invoke_satisfies (hshut s session c h hc hco) (hQ _ trivial)
  · rw [close_of_not_open (by simpa using hopen)]
    exact Outcome.satisfies_done h

theorem closeEach_of_shut (order : List ℕ) (h : P s) :
    (closeEach cb order s).Satisfies P Q := by
  induction order generalizing s with
  | nil => exact Outcome.satisfies_done h
  | cons session order ih => exact (close_of_shut hshut hQ session h).andThen fun _ h ↦ ih h

theorem readHandler_of_shut (hread : ∀ s session, P s → P (s.doRead session)) (session : ℕ)
    (result : Except ErrorCode Bytes) (h : P s) :
    (readHandler cb session result s).Satisfies P Q := by
  cases result with
  | error ec => exact close_of_shut hshut hQ session h
  | ok data =>
    rw [readHandler]
    split
    · exact (invoke_satisfies h (hQ (.onDataReceived _ _) trivial)).andThen fun s h ↦
        Outcome.satisfies_done (hread s session h)
    · exact Outcome.satisfies_done h

theorem writeHandler_of_shut (session : ℕ) (data : Bytes) (length : ℕ) (ec : Option ErrorCode)
    (h : P s)
    (hrest : ec = none → length < data.length → P (s.writeSome session (data.drop length))) :
    (writeHandler cb session data length ec s).Satisfies P Q := by
  cases ec with
  | some ec => exact close_of_shut hshut hQ session h
  | none =>
    rw [writeHandler]
    split_ifs with hlength
    · exact Outcome.satisfies_done (hrest rfl hlength)
    · exact Outcome.satisfies_done h

end Sessions

section Rules

variable (hP : Kept P) (hQ : ∀ e, e.Incidental → Q e)

include hP hQ

theorem close_satisfies (session : ℕ) (h : P s) : (close cb session s).Satisfies P Q :=
  close_of_shut hP.shut hQ session h

theorem stopHandler_satisfies (order : List ℕ)
    (h : P { s.shutAcceptor with registry := ∅ }) :
    (stopHandler cb order s).Satisfies P Q :=
  closeEach_of_shut hP.shut hQ order h

theorem doAccept_satisfies (h : P s) : s.doAccept.Satisfies P Q :=
  Outcome.satisfies_emit (hP.doAccept s h) (hQ _ trivial)

omit hQ in
theorem welcome_satisfies (answers : Answers) (h : P s) (henroll : P s.enroll)
    (hconnected : Q (.onConnected s.nextSessionId s.sessions.length)) :
    (welcome cb answers s).Satisfies P Q := by
  rw [welcome]
  split
  · exact Outcome.satisfies_throw h
  · refine Outcome.Satisfies.andThen (invoke_satisfies henroll hconnected) fun s h ↦ ?_
    split_ifs
    · exact Outcome.satisfies_throw h
    · exact Outcome.satisfies_done (hP.doRead s _ h)

theorem acceptHandler_satisfies (ec : Option ErrorCode) (answers : Answers) (h : P s)
    (hwelcome : ec = none → (welcome cb answers s).Satisfies P Q) :
    (acceptHandler cb ec answers s).Satisfies P Q := by
  refine Outcome.Satisfies.andThen ?_ fun s h ↦ ?_
  · cases ec with
    | none => exact hwelcome rfl
    | some ec => exact Outcome.satisfies_done h
  · split_ifs
    · exact doAccept_satisfies hP hQ h
    · exact Outcome.satisfies_done h

/-- A handler keeps a law, if those that do more than close and read do. -/
theorem handle_satisfies (completion : Completion) (answers : Answers) (h : P s)
    (hwelcome : completion = .accept none → (welcome cb answers s).Satisfies P Q)
    (hstop : completion = .stop → P { s.shutAcceptor with registry := ∅ })
    (hrest : ∀ session data length, completion = .write session data length none →
      length < data.length → P (s.writeSome session (data.drop length))) :
    (handle cb completion answers s).Satisfies P Q := by
  cases completion with
  | accept ec =>
    exact acceptHandler_satisfies hP hQ ec answers h fun hec ↦ hwelcome (by rw [hec])
  | stop => exact stopHandler_satisfies hP hQ answers.order (hstop rfl)
  | read session result => exact readHandler_of_shut hP.shut hQ hP.doRead session result h
  | write session data length ec =>
    exact writeHandler_of_shut hP.shut hQ session data length ec h fun hec hlength ↦
      hrest session data length (by rw [hec]) hlength

end Rules

/-! ## Steps -/

theorem step_broadcast_eq_some {data : Bytes} {order : List ℕ} {r : TcpServer × List Event}
    (h : step cb s (.broadcast data order) = some r) :
    order.Perm s.registered ∧ r = settle (broadcast data order s) := by
  rw [step] at h
  split_ifs at h with horder
  exact ⟨horder, (Option.some_inj.mp h).symm⟩

theorem step_asyncSend_eq_some {session : ℕ} {data : Bytes} {r : TcpServer × List Event}
    (h : step cb s (.asyncSend session data) = some r) :
    session < s.sessions.length ∧ r = settle (asyncSend session data s) := by
  rw [step] at h
  split_ifs at h with hsession
  exact ⟨hsession, (Option.some_inj.mp h).symm⟩

theorem step_complete_eq_some {i : ℕ} {completion : Completion} {r : TcpServer × List Event}
    (h : step cb s (.complete i completion) = some r) :
    ∃ op, s.operations.pending[i]? = some op ∧ op.Completes completion ∧
      (∀ op' ∈ s.operations.pending.take i, op'.delays op = false) ∧
      r = ({ s with
        sessions := transmit completion s.sessions
        operations := s.operations.complete i completion }, []) := by
  simp only [step] at h
  split at h
  · rename_i op hop
    split_ifs at h with hcomplete
    exact ⟨op, hop, hcomplete.1, hcomplete.2, (Option.some_inj.mp h).symm⟩
  · exact absurd h (by simp)

theorem step_handler_eq_some {i : ℕ} {answers : Answers} {r : TcpServer × List Event}
    (h : step cb s (.handler i answers) = some r) :
    ∃ completion, s.operations.ready[i]? = some completion ∧
      (completion = .stop → answers.order.Perm s.registered) ∧
      r = settle (handle cb completion answers { s with operations := s.operations.take i }) := by
  simp only [step] at h
  split at h
  · rename_i hready
    split_ifs at h with horder
    exact ⟨.stop, hready, fun _ ↦ horder, (Option.some_inj.mp h).symm⟩
  · rename_i completion hne hready
    refine ⟨completion, hready, fun hstop ↦ ?_, (Option.some_inj.mp h).symm⟩
    exact absurd hstop hne
  · exact absurd h (by simp)

/-- A step keeps a law that closing keeps, if the start, sends, completions and handlers do. -/
theorem step_of_shut
    (hshut : ∀ s session c, P s → s.sessions[session]? = some c → c.socketOpen = true →
      P (s.shut session c))
    (hQ : ∀ e, e.Incidental → Q e)
    (hsend : ∀ s session data, P s → (asyncSend session data s).Satisfies P Q)
    (hpost : ∀ s, P s → P s.stop)
    (hcomplete : ∀ s i op completion, P s → s.operations.pending[i]? = some op →
      op.Completes completion →
      P { s with
        sessions := transmit completion s.sessions
        operations := s.operations.complete i completion })
    {a : Action} (hstart : a = .start → s.doAccept.Satisfies P Q)
    (hhandle : ∀ i completion answers, a = .handler i answers →
      s.operations.ready[i]? = some completion →
      (completion = .stop → answers.order.Perm s.registered) →
      (handle cb completion answers { s with operations := s.operations.take i }).Satisfies P Q)
    {s' : TcpServer} {es : List Event} (h : P s)
    (hstep : step cb s a = some (s', es)) : P s' ∧ ∀ e ∈ es, Q e := by
  have hsettle : ∀ {o : Outcome TcpServer Event}, o.Satisfies P Q → (s', es) = settle o →
      P s' ∧ ∀ e ∈ es, Q e := by
    intro o ho heq
    have hr := settle_satisfies ho hQ
    rwa [← heq] at hr
  cases a with
  | start => exact hsettle (hstart rfl) (Option.some_inj.mp hstep).symm
  | stop =>
    obtain ⟨rfl, rfl⟩ := Prod.mk.inj (Option.some_inj.mp hstep)
    exact ⟨hpost s h, by simp⟩
  | broadcast data order =>
    obtain ⟨-, hr⟩ := step_broadcast_eq_some hstep
    exact hsettle (sendToEach_satisfies (fun s session ↦ hsend s session data) order h) hr
  | asyncSend session data =>
    obtain ⟨-, hr⟩ := step_asyncSend_eq_some hstep
    exact hsettle (hsend s session data h) hr
  | close session =>
    exact hsettle (close_of_shut hshut hQ session h) (Option.some_inj.mp hstep).symm
  | complete i completion =>
    obtain ⟨op, hop, hcompletes, -, hr⟩ := step_complete_eq_some hstep
    obtain ⟨rfl, rfl⟩ := Prod.mk.inj hr
    exact ⟨hcomplete s i op completion h hop hcompletes, by simp⟩
  | handler i answers =>
    obtain ⟨completion, hready, horder, hr⟩ := step_handler_eq_some hstep
    exact hsettle (hhandle i completion answers rfl hready horder) hr

/-- A step keeps a law, if sends, completions and handlers do. -/
theorem step_keeps (hP : Kept P) (hQ : ∀ e, e.Incidental → Q e)
    (hsend : ∀ s session data, P s → (asyncSend session data s).Satisfies P Q)
    (hpost : ∀ s, P s → P s.stop)
    (hcomplete : ∀ s i op completion, P s → op ∈ s.operations.pending → op.Completes completion →
      P { s with
        sessions := transmit completion s.sessions
        operations := s.operations.complete i completion })
    (hhandle : ∀ s i completion answers, P s → completion ∈ s.operations.ready →
      (completion = .stop → answers.order.Perm s.registered) →
      (handle cb completion answers { s with operations := s.operations.take i }).Satisfies P Q)
    {a : Action} {s' : TcpServer} {es : List Event} (h : P s)
    (hstep : step cb s a = some (s', es)) : P s' ∧ ∀ e ∈ es, Q e :=
  step_of_shut hP.shut hQ hsend hpost
    (fun s i op completion h hop ↦ hcomplete s i op completion h (List.mem_of_getElem? hop))
    (fun _ ↦ doAccept_satisfies hP hQ h)
    (fun i completion answers _ hready ↦
      hhandle s i completion answers h (List.mem_of_getElem? hready)) h hstep

theorem step_handler_of_ready (cb : Callbacks) {i : ℕ} {completion : Completion}
    (hready : s.operations.ready[i]? = some completion) (hne : completion ≠ .stop)
    (answers : Answers) :
    step cb s (.handler i answers)
      = some (settle (handle cb completion answers
        { s with operations := s.operations.take i })) := by
  rw [step, hready]
  cases completion with
  | stop => exact absurd rfl hne
  | _ => rfl

end TcpServer

end Server

end PushService
