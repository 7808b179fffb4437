import PushService.Server.Rules

/-!
# Accepting connection after connection

`doAccept` starts one `async_accept`, and the last statement of its handler starts the next. The
number of accepts outstanding therefore stays one, as long as the handler gets to its last
statement. It does not if `remote_endpoint()` throws, because the peer has gone in the meantime, or
if `onConnected_` throws: then the acceptor is open and nothing will ever be accepted again.
-/

namespace PushService

namespace Server

/-- The completion of an accept. -/
def Completion.isAccept : Completion → Bool
  | accept _ => true
  | _ => false

namespace TcpServer

/-- How many `async_accept`s have been started whose handler has not run. -/
def acceptsOutstanding (s : TcpServer) : ℕ :=
  s.operations.count Op.onAcceptor Completion.isAccept

/-- The handler of `doAccept` is left by an exception. -/
def LeavesEarly (cb : Callbacks) (ec : Option ErrorCode) (answers : Answers) : Prop :=
  ec = none ∧
    (answers.remoteEndpoint ≠ none ∨ (cb.onConnected = true ∧ answers.onConnectedThrows = true))

instance (cb : Callbacks) (ec : Option ErrorCode) (answers : Answers) :
    Decidable (LeavesEarly cb ec answers) :=
  inferInstanceAs (Decidable (_ ∧ (_ ∨ _)))

/-- The acceptor is open, and the handler of an accept runs and is left by an exception. -/
def GoesDeaf (cb : Callbacks) (s : TcpServer) (a : Action) : Prop :=
  s.acceptorOpen = true ∧
    match a with
    | .handler i answers =>
      match s.operations.ready[i]? with
      | some (.accept ec) => LeavesEarly cb ec answers
      | _ => False
    | _ => False

instance (cb : Callbacks) (s : TcpServer) (a : Action) : Decidable (GoesDeaf cb s a) := by
  unfold GoesDeaf
  split
  · split <;> infer_instance
  · infer_instance

variable {cb : Callbacks} {s : TcpServer}

theorem goesDeaf_iff {i : ℕ} {answers : Answers} {ec : Option ErrorCode}
    (hready : s.operations.ready[i]? = some (.accept ec)) :
    GoesDeaf cb s (.handler i answers) ↔ s.acceptorOpen = true ∧ LeavesEarly cb ec answers := by
  simp only [GoesDeaf, hready]

theorem GoesDeaf.exists_accept {a : Action} (h : GoesDeaf cb s a) :
    ∃ i answers ec, a = .handler i answers ∧ s.operations.ready[i]? = some (.accept ec) ∧
      s.acceptorOpen = true ∧ LeavesEarly cb ec answers := by
  obtain ⟨hopen, h⟩ := h
  split at h
  · rename_i i answers
    split at h
    · rename_i ec hready
      exact ⟨i, answers, ec, rfl, hready, hopen, h⟩
    · exact h.elim
  · exact h.elim

/-! ## What the operations count -/

theorem Op.completes_isAccept {op : Op} {completion : Completion} (h : op.Completes completion) :
    completion.isAccept = op.onAcceptor := by
  cases op <;> rcases completion with _ | _ | ⟨_, _ | _⟩ | ⟨_, _, _, _ | _⟩ <;>
    simp_all [Op.Completes, Completion.isAccept, Op.onAcceptor]

theorem isAccept_aborted (op : Op) : op.aborted.isAccept = op.onAcceptor := by
  cases op <;> rfl

@[simp] theorem acceptsOutstanding_shut (session : ℕ) (c : ClientSession) :
    (s.shut session c).acceptsOutstanding = s.acceptsOutstanding :=
  Operations.count_abort _ fun op _ ↦ isAccept_aborted op

@[simp] theorem acceptsOutstanding_doRead (session : ℕ) :
    (s.doRead session).acceptsOutstanding = s.acceptsOutstanding :=
  doRead_cases (P := fun s' ↦ s'.acceptsOutstanding = s.acceptsOutstanding)
    (Operations.count_start ..) (Operations.count_post ..)

@[simp] theorem acceptsOutstanding_writeSome (session : ℕ) (data : Bytes) :
    (s.writeSome session data).acceptsOutstanding = s.acceptsOutstanding :=
  writeSome_cases (P := fun s' ↦ s'.acceptsOutstanding = s.acceptsOutstanding)
    (fun _ ↦ Operations.count_start ..) (Operations.count_post ..)

@[simp] theorem acceptsOutstanding_doAccept :
    s.doAccept.state.acceptsOutstanding = s.acceptsOutstanding + 1 :=
  doAccept_cases (P := fun s' ↦ s'.acceptsOutstanding = s.acceptsOutstanding + 1)
    (Operations.count_start ..) (Operations.count_post ..)

@[simp] theorem acceptorOpen_doRead (session : ℕ) :
    (s.doRead session).acceptorOpen = s.acceptorOpen :=
  doRead_cases (P := fun s' ↦ s'.acceptorOpen = s.acceptorOpen) rfl rfl

@[simp] theorem acceptorOpen_doAccept : s.doAccept.state.acceptorOpen = s.acceptorOpen :=
  doAccept_cases (P := fun s' ↦ s'.acceptorOpen = s.acceptorOpen) rfl rfl

/-! ## The handler of an accept -/

/-- `welcome` leaves the accepts alone, and it throws in the two cases of `LeavesEarly`. -/
theorem welcome_spec (cb : Callbacks) (answers : Answers) (s : TcpServer) :
    ((welcome cb answers s).thrown = true ↔ LeavesEarly cb none answers) ∧
      (welcome cb answers s).state.acceptorOpen = s.acceptorOpen ∧
      (welcome cb answers s).state.acceptsOutstanding = s.acceptsOutstanding := by
  have hread : ∀ session, acceptsOutstanding (s.enroll.doRead session) = s.acceptsOutstanding :=
    fun session ↦ acceptsOutstanding_doRead session
  obtain ⟨remoteEndpoint, onConnectedThrows, order⟩ := answers
  rw [welcome]
  cases remoteEndpoint with
  | some ec => exact ⟨by simp [LeavesEarly, Outcome.throw], rfl, rfl⟩
  | none =>
    cases honConnected : cb.onConnected <;> cases onConnectedThrows
    · exact ⟨by simp [LeavesEarly, invoke, Outcome.done, Outcome.andThen], acceptorOpen_doRead _,
        hread _⟩
    · exact ⟨by simp [LeavesEarly, honConnected, invoke, Outcome.done, Outcome.andThen],
        acceptorOpen_doRead _, hread _⟩
    · exact ⟨by simp [LeavesEarly, invoke, Outcome.done], acceptorOpen_doRead _, hread _⟩
    · exact ⟨by simp [LeavesEarly, honConnected, invoke, Outcome.throw], rfl, rfl⟩

/-- The handler starts the next accept if the acceptor is open, unless it is left early. -/
theorem acceptHandler_spec (cb : Callbacks) (ec : Option ErrorCode) (answers : Answers)
    (s : TcpServer) :
    (acceptHandler cb ec answers s).state.acceptorOpen = s.acceptorOpen ∧
      (acceptHandler cb ec answers s).state.acceptsOutstanding
        = s.acceptsOutstanding
          + if s.acceptorOpen = true ∧ ¬LeavesEarly cb ec answers then 1 else 0 := by
  -- the rest of the handler
  have hrest : ∀ s' : TcpServer, s'.acceptorOpen = s.acceptorOpen →
      s'.acceptsOutstanding = s.acceptsOutstanding →
      (if s'.acceptorOpen then s'.doAccept else .done s').state.acceptorOpen = s.acceptorOpen ∧
        (if s'.acceptorOpen then s'.doAccept else .done s').state.acceptsOutstanding
          = s.acceptsOutstanding + if s.acceptorOpen = true then 1 else 0 := by
    intro s' hopen hcount
    rw [hopen]
    split_ifs
    · simp [hopen, hcount]
    · exact ⟨hopen, hcount⟩
  cases ec with
  | some ec =>
    rw [acceptHandler]
    simpa [LeavesEarly] using hrest s rfl rfl
  | none =>
    obtain ⟨hthrown, hopen, hcount⟩ := welcome_spec cb answers s
    rw [acceptHandler]
    by_cases hleaves : LeavesEarly cb none answers
    · rw [Outcome.andThen_of_thrown (hthrown.mpr hleaves), if_neg fun h ↦ h.2 hleaves]
      exact ⟨hopen, hcount⟩
    · rw [Outcome.andThen_of_not_thrown (by simpa using mt hthrown.mp hleaves)]
      simpa [hleaves] using hrest _ hopen hcount

/-! ## The invariant -/

/-- An open acceptor has one accept outstanding. -/
def Listening (s : TcpServer) : Prop := s.acceptorOpen = true → s.acceptsOutstanding = 1

theorem Listening.shut (h : s.Listening) (session : ℕ) (c : ClientSession) :
    (s.shut session c).Listening :=
  fun hopen ↦ (acceptsOutstanding_shut ..).trans (h hopen)

theorem Listening.post (h : s.Listening) {completion : Completion}
    (hcompletion : completion.isAccept = false) :
    Listening { s with operations := s.operations.post completion } := by
  intro hopen
  rw [acceptsOutstanding, Operations.count_post, hcompletion]
  exact h hopen

theorem Listening.writeSome (h : s.Listening) (session : ℕ) (data : Bytes) :
    (s.writeSome session data).Listening :=
  writeSome_cases (fun _ hopen ↦ (Operations.count_start ..).trans (h hopen)) (h.post rfl)

/-- Taking out a completion leaves the accepts alone, if it is not theirs. -/
theorem Listening.take (h : s.Listening) {i : ℕ} {completion : Completion}
    (hready : s.operations.ready[i]? = some completion)
    (hcompletion : completion.isAccept = false) :
    Listening { s with operations := s.operations.take i } := by
  intro hopen
  have htake := Operations.count_take (p := Op.onAcceptor) (q := Completion.isAccept) hready
  rw [hcompletion] at htake
  exact htake.trans (h hopen)

/-- Every handler keeps the invariant, unless the server goes deaf. -/
theorem Listening.of_handle (h : s.Listening) {i : ℕ} {answers : Answers} {completion : Completion}
    (hdeaf : ¬GoesDeaf cb s (.handler i answers))
    (hready : s.operations.ready[i]? = some completion) :
    (handle cb completion answers { s with operations := s.operations.take i }).Satisfies Listening
      (fun _ ↦ True) := by
  have hshut : ∀ (s : TcpServer) session c, s.Listening → s.sessions[session]? = some c →
      c.socketOpen = true → (s.shut session c).Listening := fun s session c h _ _ ↦ h.shut session c
  have hQ : ∀ e : Event, e.Incidental → True := fun _ _ ↦ trivial
  cases completion with
  | accept ec =>
    have htake := Operations.count_take (p := Op.onAcceptor) (q := Completion.isAccept) hready
    obtain ⟨hopen, hcount⟩ := acceptHandler_spec cb ec answers
      { s with operations := s.operations.take i }
    refine ⟨fun hs ↦ ?_, fun _ _ ↦ trivial⟩
    have hs' : s.acceptorOpen = true := hopen.symm.trans hs
    have hnot : ¬LeavesEarly cb ec answers := fun hleaves ↦
      hdeaf ((goesDeaf_iff hready).mpr ⟨hs', hleaves⟩)
    rw [handle, hcount, if_pos ⟨hs', hnot⟩]
    exact htake.trans (h hs')
  | stop =>
    exact closeEach_of_shut hshut hQ answers.order fun hopen ↦ absurd hopen (by simp)
  | read session result =>
    refine readHandler_of_shut hshut hQ (fun s session h hopen ↦ ?_) session result
      (h.take hready rfl)
    rw [acceptsOutstanding_doRead]
    exact h (acceptorOpen_doRead session ▸ hopen)
  | write session data length ec =>
    exact writeHandler_of_shut hshut hQ session data length ec (h.take hready rfl) fun _ _ ↦
      (h.take hready rfl).writeSome session _

theorem Listening.step {a : Action} {s' : TcpServer} {es : List Event} (h : s.Listening)
    (ha : a ≠ .start) (hdeaf : ¬GoesDeaf cb s a) (hstep : step cb s a = some (s', es)) :
    s'.Listening := by
  refine (step_of_shut (Q := fun _ ↦ True) (fun s session c h _ _ ↦ h.shut session c)
    (fun _ _ ↦ trivial) ?_ (fun s h ↦ h.post rfl) ?_ (fun hstart ↦ absurd hstart ha) ?_ h hstep).1
  · intro s session data h
    refine Outcome.satisfies_emit ?_ trivial
    split_ifs
    · exact h.post rfl
    · exact h.writeSome session data
  · intro s i op completion h hop hcompletes hopen
    exact (Operations.count_complete hop (Op.completes_isAccept hcompletes)).trans (h hopen)
  · rintro i completion answers rfl hready -
    exact h.of_handle hdeaf hready

/-! ## Whole runs -/

/-- Whenever the handler of an accept has ended and the acceptor is open, one accept is
outstanding. -/
def NeverDeaf (cb : Callbacks) (as : List Action) : Prop :=
  ∀ bs i answers cs s es ec s' es', as = bs ++ .handler i answers :: cs →
    (system cb).run init bs = some (s, es) → s.operations.ready[i]? = some (.accept ec) →
      step cb s (.handler i answers) = some (s', es') → s'.acceptorOpen = true →
        s'.acceptsOutstanding = 1

theorem listening_of_obeys {as : List Action} {s' : TcpServer} {es : List Event}
    (hstart : .start ∉ as) (hrun : (system cb).run s as = some (s', es))
    (hobeys : (system cb).Obeys (fun s a ↦ ¬GoesDeaf cb s a) s as) (h : s.Listening) :
    s'.Listening := by
  have hne : (system cb).Obeys (fun _ a ↦ a ≠ .start) s as :=
    System.obeys_of_forall fun a ha heq ↦ hstart (heq ▸ ha)
  exact System.run_induction (I := fun s _ ↦ s.Listening) (h := [])
    (fun h ha hstep ↦ h.step ha.1 ha.2 hstep) h (hne.and hobeys) hrun

/-- **The server goes on listening** if and only if no handler of an accept is left by an
exception. -/
theorem neverDeaf_iff (cb : Callbacks) (as : List Action) (s : TcpServer) (h : List Event)
    (hstart : .start ∉ as) (hrun : (system cb).run init (.start :: as) = some (s, h)) :
    NeverDeaf cb (.start :: as) ↔
      (system cb).Obeys (fun s a ↦ ¬GoesDeaf cb s a) init (.start :: as) := by
  have hstarted : ∀ {bs cs : List Action} {a s₁ es}, .start :: as = bs ++ a :: cs → a ≠ .start →
      (system cb).run init bs = some (s₁, es) →
      (system cb).Obeys (fun s a ↦ ¬GoesDeaf cb s a) init bs → s₁.Listening := by
    intro bs cs a s₁ es heq hne hbs hobeys
    cases bs with
    | nil => exact absurd (List.cons.inj heq).1.symm hne
    | cons b bs =>
      obtain ⟨rfl, rfl⟩ := List.cons.inj heq
      obtain ⟨s₀, es₀, es₁, hstep, hbs, -⟩ := System.run_cons_eq_some.mp hbs
      refine listening_of_obeys (fun hmem ↦ hstart (List.mem_append_left _ hmem)) hbs
        (hobeys.2 _ hstep) ?_
      obtain ⟨rfl, -⟩ := Prod.mk.inj (Option.some_inj.mp hstep)
      exact fun _ ↦ rfl
  constructor
  · intro hnever
    by_contra hnot
    obtain ⟨bs, a, cs, s₁, es, heq, hbs, hobeys, hbreach⟩ := System.exists_first_breach hrun hnot
    obtain ⟨i, answers, ec, rfl, hready, hs₁, hleaves⟩ :=
      GoesDeaf.exists_accept (not_not.mp hbreach)
    have hone := hstarted heq (by simp) hbs hobeys hs₁
    have htake := Operations.count_take (p := Op.onAcceptor) (q := Completion.isAccept) hready
    -- the handler of the only accept runs and starts no other
    obtain ⟨hopen, hcount⟩ := acceptHandler_spec cb ec answers
      { s₁ with operations := s₁.operations.take i }
    rw [if_neg fun h ↦ h.2 hleaves] at hcount
    have hstep := step_handler_of_ready cb hready (by simp) answers
    have hnow : _ = 1 := hnever bs i answers cs s₁ es ec _ _ heq hbs hready hstep (hopen.trans hs₁)
    rw [handle, hcount] at hnow
    simp only [acceptsOutstanding, Completion.isAccept, if_true] at hone hnow htake
    omega
  · intro hobeys bs i answers cs s₁ es ec s₂ es₂ heq hbs hready hstep hopen
    rw [heq, System.obeys_append] at hobeys
    have hlistening := hstarted heq (by simp) hbs hobeys.1
    exact hlistening.step (by simp) (hobeys.2 _ hbs).1 hstep hopen

/-- A client connects and its accept is handled, with the given answers. -/
def acceptedRun (answers : Answers) : List Action :=
  [.complete 0 (.accept none), .handler 0 answers]

theorem neverDeaf_acceptedRun : NeverDeaf .allSet (.start :: acceptedRun .ok) :=
  (neverDeaf_iff .allSet (acceptedRun .ok) _ _ (by simp [acceptedRun]) rfl).mpr (by decide)

/-- The peer has gone before `remote_endpoint()` is called. -/
theorem not_neverDeaf : ¬∀ (cb : Callbacks) (as : List Action) (s : TcpServer) (h : List Event),
    .start ∉ as → (system cb).run init (.start :: as) = some (s, h) →
      NeverDeaf cb (.start :: as) := by
  intro hall
  have hgone := hall .allSet
    (acceptedRun { Answers.ok with
      remoteEndpoint := some (.other "Transport endpoint is not connected") })
    _ _ (by simp [acceptedRun]) rfl
  exact absurd (hgone [.start, .complete 0 (.accept none)] 0 _ [] _ _ none _ _ rfl rfl rfl rfl rfl)
    (by decide)

end TcpServer

end Server

end PushService
