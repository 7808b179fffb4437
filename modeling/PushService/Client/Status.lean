import PushService.Client.Closing

/-!
# What `isConnected` says

`isConnected` asks whether the socket is open and whether the last operation succeeded
(`isConnected_eq`). The socket is open from the moment a connect is started, and the last operation
may have been any: the resolve that came before the connect, a write, or a connect or a read that
has been aborted. `Truth` is what the answer is about, kept up to date from the steps of a run.

A `connect` that goes through has a success behind it and opens the socket, so the answer is wrong
at once. It is right along a run exactly if there is no such `connect` (`isConnected_truthful_iff`).
-/

namespace PushService

namespace Client

/-- What the handler of the operation is told: success or failure. A wait does not count. -/
def Completion.result : Completion → Option Bool
  | connect ec => some ec.isNone
  | read _ (.ok _) => some true
  | read _ (.error _) => some false
  | write ec _ => some ec.isNone
  | wait _ => none

namespace TcpClient

/-- A connect completes successfully. -/
def Action.isConnection : Action → Bool
  | .complete _ (.connect none) => true
  | _ => false

/-- The result that is reported to the client in a step, by `resolve` or to a handler. -/
def reported (c : TcpClient) : Action → Option Bool
  | .setEndpoint (.ok _) => some true
  | .setEndpoint (.error _) => some false
  | .handler i _ => c.operations.ready[i]?.bind Completion.result
  | _ => none

/-- What is known from the run. -/
structure Truth where
  /-- The connect on the socket has completed successfully, and since then the socket has been
  neither closed nor opened for another connect. -/
  up : Bool
  /-- The last result that was reported. -/
  lastResult : Bool
  deriving DecidableEq, Repr

namespace Truth

def init : Truth := ⟨false, false⟩

/-- What a step adds to what is known. -/
def record (t : Truth) (c : TcpClient) (a : Action) (c' : TcpClient) : Truth where
  up := (t.up || a.isConnection) && c'.socketOpen && c'.connection = c.connection
  lastResult := (reported c a).getD t.lastResult

end Truth

/-- The client with what is known of its run. -/
def watched (cb : Callbacks) : System (TcpClient × Truth) Action Event :=
  (system cb).recorded Truth.record

variable {cb : Callbacks} {c c' : TcpClient}

/-- Watching changes no run. -/
theorem exists_truth {as : List Action} {h : List Event}
    (hrun : (system cb).run init as = some (c, h)) :
    ∃ t, (watched cb).run (init, Truth.init) as = some ((c, t), h) := by
  have hview := (System.isView_recorded (system cb) Truth.record).run (init, Truth.init) as
  obtain ⟨⟨⟨c₁, t⟩, h₁⟩, hwatched, heq⟩ := Option.map_eq_some_iff.mp (hview.symm.trans hrun)
  obtain ⟨rfl, rfl⟩ := Prod.mk.inj heq
  exact ⟨t, hwatched⟩

/-! ## The flag -/

/-- A piece of the client leaves the flag at `b`. -/
def Flags (b : Bool) (o : Outcome TcpClient Event) : Prop := o.state.lastOpSuccess = b

theorem Flags.andThen {b : Bool} {o : Outcome TcpClient Event}
    {f : TcpClient → Outcome TcpClient Event} (ho : Flags b o)
    (hf : ∀ c, c.lastOpSuccess = b → Flags b (f c)) : Flags b (o.andThen f) := by
  have hall : (o.andThen f).Satisfies (fun c ↦ c.lastOpSuccess = b) (fun _ ↦ True) :=
    Outcome.Satisfies.andThen ⟨ho, fun _ _ ↦ trivial⟩ fun c h ↦ ⟨hf c h, fun _ _ ↦ trivial⟩
  exact hall.1

theorem flags_invoke (isSet : Bool) (e : Event) (c : TcpClient) :
    Flags c.lastOpSuccess (invoke isSet e c) := by
  rw [invoke]
  split_ifs <;> rfl

theorem flags_doConnect (c : TcpClient) : Flags c.lastOpSuccess c.doConnect := by
  rw [doConnect]
  split <;> rfl

theorem flags_doRead (c : TcpClient) : Flags c.lastOpSuccess (.done c.doRead) := by
  rw [doRead]
  split_ifs <;> rfl

theorem flags_asyncSend (data : Bytes) (c : TcpClient) :
    Flags c.lastOpSuccess (c.asyncSend data) := by
  rw [asyncSend]
  split_ifs <;> rfl

theorem flags_closeConnection (cb : Callbacks) (r : CloseResults) (c : TcpClient) :
    Flags c.lastOpSuccess (closeConnection cb r c) := by
  obtain ⟨⟨isOpen, operations, hstate⟩, -⟩ := closeConnection_spec cb r c
  rw [Flags, hstate]

theorem flags_retry (cb : Callbacks) (c : TcpClient) :
    Flags c.lastOpSuccess (if c.shouldReconnect then scheduleReconnect cb c else .done c) := by
  split_ifs
  · rw [Flags, scheduleReconnect, invoke_andThen_state]
    dsimp only [Outcome.emit]
    split_ifs <;> rfl
  · rfl

theorem flags_close (cb : Callbacks) (r : CloseResults) (c : TcpClient) :
    Flags c.lastOpSuccess (close cb r c) :=
  (flags_closeConnection cb r { c with shouldReconnect := false }).andThen fun _ h ↦ h

theorem flags_setEndpoint (cb : Callbacks) (resolved : Except ErrorCode (List Endpoint))
    (c : TcpClient) : Flags (resolved.toBool) (setEndpoint cb resolved c) := by
  cases resolved with
  | ok endpoints => rfl
  | error ec => exact flags_invoke ..

/-- A handler sets the flag to the result it is told of. -/
theorem flags_handle (cb : Callbacks) (d : Completion) (r : CloseResults) (c : TcpClient) :
    Flags (d.result.getD c.lastOpSuccess) (handle cb d r c) := by
  rcases d with (_ | ec) | ⟨connection, (_ | message) | data⟩ | ⟨_ | ec, length⟩ | (_ | ec)
  · exact (flags_invoke ..).andThen fun c h ↦ h ▸ flags_doRead _
  · exact (flags_invoke ..).andThen fun c h ↦ h ▸ flags_retry cb c
  · rfl
  · refine (flags_invoke ..).andThen fun c h ↦ ?_
    refine Flags.andThen (h ▸ flags_closeConnection cb r c) fun c h ↦ h ▸ flags_retry cb c
  · exact (flags_invoke ..).andThen fun c h ↦ h ▸ flags_doRead _
  · exact flags_invoke ..
  · exact flags_invoke ..
  · exact flags_doConnect c
  · rfl

/-- After every step the flag is the last result that was reported. -/
theorem lastOpSuccess_step {a : Action} {es : List Event} (hstep : step cb c a = some (c', es)) :
    c'.lastOpSuccess = (reported c a).getD c.lastOpSuccess := by
  have hsettle : ∀ {b : Bool} {o : Outcome TcpClient Event}, Flags b o →
      some (settle o) = some (c', es) → c'.lastOpSuccess = b := by
    intro b o ho heq
    obtain ⟨rfl, -⟩ := Prod.mk.inj (Option.some_inj.mp heq)
    exact ho
  cases a with
  | setEndpoint resolved =>
    rw [hsettle (flags_setEndpoint cb resolved c) hstep]
    cases resolved <;> rfl
  | connect =>
    refine hsettle ?_ hstep
    rw [connect]
    split_ifs
    · exact flags_doConnect c
    · rfl
  | asyncSend data => exact hsettle (flags_asyncSend data c) hstep
  | close r => exact hsettle (flags_close cb r c) hstep
  | complete i completion =>
    obtain ⟨-, -, -, hr⟩ := step_complete_eq_some hstep
    obtain ⟨rfl, -⟩ := Prod.mk.inj hr
    rfl
  | handler i r =>
    obtain ⟨completion, hready, -, hr⟩ := step_handler_eq_some hstep
    rw [hsettle (flags_handle cb completion r _) (by rw [hr]), reported, hready]
    rfl
  | ioStop =>
    obtain ⟨rfl, -⟩ := Prod.mk.inj (Option.some_inj.mp hstep)
    rfl
  | ioRestart =>
    obtain ⟨rfl, -⟩ := Prod.mk.inj (Option.some_inj.mp hstep)
    rfl

/-- **What `isConnected` says**: the socket is open, the `io_context` is running, and the last
result that was reported, whatever it was about, is a success. -/
theorem isConnected_eq {as : List Action} {t : Truth} {h : List Event}
    (hrun : (watched cb).run (init, Truth.init) as = some ((c, t), h)) :
    c.isConnected = (c.socketOpen && !c.ioStopped && t.lastResult) := by
  have hflag : c.lastOpSuccess = t.lastResult := by
    refine System.run_invariant (I := fun p _ ↦ p.1.lastOpSuccess = p.2.lastResult) (h := []) ?_ rfl
      hrun
    intro p h a q es hp hstep
    obtain ⟨hstep, htruth⟩ := System.recorded_step_eq_some.mp hstep
    rw [lastOpSuccess_step hstep, htruth, hp]
    rfl
  rw [isConnected, hflag]

/-! ## Whole runs -/

/-- `connect` does not go through, or finds no endpoint. -/
def OpensNothing (c : TcpClient) : Action → Prop
  | .connect => c.lastOpSuccess = false ∨ c.endpoints = []
  | .setEndpoint _ | .asyncSend _ | .close _ | .complete _ _ => True
  | .handler _ _ | .ioStop | .ioRestart => True

instance (c : TcpClient) : ∀ a, Decidable (OpensNothing c a)
  | .connect => inferInstanceAs (Decidable (_ ∨ _))
  | .setEndpoint _ | .asyncSend _ | .close _ | .complete _ _ => isTrue trivial
  | .handler _ _ | .ioStop | .ioRestart => isTrue trivial

/-- In every state of the run, and after a restart of the `io_context` there, `isConnected` tells
the truth if the `io_context` is running. -/
def TellsTruth (cb : Callbacks) (as : List Action) : Prop :=
  ∀ bs cs c t h, bs <+: as → cs = [] ∨ cs = [.ioRestart] →
    (watched cb).run (init, Truth.init) (bs ++ cs) = some ((c, t), h) → c.ioStopped = false →
    (c.isConnected = true ↔ t.up = true)

/-- The socket is closed, and nothing is in flight that would open it. -/
structure Unopened (p : TcpClient × Truth) : Prop where
  settled : Settled p.1
  socketOpen : p.1.socketOpen = false
  up : p.2.up = false

theorem Unopened.step {p q : TcpClient × Truth} {a : Action} {es : List Event} (h : Unopened p)
    (ha : OpensNothing p.1 a) (hstep : (watched cb).step p a = some (q, es)) : Unopened q := by
  obtain ⟨hstep, htruth⟩ := System.recorded_step_eq_some.mp hstep
  have hclosed : Settled q.1 ∧ q.1.socketOpen = false := by
    by_cases hconnect : a = .connect
    · subst hconnect
      have hstate : q.1 = (connect p.1).state :=
        (congrArg Prod.fst (Option.some_inj.mp hstep)).symm
      rw [hstate, connect]
      split_ifs with hsuccess
      · rw [doConnect_nil (ha.resolve_left (by simp [hsuccess]))]
        exact ⟨⟨h.settled.1, h.settled.2.post rfl⟩, h.socketOpen⟩
      · exact ⟨h.settled, h.socketOpen⟩
    · obtain ⟨⟨hsettled, hopen⟩, -⟩ := h.settled.step hconnect hstep
      refine ⟨hsettled, ?_⟩
      by_contra hq
      exact absurd (hopen (by simpa using hq)) (by simp [h.socketOpen])
  refine ⟨hclosed.1, hclosed.2, ?_⟩
  rw [htruth, Truth.record, hclosed.2, Bool.and_false, Bool.false_and]

/-- A `connect` that goes through opens the socket, while the flag still has the result of something
else. -/
theorem connect_misleads {p q : TcpClient × Truth} {es : List Event}
    (ha : ¬OpensNothing p.1 .connect) (hstep : (watched cb).step p .connect = some (q, es)) :
    q.1.socketOpen = true ∧ q.1.lastOpSuccess = true ∧ q.2.up = false := by
  obtain ⟨hstep, htruth⟩ := System.recorded_step_eq_some.mp hstep
  obtain ⟨hsuccess, hendpoints⟩ := not_or.mp ha
  have hflag : p.1.lastOpSuccess = true := by simpa using hsuccess
  obtain ⟨e, es, hes⟩ := List.exists_cons_of_ne_nil hendpoints
  have hstate : q.1 = (connect p.1).state := (congrArg Prod.fst (Option.some_inj.mp hstep)).symm
  rw [connect, if_pos hflag, doConnect_cons hes] at hstate
  refine ⟨by rw [hstate]; rfl, by rw [hstate]; exact hflag, ?_⟩
  rw [htruth, Truth.record, hstate]
  simp [Outcome.emit]

/-- Right after a `connect` that goes through, the answer is wrong. -/
theorem not_tellsTruth_of_connect {as bs : List Action} {p : TcpClient × Truth} {h : List Event}
    (hbs : (watched cb).run (init, Truth.init) bs = some (p, h))
    (hbreach : ¬OpensNothing p.1 .connect) (hbeginning : bs ++ [.connect] <+: as) :
    ¬TellsTruth cb as := by
  intro htells
  obtain ⟨⟨⟨c₂, t₂⟩, es⟩, hstep⟩ : ∃ r, (watched cb).step p .connect = some r := ⟨_, rfl⟩
  obtain ⟨hopen, hflag, hup⟩ := connect_misleads hbreach hstep
  have hrun : (watched cb).run (init, Truth.init) (bs ++ [.connect]) = some ((c₂, t₂), h ++ es) :=
    System.run_append_eq_some.mpr ⟨p, h, es, hbs, System.run_singleton hstep, rfl⟩
  -- when the `io_context` does not run, it is restarted
  have hrestart : (watched cb).step (c₂, t₂) .ioRestart
      = some (({ c₂ with ioStopped := false },
        t₂.record c₂ .ioRestart { c₂ with ioStopped := false }), []) := rfl
  have hanswer := htells (bs ++ [.connect]) [.ioRestart] _ _ _ hbeginning (.inr rfl)
    (System.run_append_eq_some.mpr ⟨(c₂, t₂), _, [], hrun, System.run_singleton hrestart, rfl⟩) rfl
  have hwrong : (t₂.record c₂ .ioRestart { c₂ with ioStopped := false }).up = true :=
    hanswer.mp (by simp [isConnected, show c₂.socketOpen = true from hopen,
      show c₂.lastOpSuccess = true from hflag])
  simp [Truth.record, show t₂.up = false from hup, Action.isConnection] at hwrong

/-- Where no `connect` goes through, the socket stays closed. -/
theorem unopened_of_run {as : List Action} {p : TcpClient × Truth} {h : List Event}
    (hobeys : (system cb).Obeys OpensNothing init as)
    (hrun : (watched cb).run (init, Truth.init) as = some (p, h)) : Unopened p :=
  System.run_induction (I := fun p _ ↦ Unopened p) (h := [])
    (fun hp ha hstep ↦ hp.step ha hstep) ⟨⟨rfl, Operations.forall_empty⟩, rfl, rfl⟩
    ((System.isView_recorded (system cb) Truth.record).obeys.mp hobeys) hrun

/-- **When `isConnected` tells the truth.** Along a run it does exactly if no `connect` goes
through. -/
theorem isConnected_truthful_iff (cb : Callbacks) (as : List Action) (c : TcpClient)
    (h : List Event) (hrun : (system cb).run init as = some (c, h)) :
    TellsTruth cb as ↔ (system cb).Obeys OpensNothing init as := by
  constructor
  · intro htells
    by_contra hnot
    obtain ⟨t, hwatched⟩ := exists_truth hrun
    have hview := System.isView_recorded (system cb) Truth.record
    obtain ⟨bs, a, cs, p, h₁, rfl, hbs, -, hbreach⟩ := System.exists_first_breach hwatched
      ((hview.obeys (s := (init, Truth.init))).not.mp hnot)
    cases a with
    | connect => exact not_tellsTruth_of_connect hbs hbreach ⟨cs, by simp⟩ htells
    | _ => exact hbreach trivial
  · rintro hobeys bs cs c₁ t₁ h₁ ⟨ds, rfl⟩ hcs hrun₁ -
    have hall : (system cb).Obeys OpensNothing init (bs ++ cs) := by
      refine System.obeys_append.mpr ⟨(System.obeys_append.mp hobeys).1, fun r _ ↦ ?_⟩
      rcases hcs with rfl | rfl
      · exact trivial
      · exact ⟨trivial, fun _ _ ↦ trivial⟩
    have hunopened := unopened_of_run hall hrun₁
    rw [isConnected, show c₁.socketOpen = false from hunopened.socketOpen,
      show t₁.up = false from hunopened.up]
    simp

/-- The name is not resolved, and nobody is there when it is. -/
def unresolvedRun : List Action :=
  [.connect, .setEndpoint (.error (.other "Host not found")), .connect, .setEndpoint (.ok []),
    .connect, .handler 0 .ok, .asyncSend [1], .handler 0 .ok]

theorem isConnected_truthful_unresolvedRun : TellsTruth allSet unresolvedRun :=
  (isConnected_truthful_iff allSet unresolvedRun _ _ rfl).mpr (by decide)

/-- The name has been resolved, and the connect is under way. -/
theorem not_isConnected_truthful :
    ¬∀ cb as c t h, (watched cb).run (init, Truth.init) as = some ((c, t), h) →
      c.ioStopped = false → (c.isConnected = true ↔ t.up = true) := by
  intro hall
  have htruthful := hall allSet (connectedRun.take 2) _ _ _ rfl rfl
  exact absurd (htruthful.mp rfl) (by decide)

end TcpClient

end Client

end PushService
