import PushService.Server.Registry

/-!
# Stopping the server

The handler that `stop` posts closes the acceptor and every registered session, once. A connection
that was accepted before and whose handler runs after it is welcomed all the same. So the server is
stopped for good if and only if no such connection is waiting and the registry misses no open
session (`stopsForGood_iff`).
-/

namespace PushService

namespace Server

/-- The completion of an accept, with a connection. -/
def Completion.isConnection : Completion → Bool
  | accept none => true
  | _ => false

namespace TcpServer

def Event.isConnected : Event → Bool
  | .onConnected _ _ => true
  | _ => false

variable {cb : Callbacks} {s : TcpServer}

/-! ## A stopped server -/

/-- The acceptor is closed, the registry is empty, and no connection is under way. -/
structure Halted (s : TcpServer) : Prop where
  acceptor : s.acceptorOpen = false
  registry : s.registry = ∅
  operations : s.operations.Forall (fun op ↦ op ≠ .accept) (fun c ↦ c.isConnection = false)

theorem kept_halted : Kept Halted where
  shut s session c h _ _ := by
    refine ⟨h.acceptor, ?_, h.operations.abort (fun _ _ hop ↦ hop) fun op hop _ ↦ ?_⟩
    · rw [shut, h.registry]
      rfl
    · cases op <;> rfl
  doRead _ _ h := doRead_cases ⟨h.1, h.2, h.3.start (by simp)⟩ ⟨h.1, h.2, h.3.post rfl⟩
  doAccept s h := by
    rw [doAccept, if_neg (by simp [h.acceptor])]
    exact ⟨h.1, h.2, h.3.post rfl⟩

/-- Nobody is connected, and nobody is going to be. -/
structure Stopped (s : TcpServer) : Prop extends Halted s where
  closed : ∀ session, s.isOpen session = false

theorem Stopped.withOperations (h : s.Stopped) {o : Operations Op Completion}
    (ho : o.Forall (fun op ↦ op ≠ .accept) (fun c ↦ c.isConnection = false)) :
    Stopped { s with operations := o } :=
  ⟨⟨h.acceptor, h.registry, ho⟩, h.closed⟩

theorem Stopped.writeSome (h : s.Stopped) (session : ℕ) (data : Bytes) :
    (s.writeSome session data).Stopped := by
  rw [TcpServer.writeSome, if_neg (by simp [h.closed session])]
  exact h.withOperations (h.operations.post rfl)

theorem kept_stopped : Kept Stopped where
  shut s session c h hc hopen := by
    have hcontra := h.closed session
    rw [isOpen_iff.mpr ⟨c, hc, hopen⟩] at hcontra
    exact absurd hcontra (by simp)
  doRead s session h :=
    ⟨kept_halted.doRead s session h.toHalted, fun session' ↦ by
      rw [isOpen_doRead]
      exact h.closed session'⟩
  doAccept s h :=
    ⟨kept_halted.doAccept s h.toHalted, fun session ↦ by
      rw [isOpen_doAccept]
      exact h.closed session⟩

theorem not_isConnected_of_incidental {e : Event} (h : e.Incidental) : e.isConnected = false := by
  cases e <;> first | rfl | exact absurd h (by simp [Event.Incidental])

theorem Stopped.asyncSend (h : s.Stopped) (session : ℕ) (data : Bytes) :
    (asyncSend session data s).Satisfies Stopped (fun e ↦ e.isConnected = false) := by
  refine Outcome.satisfies_emit ?_ rfl
  split_ifs
  · exact h.withOperations (h.operations.post rfl)
  · exact h.writeSome session data

/-- A stopped server stays stopped. -/
theorem Stopped.step {a : Action} {s' : TcpServer} {es : List Event} (h : s.Stopped)
    (hstep : step cb s a = some (s', es)) : s'.Stopped ∧ ∀ e ∈ es, e.isConnected = false := by
  have hQ : ∀ e : Event, e.Incidental → e.isConnected = false := fun _ ↦
    not_isConnected_of_incidental
  refine step_keeps kept_stopped hQ (fun s session data h ↦ h.asyncSend session data)
    (fun s h ↦ h.withOperations (h.operations.post rfl)) ?_ ?_ h hstep
  · intro s i op completion h hop hcompletes
    refine ⟨⟨h.acceptor, h.registry, h.operations.complete i ?_⟩, fun session ↦ ?_⟩
    · -- only an accept completes with a connection
      have hne := h.operations.pending op hop
      cases completion with
      | accept ec => cases op <;> simp_all [Op.Completes]
      | _ => rfl
    · rw [isOpen_transmit]
      exact h.closed session
  · intro s i completion answers h hready _
    have ht := h.withOperations (h.operations.take i)
    apply handle_satisfies kept_stopped hQ completion answers ht
    · rintro rfl
      exact absurd (h.operations.ready _ hready) (by simp [Completion.isConnection])
    · rintro rfl
      refine ⟨⟨rfl, rfl, ?_⟩, ht.closed⟩
      exact ht.operations.abort (fun _ _ hop ↦ hop) fun op _ _ ↦ by cases op <;> rfl
    · intro session data length _ _
      exact ht.writeSome session _

/-! ## The stop handler -/

/-- Once the handler of completion number `i` has run, nobody is connected in any later state, and
`onConnected_` is never called again. -/
def StopsForGood (cb : Callbacks) (s : TcpServer) (i : ℕ) : Prop :=
  ∀ answers as s' es, (system cb).run s (.handler i answers :: as) = some (s', es) →
    s'.activeClientsCount = 0 ∧ (∀ session, s'.isOpen session = false) ∧
      ∀ e ∈ es, e.isConnected = false

/-- No accepted connection is waiting for its handler, and every open session is registered. -/
def NoneUnderWay (s : TcpServer) : Prop :=
  (∀ c ∈ s.operations.ready, c.isConnection = false) ∧
    ∀ session < s.sessions.length, s.isOpen session = true → session ∈ s.registered

instance (s : TcpServer) : Decidable s.NoneUnderWay :=
  inferInstanceAs (Decidable ((∀ c ∈ _, _) ∧ ∀ session < _, _ → _))

/-- With nothing under way the stop handler leaves a stopped server, and welcomes nobody. -/
theorem NoneUnderWay.stopped (cb : Callbacks) (h : s.NoneUnderWay) (i : ℕ) {order : List ℕ}
    (horder : order.Perm s.registered) :
    (stopHandler cb order { s with operations := s.operations.take i }).Satisfies Stopped
      (fun e ↦ e.isConnected = false) := by
  have hready : s.operations.Forall (fun _ ↦ True) (fun c ↦ c.isConnection = false) :=
    ⟨fun _ _ ↦ trivial, h.1⟩
  -- closing the acceptor takes care of the accepts that are pending
  have hhalted : Halted
      { ({ s with operations := s.operations.take i } : TcpServer).shutAcceptor with
      registry := ∅ } := by
    refine ⟨rfl, rfl, (hready.take i).abort (fun op hop _ ↦ ?_) fun op hop _ ↦ ?_⟩
    · intro heq
      exact absurd hop (by simp [heq, Op.onAcceptor])
    · cases op <;> rfl
  have hhandler : (stopHandler cb order { s with operations := s.operations.take i }).Satisfies
      Halted
      (fun e ↦ e.isConnected = false) :=
    stopHandler_satisfies kept_halted (fun _ ↦ not_isConnected_of_incidental) order hhalted
  obtain ⟨hstate, hevents⟩ := hhandler
  refine ⟨⟨hstate, fun session ↦ ?_⟩, hevents⟩
  rw [stopHandler, clearAll, isOpen_closeEach]
  by_cases hopen : s.isOpen session = true
  · have hlt : session < s.sessions.length := by
      by_contra hle
      rw [isOpen_of_length_le (Nat.le_of_not_lt hle)] at hopen
      exact absurd hopen (by simp)
    have hmem := horder.mem_iff.mpr (h.2 session hlt hopen)
    simp [hmem]
  · have hclosed : s.isOpen session = false := by simpa using hopen
    exact Bool.and_eq_false_iff.mpr (.inl hclosed)

theorem stopsForGood_of_noneUnderWay {i : ℕ} (hi : s.operations.ready[i]? = some .stop)
    (h : s.NoneUnderWay) : s.StopsForGood cb i := by
  intro answers as s' es hrun
  obtain ⟨s₁, es₁, fs, hstep, hrest, rfl⟩ := System.run_cons_eq_some.mp hrun
  obtain ⟨completion, hready, horder, hr⟩ := step_handler_eq_some hstep
  obtain rfl : completion = .stop := Option.some_inj.mp (hready.symm.trans hi)
  obtain ⟨hstopped, hevents⟩ := settle_satisfies (h.stopped cb i (horder rfl))
    (fun _ ↦ not_isConnected_of_incidental)
  obtain ⟨rfl, rfl⟩ := Prod.mk.inj hr
  obtain ⟨hlater, hsilent⟩ := System.run_outputs (C := fun _ _ ↦ True) (I := Stopped)
    (fun hs _ hst ↦ hs.step hst) hstopped (System.obeys_of_all (fun _ _ ↦ trivial) _ _) hrest
  refine ⟨?_, hlater.closed, fun e he ↦ ?_⟩
  · rw [activeClientsCount, hlater.registry]
    rfl
  · rcases List.mem_append.mp he with he | he
    · exact hevents e he
    · exact hsilent e he

/-- The stop handler can always run. -/
theorem step_stop (cb : Callbacks) {i : ℕ} (hi : s.operations.ready[i]? = some .stop) :
    step cb s (.handler i ⟨none, false, s.registered⟩)
      = some (settle (stopHandler cb s.registered
        { s with operations := s.operations.take i })) := by
  rw [step, hi]
  dsimp only
  rw [if_pos (List.Perm.refl _)]
  rfl

/-- Completions stay in the queue while sessions are closed. -/
theorem kept_ready (c : Completion) : Kept (fun s ↦ c ∈ s.operations.ready) where
  shut _ _ _ h _ _ := Operations.mem_ready_abort h _ _
  doRead _ _ h :=
    doRead_cases (P := fun s ↦ c ∈ s.operations.ready) h (List.mem_append_left _ h)
  doAccept _ h :=
    doAccept_cases (P := fun s ↦ c ∈ s.operations.ready) h (List.mem_append_left _ h)

theorem doRead_registry (session : ℕ) : (s.doRead session).registry = s.registry := by
  rw [doRead]
  split_ifs <;> rfl

theorem doAccept_registry : s.doAccept.state.registry = s.registry := by
  rw [doAccept]
  dsimp only [Outcome.emit]
  split_ifs <;> rfl

/-- A peer that is still there is registered. -/
theorem acceptHandler_registry :
    (acceptHandler cb none .ok s).state.registry = s.enroll.registry := by
  have hwelcome : welcome cb .ok s
      = ⟨s.enroll.doRead s.sessions.length,
        if cb.onConnected then [.onConnected s.nextSessionId s.sessions.length] else [],
        false⟩ := by
    cases honConnected : cb.onConnected <;>
      simp [welcome, Answers.ok, invoke, honConnected, enroll, Outcome.emit, Outcome.done,
        Outcome.andThen]
  rw [acceptHandler, hwelcome, Outcome.andThen_of_not_thrown rfl]
  dsimp only
  split_ifs
  · rw [doAccept_registry, doRead_registry]
  · exact doRead_registry _

/-- A connection that waits is welcomed after the stop. -/
theorem not_stopsForGood_of_connection {i : ℕ} (hi : s.operations.ready[i]? = some .stop)
    {c : Completion} (hc : c ∈ s.operations.ready) (hconnection : c.isConnection = true) :
    ¬s.StopsForGood cb i := by
  intro hstops
  obtain rfl : c = .accept none := by
    rcases c with (_ | _) | _ | _ | _ <;>
      first | rfl | exact absurd hconnection (by simp [Completion.isConnection])
  have htaken : .accept none ∈ (s.operations.take i).ready := by
    obtain ⟨j, hj⟩ := List.mem_iff_getElem?.mp hc
    refine List.mem_eraseIdx_iff_getElem?.mpr ⟨j, ?_, hj⟩
    rintro rfl
    exact absurd (Option.some_inj.mp (hi.symm.trans hj)) (by simp)
  have hready : (stopHandler cb s.registered { s with operations := s.operations.take i }).Satisfies
      (fun s ↦ .accept none ∈ s.operations.ready) (fun _ ↦ True) :=
    stopHandler_satisfies (kept_ready (.accept none)) (fun _ _ ↦ trivial) s.registered
      (Operations.mem_ready_abort htaken _ _)
  obtain ⟨j, hj⟩ := List.mem_iff_getElem?.mp hready.1
  have hwelcomed := step_handler_of_ready cb hj (by simp) .ok
  have hcount := (hstops _ [.handler j .ok] _ _ (System.run_cons_eq_some.mpr
    ⟨_, _, _, step_stop cb hi, System.run_singleton hwelcomed, rfl⟩)).1
  rw [activeClientsCount, handle, acceptHandler_registry, enroll] at hcount
  exact absurd hcount (by simp [AList.entries_insert])

/-- A session that is not registered is not closed. -/
theorem not_stopsForGood_of_unregistered {i : ℕ} (hi : s.operations.ready[i]? = some .stop)
    {session : ℕ} (hopen : s.isOpen session = true) (hregistered : session ∉ s.registered) :
    ¬s.StopsForGood cb i := by
  intro hstops
  have hclosed := (hstops _ [] _ _ (System.run_singleton (step_stop cb hi))).2.1 session
  rw [stopHandler, clearAll, isOpen_closeEach] at hclosed
  change (s.isOpen session && decide (session ∉ s.registered)) = false at hclosed
  have hstill : s.isOpen session = false := by simpa [hregistered] using hclosed
  rw [hopen] at hstill
  exact absurd hstill (by simp)

/-- **When a stop is for good.** At every point of every run at which a stop handler is waiting,
nobody is connected from its run on if and only if no accepted connection is waiting as well and
every open session is registered. -/
theorem stopsForGood_iff (cb : Callbacks) :
    ∀ as s es, (system cb).run init as = some (s, es) →
      ∀ i, s.operations.ready[i]? = some .stop → (s.StopsForGood cb i ↔ s.NoneUnderWay) := by
  intro as s es _ i hi
  constructor
  · intro hstops
    constructor
    · intro c hc
      by_contra hconnection
      exact not_stopsForGood_of_connection hi hc (by simpa using hconnection) hstops
    · intro session _ hopen
      by_contra hregistered
      exact not_stopsForGood_of_unregistered hi hopen hregistered hstops
  · exact stopsForGood_of_noneUnderWay hi

/-- As long as the ids have not come round, only a connection that waits can undo a stop. -/
theorem stopsForGood_iff_of_lt (cb : Callbacks) :
    ∀ as s es, (system cb).run init as = some (s, es) → s.sessions.length < 2 ^ 64 →
      ∀ i, s.operations.ready[i]? = some .stop →
        (s.StopsForGood cb i ↔ ∀ c ∈ s.operations.ready, c.isConnection = false) := by
  intro as s es hrun hlt i hi
  constructor
  · intro hstops c hc
    by_contra hconnection
    exact not_stopsForGood_of_connection hi hc (by simpa using hconnection) hstops
  · intro hnone
    refine stopsForGood_of_noneUnderWay hi ⟨hnone, fun session _ hopen ↦ ?_⟩
    exact (registered_iff_isOpen cb as s es hrun hlt session).mpr hopen

/-! ### Two runs -/

/-- A client connects, and the server is stopped. -/
def stoppedRun : List Action :=
  [.start, .complete 0 (.accept none), .handler 0 .ok, .stop]

/-- The server is stopped, and a client connects before the handler runs. -/
def lateRun : List Action :=
  [.start, .stop, .complete 0 (.accept none)]

theorem stopsForGood_stoppedRun :
    ∃ s es, (system .allSet).run init stoppedRun = some (s, es) ∧ s.StopsForGood .allSet 0 :=
  ⟨_, _, rfl, (stopsForGood_iff .allSet stoppedRun _ _ rfl 0 rfl).mpr (by decide)⟩

/-- The late client is registered in the stopped server. -/
theorem not_stopsForGood :
    ¬∀ as s es, (system .allSet).run init as = some (s, es) →
      ∀ i, s.operations.ready[i]? = some .stop → s.StopsForGood .allSet i := by
  intro hall
  have hstops := hall lateRun _ _ rfl 0 rfl .ok [.handler 0 .ok] _ _ rfl
  exact absurd hstops.1 (by decide)

end TcpServer

end Server

end PushService
