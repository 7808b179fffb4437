import PushService.Client.Reconnecting

/-!
# What `close` leaves behind

`close` resets `shouldReconnect_`, closes the socket and cancels the timer. It cannot take back what
has completed: the handler of a successful connect sets `shouldReconnect_` again, and the handler of
an expired timer starts a connect, both without a look at whether the client has been closed
meanwhile. These two, and an exception on the way, are all that can go wrong (`close_final_iff`).
-/

namespace PushService

namespace Client

namespace TcpClient

variable {cb : Callbacks}

/-- A `close` with these results is going to be final. -/
structure ClosesForGood (cb : Callbacks) (r : CloseResults) (c : TcpClient) : Prop where
  /-- No successful connect and no expired timer is queued. -/
  ready : ∀ d ∈ c.operations.ready, d.starts = false
  /-- If `close` throws before it cancels the timer, the timer is not running. -/
  wait : Throws cb r → Op.wait ∉ c.operations.pending
  /-- If `close` throws before it cancels the socket operations, no connect is under way. -/
  connect : Throws cb r → r.cancel ≠ none → Op.connect ∉ c.operations.pending

theorem ClosesForGood.settled {r : CloseResults} {c : TcpClient} (h : ClosesForGood cb r c) :
    Settled (close cb r c).state := by
  have hready : c.operations.Forall (fun _ ↦ True) (fun d ↦ d.starts = false) :=
    ⟨fun _ _ ↦ trivial, h.ready⟩
  by_cases hthrows : Throws cb r
  · obtain ⟨isOpen, hclose⟩ := close_of_throws hthrows c
    have hwait := h.wait hthrows
    rw [hclose]
    refine ⟨rfl, ?_⟩
    change Operations.Forall _ _ (if r.cancel = none then _ else _)
    have hnone : ∀ op ∈ c.operations.pending, (op.onSocket = false ∨ r.cancel ≠ none) →
        op.starts = false := by
      intro op hop hor
      cases op with
      | connect =>
        rcases hor with hsocket | hcancel
        · exact absurd hsocket (by simp [Op.onSocket])
        · exact absurd hop (h.connect hthrows hcancel)
      | wait => exact absurd hop hwait
      | read connection => rfl
      | write call size => rfl
    split_ifs with hcancel
    · refine Operations.Forall.abort (R := fun op ↦ op ∈ c.operations.pending)
        ⟨fun _ h ↦ h, h.ready⟩
        (fun op hsel hop ↦ hnone op hop (.inl hsel)) fun op _ _ ↦ aborted_starts op
    · exact ⟨fun op hop ↦ hnone op hop (.inr hcancel), h.ready⟩
  · rw [(close_of_not_throws hthrows c).2]
    refine ⟨rfl, Operations.Forall.abort (R := fun op ↦ op.onSocket = false) ?_ ?_
      fun op _ _ ↦ aborted_starts op⟩
    · exact hready.abort (fun op hsel _ ↦ hsel) fun op _ _ ↦ aborted_starts op
    · intro op htimer hsocket
      cases op <;> simp_all [Op.onTimer, Op.onSocket]

theorem restarts_of_isAttempt {e : Event} (h : e.isAttempt = true) : e.restarts = true := by
  cases e <;> simp_all [Event.isAttempt, Event.restarts]

theorem ne_connect_of_isNetwork {a : Action} (h : a.isNetwork = true) : a ≠ .connect := by
  rintro rfl
  exact absurd h (by simp [Action.isNetwork])

/-- What would not be final can be shown not to be. -/
theorem mayAttempt_of_not_closesForGood {r : CloseResults} {c : TcpClient}
    (h : ¬ClosesForGood cb r c) : MayAttempt cb (close cb r c).state := by
  by_cases hready : ∀ d ∈ c.operations.ready, d.starts = false
  · by_cases hthrows : Throws cb r
    · obtain ⟨isOpen, hclose⟩ := close_of_throws hthrows c
      rw [hclose]
      by_cases hwait : Op.wait ∈ c.operations.pending
      · apply attempts_of_wait
        change _ ∈ (if r.cancel = none then _ else _ : Operations Op Completion).pending
        split_ifs
        · exact Operations.mem_pending_abort hwait rfl _
        · exact hwait
      · have hconnect : r.cancel ≠ none ∧ Op.connect ∈ c.operations.pending := by
          by_contra hno
          exact h ⟨hready, fun _ ↦ hwait, fun _ hcancel hop ↦ hno ⟨hcancel, hop⟩⟩
        apply attempts_of_connect
        change _ ∈ (if r.cancel = none then _ else _ : Operations Op Completion).pending
        rw [if_neg hconnect.1]
        exact hconnect.2
    · exact absurd ⟨hready, fun ht ↦ absurd ht hthrows, fun ht ↦ absurd ht hthrows⟩ h
  · push Not at hready
    obtain ⟨d, hd, hstarts⟩ := hready
    have hkept : Kept fun c ↦ d ∈ c.operations.ready :=
      ⟨fun _ _ h ↦ h, fun _ _ h ↦ h, fun _ _ h ↦ h, fun _ _ h ↦ h, fun _ h ↦ h, fun _ _ h ↦ h,
        fun _ h ↦ Operations.mem_ready_abort h _ _, fun _ _ h ↦ h,
        fun _ h ↦ Operations.mem_ready_abort h _ _⟩
    have hclose : (close cb r c).Satisfies (fun c ↦ d ∈ c.operations.ready) (fun _ ↦ True) :=
      close_satisfies hkept (fun _ _ ↦ trivial) r hd
    exact attempts_of_ready hclose.1 (by simpa using hstarts)

/-- `close` itself only reports. -/
theorem close_not_restarts (r : CloseResults) (c : TcpClient) :
    ∀ e ∈ (settle (close cb r c)).2, e.restarts = false := by
  have hclose : (close cb r c).Satisfies (fun _ ↦ True) (fun e ↦ e.restarts = false) :=
    close_satisfies kept_true (fun _ ↦ not_restarts_of_incidental) r trivial
  exact (settle_satisfies hclose fun _ ↦ not_restarts_of_incidental).2

/-- Whatever happens after this `close`, no connect is started, no timer is armed and no connection
is reported until `connect` is called again. -/
def CloseIsFinal (cb : Callbacks) (r : CloseResults) (c : TcpClient) : Prop :=
  ∀ bs c' h, (∀ b ∈ bs, b ≠ .connect) → (system cb).run c (.close r :: bs) = some (c', h) →
    ∀ e ∈ h, e.restarts = false

/-- **When `close` is final.** At every point of every run, `close` is final if and only if neither
a successful connect nor an expired timer is queued, and no exception keeps it from aborting the
connect and the timer that are pending. -/
theorem close_final_iff (cb : Callbacks) :
    ∀ as c h, (system cb).run init as = some (c, h) →
      ∀ r, CloseIsFinal cb r c ↔ ClosesForGood cb r c := by
  intro as c h _ r
  constructor
  · intro hfinal
    by_contra hnot
    obtain ⟨bs, c', h', hnetwork, hrun, e, he, hattempt⟩ := mayAttempt_of_not_closesForGood hnot
    have hbad := hfinal bs c' _ (fun b hb ↦ ne_connect_of_isNetwork (hnetwork b hb))
      (System.run_cons_eq_some.mpr ⟨_, _, _, rfl, hrun, rfl⟩) e (List.mem_append_right _ he)
    rw [restarts_of_isAttempt hattempt] at hbad
    exact absurd hbad (by simp)
  · intro hgood bs c' h' hbs hrun e he
    obtain ⟨c₁, es, fs, hstep, hrest, rfl⟩ := System.run_cons_eq_some.mp hrun
    obtain ⟨rfl, rfl⟩ := Prod.mk.inj (Option.some_inj.mp hstep)
    rcases List.mem_append.mp he with he | he
    · exact close_not_restarts r c e he
    · have hsilent : (system cb).Silent (fun a ↦ a ≠ .connect) (fun e ↦ ¬e.restarts = false)
          (settle (close cb r c)).1 := by
        refine System.silent_of_invariant (I := Settled) (fun hs ha hstep ↦ ?_) hgood.settled
        simpa using (hs.step ha hstep).imp_left And.left
      exact not_not.mp (hsilent bs c' fs hbs hrest e he)

/-! ### Two runs -/

def allSet : Callbacks := ⟨true, true, true, true, true, true⟩

/-- The client connects. -/
def connectedRun : List Action :=
  [.setEndpoint (.ok [⟨"127.0.0.1", 8080⟩]), .connect, .complete 0 (.connect none), .handler 0 .ok]

/-- The connection is lost, and the reconnect timer expires. -/
def expiredRun : List Action :=
  connectedRun ++ [.complete 0 (.read 1 (.error (.other "End of file"))), .handler 0 .ok,
    .complete 0 (.wait none)]

theorem close_final_connectedRun :
    ∃ c h, (system allSet).run init connectedRun = some (c, h) ∧ CloseIsFinal allSet .ok c :=
  ⟨_, _, rfl, (close_final_iff allSet connectedRun _ _ rfl .ok).mpr
    ⟨by decide, fun h ↦ absurd h (by decide), fun h ↦ absurd h (by decide)⟩⟩

/-- The handler of the expired timer runs after `close`, and starts a connect. -/
theorem not_close_final :
    ¬∀ cb as c h, (system cb).run init as = some (c, h) → ∀ r, CloseIsFinal cb r c := by
  intro hall
  have hfinal := hall allSet expiredRun _ _ rfl .ok [.handler 0 .ok] _ _ (by simp) rfl
  exact absurd hfinal (by decide)

end TcpClient

end Client

end PushService
