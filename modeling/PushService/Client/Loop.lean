import PushService.System.Run

/-!
# Starting and stopping the client loop

`runClientAppLoop` starts a thread that creates `work_guard_`, restarts the context if it is stopped
and then is in `io_context_.run()`. `stopClientLoop` resets the guard, disconnects, stops the
context and joins the thread. The caller is one thread; each call may be made while the io thread of
the same cycle is still on its way.

## The guard and the context

A context with no outstanding work is stopped, by the end of its last work or by `run()` itself. The
guard counts as work from its creation to its `reset()`, and its object stays after that: from the
second cycle on there is always a guard to reset, though it may be the one of the cycle before.

## Two orders that go wrong

In the first cycle `reset()` may come before the guard exists. In a later one it may come before the
*new* guard exists, and if `stop()` then comes before the io thread has restarted the context, both
are undone: `run()` goes on and the join never returns. `Waits` excludes the two.
-/

namespace PushService

namespace Client

/-- Where the io thread is. -/
inductive IoThread
  /-- Before `work_guard_` is created. -/
  | guard
  /-- Before `io_context_.stopped()`. -/
  | test
  /-- Before `io_context_.restart()`. -/
  | restart
  /-- Before `io_context_.run()`. -/
  | run
  /-- In `io_context_.run()`. -/
  | running
  /-- `run()` has returned. -/
  | finished
  deriving DecidableEq, Repr

/-- Where the calling thread is. -/
inductive CallerThread
  | idle
  /-- In `stopClientLoop`, before `work_guard_->reset()`. -/
  | reset
  /-- Before `disconnect()`. -/
  | disconnect
  /-- Before `io_context_.stop()`. -/
  | stop
  /-- In `io_thread_->join()`. -/
  | join
  /-- Before `io_thread_.reset()`. -/
  | release
  /-- A null `work_guard_` was dereferenced. -/
  | crashed
  deriving DecidableEq, Repr

/-- The members of `ClientApp` that make up the loop, and the two threads. -/
structure ClientLoop where
  /-- `work_guard_`: none, or a guard that is live or not. -/
  workGuard : Option Bool
  /-- The context is stopped. -/
  stopped : Bool
  /-- The outstanding work of the context besides the guard. -/
  work : ℕ
  /-- `io_thread_`. -/
  ioThread : Option IoThread
  caller : CallerThread
  deriving DecidableEq, Repr

namespace ClientLoop

inductive Action
  | runClientAppLoop
  | stopClientLoop
  /-- The calling thread takes the next step of `stopClientLoop`. -/
  | callerStep
  /-- The io thread takes its next step. -/
  | ioStep
  /-- Some operation of the context begins. -/
  | workStarts
  /-- Some operation of the context ends. -/
  | workEnds
  deriving DecidableEq, Repr

/-- A new `ClientApp`. -/
def init : ClientLoop :=
  ⟨none, false, 0, none, .idle⟩

variable (s : ClientLoop)

/-- The context is stopped when its last work has ended. -/
def settle : ClientLoop :=
  { s with stopped := s.stopped || (s.work == 0 && s.workGuard != some true) }

/-- `runClientAppLoop`. -/
def runClientAppLoop : Option ClientLoop :=
  match s.caller with
  | .idle =>
    match s.ioThread with
    | none => some { s with ioThread := some .guard }
    | some _ => some s
  | _ => none

/-- `stopClientLoop`, to its first statement that is not a test. -/
def stopClientLoop : Option ClientLoop :=
  match s.caller with
  | .idle =>
    match s.ioThread with
    | none => some s
    | some _ => some { s with caller := .reset }
  | _ => none

/-- The statements of `stopClientLoop`. What `disconnect` does to the connection shows in the work
of the context. -/
def callerStep : Option ClientLoop :=
  match s.caller with
  | .reset =>
    match s.workGuard with
    | none => some { s with caller := .crashed }
    | some true => some (settle { s with workGuard := some false, caller := .disconnect })
    | some false => some { s with caller := .disconnect }
  | .disconnect => some { s with caller := .stop }
  | .stop => some { s with stopped := true, caller := .join }
  | .join =>
    match s.ioThread with
    | some .finished => some { s with caller := .release }
    | _ => none
  | .release => some { s with ioThread := none, caller := .idle }
  | .idle | .crashed => none

/-- The statements of the io thread. It leaves `run()` when the context is stopped. -/
def ioStep : Option ClientLoop :=
  match s.ioThread with
  | some .guard => some { s with workGuard := some true, ioThread := some .test }
  | some .test => some { s with ioThread := some (if s.stopped then .restart else .run) }
  | some .restart => some { s with stopped := false, ioThread := some .run }
  | some .run => some (settle { s with ioThread := some .running })
  | some .running => if s.stopped then some { s with ioThread := some .finished } else none
  | some .finished | none => none

/-- The loop under its two threads; it emits nothing. -/
def loop : System ClientLoop Action Empty where
  step s
    | .runClientAppLoop => (runClientAppLoop s).map fun t ↦ (t, [])
    | .stopClientLoop => (stopClientLoop s).map fun t ↦ (t, [])
    | .callerStep => (callerStep s).map fun t ↦ (t, [])
    | .ioStep => (ioStep s).map fun t ↦ (t, [])
    | .workStarts => some ({ s with work := s.work + 1 }, [])
    | .workEnds =>
      match s.work with
      | 0 => none
      | n + 1 => some (settle { s with work := n }, [])

/-! ## The bad states -/

/-- The caller waits for the io thread, which is in `run()` on a context that is not stopped and has
a live guard. -/
def Hung (s : ClientLoop) : Prop :=
  s.caller = .join ∧ s.ioThread = some .running ∧ s.stopped = false ∧ s.workGuard = some true

instance (s : ClientLoop) : Decidable (Hung s) :=
  inferInstanceAs (Decidable (_ ∧ _))

/-- Neither has a null guard been dereferenced nor is the join hung. -/
def Safe (s : ClientLoop) : Prop :=
  s.caller ≠ .crashed ∧ ¬Hung s

instance (s : ClientLoop) : Decidable (Safe s) :=
  inferInstanceAs (Decidable (_ ∧ _))

/-- The join of a hung caller never returns. -/
theorem Hung.step {s t : ClientLoop} {a : Action} {es : List Empty} (hs : Hung s)
    (hstep : loop.step s a = some (t, es)) : Hung t := by
  obtain ⟨hcaller, hio, hstopped, hguard⟩ := hs
  cases a with
  | runClientAppLoop => simp [loop, ClientLoop.runClientAppLoop, hcaller] at hstep
  | stopClientLoop => simp [loop, ClientLoop.stopClientLoop, hcaller] at hstep
  | callerStep => simp [loop, ClientLoop.callerStep, hcaller, hio] at hstep
  | ioStep => simp [loop, ClientLoop.ioStep, hio, hstopped] at hstep
  | workStarts =>
    obtain ⟨rfl, -⟩ := Prod.mk.inj (Option.some_inj.mp hstep)
    exact ⟨hcaller, hio, hstopped, hguard⟩
  | workEnds =>
    simp only [loop] at hstep
    split at hstep
    · exact absurd hstep (by simp)
    · obtain ⟨rfl, -⟩ := Prod.mk.inj (Option.some_inj.mp hstep)
      exact ⟨hcaller, hio, by simp [settle, hstopped, hguard], hguard⟩

theorem Hung.run {s t : ClientLoop} {as : List Action} {es : List Empty} (hs : Hung s)
    (hrun : loop.run s as = some (t, es)) : Hung t :=
  System.run_invariant (I := fun s _ ↦ Hung s) (h := []) (fun hs hstep ↦ hs.step hstep) hs hrun

/-! ## The condition -/

/-- The io thread has not yet tested the context or restarted it. -/
def isStarting : IoThread → Bool
  | .guard | .test | .restart => true
  | .run | .running | .finished => false

/-- `reset()` is called after a guard was created, and `stop()` not while the io thread is starting
with a guard that is live or to be created yet. -/
def Waits (s : ClientLoop) : Action → Prop
  | .callerStep =>
    (s.caller = .reset → s.workGuard ≠ none) ∧
      (s.caller = .stop → s.ioThread ≠ some .guard ∧
        (s.ioThread.any isStarting → s.workGuard ≠ some true))
  | .runClientAppLoop | .stopClientLoop | .ioStep | .workStarts | .workEnds => True

instance (s : ClientLoop) : ∀ a, Decidable (Waits s a)
  | .callerStep => inferInstanceAs (Decidable (_ ∧ _))
  | .runClientAppLoop | .stopClientLoop | .ioStep | .workStarts | .workEnds => isTrue trivial

/-! ## Waiting runs are safe -/

/-- The io thread is past its start with the context stopped, or the guard is not live and no other
will be created, or it is done: its `run()` is going to return. -/
def Leaving (s : ClientLoop) : IoThread → Prop
  | .guard => False
  | .test | .restart => s.workGuard ≠ some true
  | .run | .running => s.workGuard ≠ some true ∨ s.stopped = true
  | .finished => True

/-- While the caller is in `stopClientLoop` there is an io thread, and the one it waits for is
leaving. -/
structure Inv (s : ClientLoop) : Prop where
  caller : s.caller ≠ .crashed
  started : s.caller ≠ .idle → s.ioThread.isSome
  leaving : s.caller = .join → ∀ io, s.ioThread = some io → Leaving s io

variable {s} {t : ClientLoop} {a : Action} {es : List Empty}

theorem inv_init : Inv init :=
  ⟨by simp [init], by simp [init], by simp [init]⟩

theorem Inv.safe (hI : Inv s) : Safe s := by
  refine ⟨hI.caller, fun ⟨hcaller, hio, hstopped, hguard⟩ ↦ ?_⟩
  rcases hI.leaving hcaller _ hio with h | h
  · exact h hguard
  · simp [hstopped] at h

theorem Leaving.of_eq {io : IoThread} (h : Leaving s io) (hguard : t.workGuard = s.workGuard)
    (hstopped : s.stopped = true → t.stopped = true) : Leaving t io := by
  cases io with
  | guard | finished => exact h
  | test | restart =>
    show t.workGuard ≠ some true
    rwa [hguard]
  | run | running =>
    refine h.imp ?_ hstopped
    rw [hguard]
    exact id

/-- A step that leaves the threads and the guard alone, and does not start the context again. -/
theorem Inv.of_eq (hI : Inv s) (hcaller : t.caller = s.caller) (hio : t.ioThread = s.ioThread)
    (hguard : t.workGuard = s.workGuard) (hstopped : s.stopped = true → t.stopped = true) :
    Inv t := by
  refine ⟨hcaller ▸ hI.caller, fun h ↦ hio ▸ hI.started (hcaller ▸ h), fun h io hsome ↦ ?_⟩
  exact (hI.leaving (hcaller ▸ h) io (hio ▸ hsome)).of_eq hguard hstopped

/-- Nothing is asked of the io thread before the caller waits for it. -/
theorem inv_of_caller (hcrashed : s.caller ≠ .crashed) (hjoin : s.caller ≠ .join)
    (hstarted : s.caller ≠ .idle → s.ioThread.isSome) : Inv s :=
  ⟨hcrashed, hstarted, fun h ↦ absurd h hjoin⟩

/-- `stop()` on a thread that is past its start, or that does without a guard. -/
theorem leaving_of_stop {io : IoThread} (hC : Waits s .callerStep) (hs : s.caller = .stop)
    (hio : s.ioThread = some io) : Leaving { s with stopped := true, caller := .join } io := by
  obtain ⟨hguard, hstarting⟩ := hC.2 hs
  rw [hio] at hguard hstarting
  cases io with
  | guard => exact absurd rfl hguard
  | test | restart => exact hstarting rfl
  | run | running => exact .inr rfl
  | finished => trivial

theorem Inv.callerStep (hI : Inv s) (hC : Waits s .callerStep) (hstep : callerStep s = some t) :
    Inv t := by
  have hstarted := hI.started
  unfold ClientLoop.callerStep at hstep
  cases hs : s.caller with
  | idle | crashed => simp [hs] at hstep
  | reset =>
    simp only [hs] at hstep
    cases hg : s.workGuard with
    | none => exact absurd hg (hC.1 hs)
    | some live =>
      rw [hg] at hstep
      cases live <;>
      · obtain rfl := Option.some_inj.mp hstep
        exact inv_of_caller (by simp [settle]) (by simp [settle]) fun _ ↦ hstarted (by simp [hs])
  | disconnect =>
    simp only [hs, Option.some.injEq] at hstep
    subst hstep
    exact inv_of_caller (by simp) (by simp) fun _ ↦ hstarted (by simp [hs])
  | stop =>
    simp only [hs, Option.some.injEq] at hstep
    subst hstep
    exact ⟨by simp, fun _ ↦ hstarted (by simp [hs]), fun _ io hio ↦ leaving_of_stop hC hs hio⟩
  | join =>
    simp only [hs] at hstep
    split at hstep
    · obtain rfl := Option.some_inj.mp hstep
      exact inv_of_caller (by simp) (by simp) fun _ ↦ hstarted (by simp [hs])
    · exact absurd hstep (by simp)
  | release =>
    simp only [hs, Option.some.injEq] at hstep
    subst hstep
    exact inv_of_caller (by simp) (by simp) fun h ↦ absurd rfl h

/-- A leaving thread goes on leaving. -/
theorem Inv.ioStep (hI : Inv s) (hstep : ioStep s = some t) : Inv t := by
  have hcrashed := hI.caller
  have hleaving := hI.leaving
  unfold ClientLoop.ioStep at hstep
  cases hio : s.ioThread with
  | none => simp [hio] at hstep
  | some io =>
    rw [hio] at hstep hleaving
    replace hleaving : s.caller = .join → Leaving s io := fun h ↦ hleaving h io rfl
    cases io with
    | guard =>
      obtain rfl := Option.some_inj.mp hstep
      exact ⟨hcrashed, fun _ ↦ rfl, fun h ↦ (hleaving h).elim⟩
    | test =>
      obtain rfl := Option.some_inj.mp hstep
      refine ⟨hcrashed, fun _ ↦ rfl, fun h io hsome ↦ ?_⟩
      obtain rfl := Option.some_inj.mp hsome
      split
      · exact hleaving h
      · exact .inl (hleaving h)
    | restart =>
      obtain rfl := Option.some_inj.mp hstep
      refine ⟨hcrashed, fun _ ↦ rfl, fun h io hsome ↦ ?_⟩
      obtain rfl := Option.some_inj.mp hsome
      exact .inl (hleaving h)
    | run =>
      obtain rfl := Option.some_inj.mp hstep
      refine ⟨hcrashed, fun _ ↦ rfl, fun h io hsome ↦ ?_⟩
      obtain rfl := Option.some_inj.mp hsome
      exact (hleaving h).imp id fun hstopped ↦ by simp [settle, hstopped]
    | running =>
      simp only at hstep
      split at hstep
      · obtain rfl := Option.some_inj.mp hstep
        refine ⟨hcrashed, fun _ ↦ rfl, fun h io hsome ↦ ?_⟩
        obtain rfl := Option.some_inj.mp hsome
        trivial
      · exact absurd hstep (by simp)
    | finished => exact absurd hstep (by simp)

theorem Inv.step (hI : Inv s) (hC : Waits s a) (hstep : loop.step s a = some (t, es)) : Inv t := by
  cases a with
  | runClientAppLoop =>
    obtain ⟨u, hu, heq⟩ := Option.map_eq_some_iff.mp hstep
    obtain ⟨rfl, -⟩ := Prod.mk.inj heq
    unfold ClientLoop.runClientAppLoop at hu
    split at hu
    · rename_i hidle
      split at hu <;>
      · obtain rfl := Option.some_inj.mp hu
        exact inv_of_caller (by simp [hidle]) (by simp [hidle]) fun h ↦ absurd hidle h
    · exact absurd hu (by simp)
  | stopClientLoop =>
    obtain ⟨u, hu, heq⟩ := Option.map_eq_some_iff.mp hstep
    obtain ⟨rfl, -⟩ := Prod.mk.inj heq
    unfold ClientLoop.stopClientLoop at hu
    split at hu
    · split at hu
      · obtain rfl := Option.some_inj.mp hu
        exact hI
      · rename_i io hio
        obtain rfl := Option.some_inj.mp hu
        exact inv_of_caller (by simp) (by simp) fun _ ↦ by simp [hio]
    · exact absurd hu (by simp)
  | callerStep =>
    obtain ⟨u, hu, heq⟩ := Option.map_eq_some_iff.mp hstep
    obtain ⟨rfl, -⟩ := Prod.mk.inj heq
    exact hI.callerStep hC hu
  | ioStep =>
    obtain ⟨u, hu, heq⟩ := Option.map_eq_some_iff.mp hstep
    obtain ⟨rfl, -⟩ := Prod.mk.inj heq
    exact hI.ioStep hu
  | workStarts =>
    obtain ⟨rfl, -⟩ := Prod.mk.inj (Option.some_inj.mp hstep)
    exact hI.of_eq rfl rfl rfl id
  | workEnds =>
    simp only [loop] at hstep
    split at hstep
    · exact absurd hstep (by simp)
    · obtain ⟨rfl, -⟩ := Prod.mk.inj (Option.some_inj.mp hstep)
      exact hI.of_eq rfl rfl rfl fun h ↦ by simp [settle, h]

/-- **Waiting runs are safe.** In every run of calls and steps that waits, no null guard is
dereferenced and no join is hung. -/
theorem safe_of_waits {as : List Action} (hC : loop.Obeys Waits init as)
    (hrun : loop.run init as = some (s, es)) : Safe s :=
  (System.run_induction (I := fun s _ ↦ Inv s) (h := []) (fun hI hC hstep ↦ hI.step hC hstep)
    inv_init hC hrun).safe

/-- Two cycles, the second stopped as soon as its guard is there. -/
def waitingRun : List Action :=
  [.runClientAppLoop, .ioStep, .ioStep, .ioStep, .workStarts, .stopClientLoop, .callerStep,
    .callerStep, .callerStep, .ioStep, .callerStep, .callerStep, .runClientAppLoop, .ioStep,
    .stopClientLoop, .callerStep, .callerStep, .callerStep]

theorem safe_of_waits_waitingRun :
    ∃ s es, loop.run init waitingRun = some (s, es) ∧ Safe s :=
  have hC : loop.Obeys Waits init waitingRun := by decide
  ⟨_, _, rfl, safe_of_waits hC rfl⟩

/-! ## Runs that do not wait -/

/-- The io thread undoes a `stop()` that came while it was starting with a live guard to be. -/
theorem hung_of_starting {io : IoThread} (hcaller : s.caller = .join) (hio : s.ioThread = some io)
    (hstopped : s.stopped = true) (hstarting : isStarting io = true)
    (hguard : io ≠ .guard → s.workGuard = some true) :
    ∃ as t es, loop.run s as = some (t, es) ∧ Hung t := by
  obtain ⟨guard, stopped, work, ioThread, caller⟩ := s
  obtain rfl : caller = .join := hcaller
  obtain rfl : ioThread = some io := hio
  obtain rfl : stopped = true := hstopped
  cases io with
  | guard =>
    refine ⟨[.ioStep, .ioStep, .ioStep, .ioStep], _, _, rfl, rfl, rfl, ?_, rfl⟩
    simp [settle]
  | test =>
    obtain rfl : guard = some true := hguard (by simp)
    refine ⟨[.ioStep, .ioStep, .ioStep], _, _, rfl, rfl, rfl, ?_, rfl⟩
    simp [settle]
  | restart =>
    obtain rfl : guard = some true := hguard (by simp)
    refine ⟨[.ioStep, .ioStep], _, _, rfl, rfl, rfl, ?_, rfl⟩
    simp [settle]
  | run | running | finished => exact absurd hstarting (by simp [isStarting])

/-- A step that does not wait can be followed up by steps to an unsafe state. -/
theorem exists_not_safe_of_breach (h : ¬Waits s a) :
    ∃ as t es, loop.run s (a :: as) = some (t, es) ∧ ¬Safe t := by
  cases a with
  | runClientAppLoop | stopClientLoop | ioStep | workStarts | workEnds => exact absurd trivial h
  | callerStep =>
    rcases not_and_or.mp h with hreset | hstop
    · obtain ⟨hs, hguard⟩ := Classical.not_imp.mp hreset
      have hnull : s.workGuard = none := not_not.mp hguard
      have hstep : loop.step s .callerStep = some ({ s with caller := .crashed }, []) := by
        simp [loop, ClientLoop.callerStep, hs, hnull]
      exact ⟨[], _, _, System.run_singleton hstep, fun hsafe ↦ hsafe.1 rfl⟩
    · obtain ⟨hs, hio⟩ := Classical.not_imp.mp hstop
      have hstep : loop.step s .callerStep
          = some ({ s with stopped := true, caller := .join }, []) := by
        simp [loop, ClientLoop.callerStep, hs]
      -- an io thread that is not starting would have waited
      cases hthread : s.ioThread with
      | none => exact absurd ⟨by simp [hthread], by simp [hthread]⟩ hio
      | some io =>
        rw [hthread] at hio
        have hhung : ∃ as t es, loop.run { s with stopped := true, caller := .join } as
            = some (t, es) ∧ Hung t := by
          refine hung_of_starting rfl hthread rfl ?_ fun hne ↦ ?_
          · rw [← Bool.not_eq_false]
            intro hnot
            exact hio ⟨fun heq ↦ by simp [Option.some_inj.mp heq, isStarting] at hnot,
              fun h ↦ by simp [hnot] at h⟩
          · rw [← not_ne_iff]
            exact fun hguard ↦ hio ⟨fun heq ↦ hne (Option.some_inj.mp heq), fun _ ↦ hguard⟩
        obtain ⟨as, t, es, hrun, hhung⟩ := hhung
        exact ⟨as, t, [] ++ es, System.run_cons_eq_some.mpr ⟨_, [], es, hstep, hrun, rfl⟩,
          fun hsafe ↦ hsafe.2 hhung⟩

/-- A run that does not wait has a beginning from which an unsafe state can be reached. -/
theorem exists_not_safe_of_not_obeys {as : List Action} (hrun : loop.run init as = some (s, es))
    (h : ¬loop.Obeys Waits init as) :
    ∃ bs cs t fs, bs <+: as ∧ loop.run init (bs ++ cs) = some (t, fs) ∧ ¬Safe t := by
  obtain ⟨bs, a, cs, u, fs, rfl, hbs, -, hbreach⟩ := System.exists_first_breach hrun h
  obtain ⟨ds, t, gs, hds, ht⟩ := exists_not_safe_of_breach hbreach
  exact ⟨bs, a :: ds, t, fs ++ gs, List.prefix_append .., System.run_append_eq_some.mpr
    ⟨u, fs, gs, hbs, hds, rfl⟩, ht⟩

/-- The loop is stopped before the io thread has taken a step. -/
def crashingRun : List Action :=
  [.runClientAppLoop, .stopClientLoop, .callerStep]

/-- The loop is started and stopped, and started again and stopped before the io thread has taken a
step. -/
def hangingRun : List Action :=
  [.runClientAppLoop, .ioStep, .ioStep, .ioStep, .stopClientLoop, .callerStep, .callerStep,
    .callerStep, .ioStep, .callerStep, .callerStep, .runClientAppLoop, .stopClientLoop, .callerStep,
    .callerStep, .callerStep, .ioStep, .ioStep, .ioStep, .ioStep]

theorem crashed_crashingRun_hung_hangingRun :
    (∃ s es, loop.run init crashingRun = some (s, es) ∧ s.caller = .crashed) ∧
      ∃ s es, loop.run init hangingRun = some (s, es) ∧ Hung s :=
  ⟨⟨_, _, rfl, rfl⟩, _, _, rfl, by decide⟩

end ClientLoop

end Client

end PushService
