import PushService.Dispatcher.Delivery
import PushService.Dispatcher.Threads

/-!
# No wake-up is lost

`Threads.program` meets the conditions under which threads over a monitor are sound: the mutex
excludes, assertions hold, and no wake-up is lost (`sound_of_run`).

The critical sections of the program are the steps of `Dispatcher.system`: a run of the instructions
has the history of a run of critical sections that ends with the same queue, flag and clients
(`exists_run_of_threads`). So what is proved of the latter holds of the former.
-/

namespace PushService

namespace Dispatcher

namespace Threads

open Monitor

variable {s s' : Shared} {es : List Event}

/-! ## The mutex -/

theorem Caller.Acts.critical_iff {p next : Caller} (h : Caller.Acts s p s' next es) :
    next.critical ↔ p.critical := by
  cases h with
  | enter call => rcases call with (_ | p) | _ | _ <;> exact Iff.rfl
  | _ => exact Iff.rfl

theorem Caller.delimits (p : Caller) : p.code.Delimits Caller.critical p := by
  cases p with
  | enqueueing p | stopping => exact ⟨not_false, trivial⟩
  | notifying => exact Iff.rfl
  | leaving => exact ⟨trivial, not_false⟩
  | idle | checking p | pushing p | destroying | flagging =>
    exact fun call _ _ _ _ h ↦ (Caller.acts call rfl h).2.critical_iff

theorem Processing.Acts.critical_iff {p next : Processing} (h : Processing.Acts s p s' next es) :
    next.critical ↔ p.critical := by
  cases h <;> exact Iff.rfl

theorem Processing.delimits (p : Processing) : p.code.Delimits Processing.critical p := by
  cases p with
  | getting | asleep | sent p => exact ⟨not_false, trivial⟩
  | drowsy | leaving => exact ⟨trivial, not_false⟩
  | returning push => cases push <;> exact ⟨trivial, not_false⟩
  | testing | predicate | choosing | taking | sending p next | popping p | exiting =>
    exact fun call _ _ _ _ h ↦ (Processing.acts call rfl h).2.critical_iff
  | finished => exact fun _ _ _ _ _ h ↦ absurd h (by simp)

theorem disciplined : Disciplined program critical
  | .processing, p => Processing.delimits p
  | .caller _, p => Caller.delimits p

/-! ## The assertions -/

theorem Caller.Acts.asserts {p next : Caller} (h : Caller.Acts s p s' next es)
    (hp : p.asserts s) : next.asserts s' := by
  cases h with
  | enter call => rcases call with (_ | p) | _ | _ <;> trivial
  | accept hstopped => exact hstopped
  | fault hpush => exact hp
  | _ => trivial

theorem Caller.keeps (p : Caller) : p.code.Keeps Caller.asserts p := by
  cases p with
  | enqueueing p | stopping | notifying | leaving => exact fun _ _ ↦ trivial
  | idle | checking p | pushing p | destroying | flagging =>
    exact fun call _ _ _ _ h ↦ (Caller.acts call rfl h).2.asserts

theorem Processing.Acts.asserts {p next : Processing} (h : Processing.Acts s p s' next es)
    (hp : p.asserts s) : next.asserts s' := by
  cases h with
  | pass h => exact h
  | wake h => exact h
  | sleep h => simp [Processing.asserts, Shared.ready, h]
  | leave h => exact h
  | take h =>
    -- not stopped or not empty, and, as the place asserts, stopped or not empty
    rcases h with hstopped | hempty
    · exact hp.resolve_left (by simp [hstopped])
    · exact hempty
  | frontFault hfront => exact hp
  | _ => trivial

theorem Processing.keeps (p : Processing) : p.code.Keeps Processing.asserts p := by
  cases p with
  | getting | asleep | sent p | drowsy | leaving => exact fun _ _ ↦ trivial
  | returning push =>
    cases push with
    | none => exact fun _ h ↦ h
    | some p => exact fun _ _ ↦ trivial
  | testing | predicate | choosing | taking | sending p next | popping p | exiting =>
    exact fun call _ _ _ _ h ↦ (Processing.acts call rfl h).2.asserts
  | finished => exact fun _ _ _ _ _ h ↦ absurd h (by simp)

/-- What a caller asserts depends on `stopped_` alone. -/
theorem Caller.asserts_of_eq {q : Caller} (hq : q.asserts s) (hstopped : s'.stopped = s.stopped) :
    q.asserts s' := by
  cases q with
  | pushing p => exact hstopped.trans hq
  | _ => trivial

/-- What the processing thread asserts depends on `stopped_` and on whether the queue is empty. -/
theorem Processing.asserts_of_eq {q : Processing} (hq : q.asserts s)
    (hstopped : s'.stopped = s.stopped) (hempty : s'.pushQueue.empty = s.pushQueue.empty) :
    q.asserts s' := by
  cases q with
  | drowsy | choosing | taking | exiting =>
    simpa only [Processing.asserts, Shared.ready, hstopped, hempty] using hq
  | returning push =>
    cases push with
    | none => simpa only [Processing.asserts, hstopped, hempty] using hq
    | some p => trivial
  | _ => trivial

/-- A caller does not interfere with another one. -/
theorem Caller.Acts.stable_caller {p next q : Caller} (h : Caller.Acts s p s' next es)
    (hq : q.asserts s) (hexcl : ¬(p.critical ∧ q.critical)) : q.asserts s' := by
  cases h with
  | push hpush | fault hpush => exact Caller.asserts_of_eq hq rfl
  | flag =>
    -- the one that matters is between testing and pushing, in its critical section
    cases q with
    | pushing p => exact absurd ⟨trivial, trivial⟩ hexcl
    | _ => trivial
  | _ => exact hq

/-- A caller does not interfere with the processing thread. -/
theorem Caller.Acts.stable_processing {p next : Caller} {q : Processing}
    (h : Caller.Acts s p s' next es) (hp : p.asserts s) (hq : q.asserts s)
    (hexcl : ¬(p.critical ∧ q.critical)) : q.asserts s' := by
  cases h with
  | fault hpush => exact Processing.asserts_of_eq hq rfl rfl
  | push hpush =>
    cases q with
    | drowsy | choosing | taking | returning push => exact absurd ⟨trivial, trivial⟩ hexcl
    | exiting => exact absurd hq.1 (by simp [show s.stopped = false from hp])
    | _ => trivial
  | flag =>
    cases q with
    | drowsy | choosing | taking | returning push => exact absurd ⟨trivial, trivial⟩ hexcl
    | exiting => exact ⟨rfl, hq.2⟩
    | _ => trivial
  | _ => exact hq

/-- The processing thread never writes `stopped_`. -/
theorem Processing.Acts.stopped_eq {p next : Processing} (h : Processing.Acts s p s' next es) :
    s'.stopped = s.stopped := by
  cases h <;> rfl

theorem outline : Outline program critical asserts where
  keeps
    | .processing, p => Processing.keeps p
    | .caller _, p => Caller.keeps p
  stable := by
    intro t u p q f call s s' next es hne hcode hf hp hq hexcl
    cases t with
    | processing =>
      have hacts := (Processing.acts call hcode hf).2
      cases u with
      | processing => exact absurd rfl hne
      | caller n => exact Caller.asserts_of_eq hq hacts.stopped_eq
    | caller n =>
      have hacts := (Caller.acts call hcode hf).2
      cases u with
      | processing => exact hacts.stable_processing hp hq hexcl
      | caller m => exact hacts.stable_caller hq hexcl

/-! ## The wake-ups -/

/-- Whoever makes work for the processing thread notifies it next. -/
theorem Caller.Acts.announces {p next : Caller} (h : Caller.Acts s p s' next es)
    (hidle : ¬s.ready) (hready : s'.ready) : next = .notifying := by
  cases h with
  | push hpush | flag => rfl
  | _ => exact absurd hready hidle

/-- The processing thread makes no work for itself. -/
theorem Processing.Acts.not_ready {p next : Processing} (h : Processing.Acts s p s' next es)
    (hidle : ¬s.ready) : ¬s'.ready := by
  cases h with
  | pop hpop =>
    obtain ⟨-, hempty⟩ := not_or.mp hidle
    rw [PushQueue.pop_of_empty (by simpa using hempty)] at hpop
    exact absurd hpop (by simp)
  | _ => exact hidle

theorem Caller.code_ne_wait (p next : Caller) : p.code ≠ .wait next := by
  cases p <;> simp [Caller.code, onShared]

theorem Processing.eq_drowsy {p next : Processing} (h : p.code = .wait next) : p = .drowsy := by
  cases p with
  | drowsy => rfl
  | _ => exact absurd h (by simp [Processing.code, onShared])

theorem Processing.code_ne_notifyOne (p next : Processing) : p.code ≠ .notifyOne next := by
  cases p <;> simp [Processing.code, onShared]

theorem notifies : Notifies program critical asserts .processing Shared.ready notifying where
  waits := by
    intro t p next hcode
    cases t with
    | processing => rfl
    | caller n => exact absurd hcode (Caller.code_ne_wait p next)
  tested := by
    intro t p next s hcode hp
    cases t with
    | processing =>
      obtain rfl := Processing.eq_drowsy hcode
      exact hp
    | caller n => exact absurd hcode (Caller.code_ne_wait p next)
  announces := by
    intro t p f call s s' next es hcode hf hidle hready
    cases t with
    | processing => exact absurd hready ((Processing.acts call hcode hf).2.not_ready hidle)
    | caller n => exact (Caller.acts call hcode hf).2.announces hidle hready
  notifies := by
    intro t p hp
    cases t with
    | processing => exact hp.elim
    | caller n =>
      obtain rfl : p = Caller.notifying := hp
      exact ⟨_, rfl⟩
  inside := by
    intro t p hp
    cases t with
    | processing => exact hp.elim
    | caller n =>
      obtain rfl : p = Caller.notifying := hp
      trivial

/-- In every state that a run reaches, the mutex excludes, assertions hold, and whoever sleeps
although there is something to do is going to be notified. -/
theorem sound_of_run {clients : List ℕ} {as : List (Move Thread Call)} {c : Config program}
    {h : List Event} (hrun : (Monitor.system program).run (start clients) as = some (c, h)) :
    Sound critical asserts .processing Shared.ready notifying c := by
  refine Monitor.sound_of_run disciplined outline notifies (fun t ↦ ?_) (fun t ↦ ?_) hrun
  · cases t with
    | processing | caller n => exact not_false
  · cases t with
    | processing | caller n => trivial

/-! ## The critical sections are the steps -/

/-- The coarse state with these members. -/
def Shared.withWorker (s : Shared) (w : Worker) : Dispatcher :=
  ⟨s.pushQueue, s.stopped, s.clients, w, s.faulted⟩

/-- Where the processing thread is between its critical sections. Everything from the beginning of
`GetPushFromQueue` to its decision is one step, which ends with the decision. -/
def Processing.Within (clients : List Client) : Processing → Worker → Prop
  | .getting, w | .testing, w | .leaving, w => w = .selecting
  | .asleep, w => ∃ b, w = .waiting b
  | .predicate, w | .drowsy, w | .choosing, w | .taking, w | .returning none, w | .exiting, w =>
    w = .selecting ∨ ∃ b, w = .waiting b
  | .returning (some p), w => w = .sending p 0
  | .sending p next, w => w = .sending p next
  | .sent p, w | .popping p, w => ∃ next, w = .sending p next ∧ clients.length ≤ next
  | .finished, w => w = .finished

theorem exists_notifyOne (s : Shared) (w : Worker) :
    ∃ w', (s.withWorker w).notifyOne = s.withWorker w' ∧
      ∀ p : Processing, p.Within s.clients w → p.Within s.clients w' := by
  cases w with
  | waiting b =>
    refine ⟨.waiting true, rfl, fun p hp ↦ ?_⟩
    cases p with
    | returning push => cases push <;> simp_all [Processing.Within]
    | _ => simp_all [Processing.Within]
  | _ => exact ⟨_, rfl, fun _ hp ↦ hp⟩

variable {w : Worker}

theorem run_action (hfaulted : s.faulted = false) {a : Action} {r : Dispatcher × List Event}
    (h : (match a with
      | .post push => some ((s.withWorker w).post push)
      | .stop => some ((s.withWorker w).stop, [])
      | .work => (s.withWorker w).process) = some r) :
    Dispatcher.system.run (s.withWorker w) [a] = some r := by
  refine System.run_singleton ?_
  rw [Dispatcher.system]
  dsimp only
  rw [if_neg (by simp [Shared.withWorker, hfaulted])]
  exact h

/-- An access of a caller is the critical section of `Post` or `Stop`, or nothing. -/
theorem Caller.Acts.follows {p next : Caller} (h : Caller.Acts s p s' next es)
    (hfaulted : s.faulted = false) (hp : p.asserts s) (w : Worker) :
    ∃ bs w', Dispatcher.system.run (s.withWorker w) bs = some (s'.withWorker w', es) ∧
      ∀ q : Processing, q.Within s.clients w → q.Within s'.clients w' := by
  cases h with
  | @push p q hpush =>
    obtain ⟨w', hnotify, hwithin⟩ := exists_notifyOne { s with pushQueue := q } w
    refine ⟨[.post (some p)], w', run_action hfaulted ?_, hwithin⟩
    dsimp only
    rw [post, enqueueOrNot, if_neg (by simp [Shared.withWorker, show s.stopped = false from hp])]
    rw [show (s.withWorker w).pushQueue.push PushPtr.priority p = some q from hpush]
    exact congrArg some (Prod.ext hnotify rfl)
  | @fault p hpush =>
    refine ⟨[.post (some p)], w, run_action hfaulted ?_, fun _ hq ↦ hq⟩
    dsimp only
    rw [post, enqueueOrNot, if_neg (by simp [Shared.withWorker, show s.stopped = false from hp])]
    rw [show (s.withWorker w).pushQueue.push PushPtr.priority p = none from hpush]
    rfl
  | flag =>
    obtain ⟨w', hnotify, hwithin⟩ := exists_notifyOne { s with stopped := true } w
    refine ⟨[.stop], w', run_action hfaulted ?_, hwithin⟩
    exact congrArg some (Prod.ext hnotify rfl)
  | _ => exact ⟨[], w, rfl, fun _ hq ↦ hq⟩

/-- With something to do, whoever is selecting or waiting takes the front. -/
theorem process_eq_takeFront (hw : w = .selecting ∨ ∃ b, w = .waiting b) (hready : s.ready) :
    (s.withWorker w).process = some (s.withWorker w).takeFront := by
  have hstopped : (s.withWorker w).stopped = s.stopped := rfl
  have hqueue : (s.withWorker w).pushQueue = s.pushQueue := rfl
  rcases hw with rfl | ⟨b, rfl⟩
  · rw [process]
    dsimp only [Shared.withWorker]
    rw [getPushFromQueue, if_neg]
    rcases hready with h | h <;> simp [h]
  · rw [process]
    dsimp only [Shared.withWorker]
    rw [wakeUp, if_pos]
    rcases hready with h | h <;> simp [h]

/-- An access of the processing thread is its step, or nothing. -/
theorem Processing.Acts.follows {p next : Processing} (h : Processing.Acts s p s' next es)
    (hfaulted : s.faulted = false) (hp : p.asserts s) (hw : p.Within s.clients w) :
    ∃ bs w', Dispatcher.system.run (s.withWorker w) bs = some (s'.withWorker w', es) ∧
      next.Within s'.clients w' := by
  cases h with
  | test h | pass h => exact ⟨[], w, rfl, .inl hw⟩
  | sleep h | wake h | leave h | take h => exact ⟨[], w, rfl, hw⟩
  | @front p hfront =>
    refine ⟨[.work], .sending p 0, run_action hfaulted ?_, rfl⟩
    have hready : s.ready := .inr hp
    dsimp only
    rw [process_eq_takeFront hw hready, takeFront, if_neg]
    · rw [show (s.withWorker w).pushQueue.front = some p from hfront]
      rfl
    · simp [Shared.withWorker, show s.pushQueue.empty = false from hp]
  | frontFault hfront =>
    refine ⟨[.work], w, run_action hfaulted ?_, hw⟩
    have hready : s.ready := .inr hp
    dsimp only
    rw [process_eq_takeFront hw hready, takeFront, if_neg]
    · rw [show (s.withWorker w).pushQueue.front = none from hfront]
      rfl
    · simp [Shared.withWorker, show s.pushQueue.empty = false from hp]
  | @send p next client hclient =>
    obtain rfl : w = .sending p next := hw
    refine ⟨[.work], .sending p (next + 1), run_action hfaulted ?_, rfl⟩
    refine congrArg some ?_
    rw [sendOrPop, show (s.withWorker (.sending p next)).clients[next]? = some client from hclient]
    rfl
  | @sent p next hclient =>
    exact ⟨[], w, rfl, next, hw, List.getElem?_eq_none_iff.mp hclient⟩
  | @pop p q hpop =>
    obtain ⟨next, rfl, hnext⟩ := hw
    refine ⟨[.work], .selecting, run_action hfaulted (congrArg some ?_), rfl⟩
    rw [sendOrPop, show (s.withWorker (.sending p next)).clients[next]? = none from
      List.getElem?_eq_none_iff.mpr hnext]
    dsimp only
    rw [show (s.withWorker (.sending p next)).pushQueue.pop = some q from hpop]
    rfl
  | @popFault p hpop =>
    obtain ⟨next, rfl, hnext⟩ := hw
    refine ⟨[.work], .sending p next, run_action hfaulted (congrArg some ?_), next, rfl, hnext⟩
    rw [sendOrPop, show (s.withWorker (.sending p next)).clients[next]? = none from
      List.getElem?_eq_none_iff.mpr hnext]
    dsimp only
    rw [show (s.withWorker (.sending p next)).pushQueue.pop = none from hpop]
    rfl
  | exit =>
    refine ⟨[.work], .finished, run_action hfaulted ?_, rfl⟩
    have hready : s.ready := .inl hp.1
    dsimp only
    rw [process_eq_takeFront hw hready, takeFront, if_pos]
    · rfl
    · simp [Shared.withWorker, hp.1, hp.2]

theorem Processing.within_lock {clients : List Client} {p next : Processing}
    (hcode : p.code = .lock next) (hw : p.Within clients w) : next.Within clients w := by
  cases p with
  | getting =>
    obtain rfl := Instr.lock.inj hcode
    exact hw
  | asleep =>
    obtain rfl := Instr.lock.inj hcode
    exact .inr hw
  | sent p =>
    obtain rfl := Instr.lock.inj hcode
    exact hw
  | _ => exact absurd hcode (by simp [Processing.code, onShared])

theorem Processing.within_unlock {clients : List Client} {p next : Processing}
    (hcode : p.code = .unlock next) (hw : p.Within clients w) : next.Within clients w := by
  cases p with
  | returning push =>
    obtain rfl := Instr.unlock.inj hcode
    cases push with
    | none => exact hw
    | some p => exact hw
  | leaving =>
    obtain rfl := Instr.unlock.inj hcode
    exact hw
  | _ => exact absurd hcode (by simp [Processing.code, onShared])

/-- Falling asleep is the end of the step that finds nothing to do. -/
theorem follows_wait (hfaulted : s.faulted = false) (hidle : ¬s.ready)
    (hw : w = .selecting ∨ ∃ b, w = .waiting b) :
    ∃ bs w', Dispatcher.system.run (s.withWorker w) bs = some (s.withWorker w', []) ∧
      ∃ b, w' = .waiting b := by
  rcases hw with rfl | hw
  · refine ⟨[.work], .waiting false, run_action hfaulted (congrArg some ?_), false, rfl⟩
    obtain ⟨hstopped, hempty⟩ := not_or.mp hidle
    rw [getPushFromQueue, if_pos]
    · rfl
    · simp [Shared.withWorker, hempty, hstopped]
  · exact ⟨[], w, rfl, hw⟩

/-- One instruction is one step of the critical sections, or none. -/
theorem follows_of_moves {c c' : Config program}
    (hsound : Sound critical asserts .processing Shared.ready notifying c)
    (hfaulted : c.data.faulted = false) (hw : Processing.Within c.data.clients (c.pc .processing) w)
    (h : Moves c c' es) :
    ∃ bs w', Dispatcher.system.run (c.data.withWorker w) bs = some (c'.data.withWorker w', es) ∧
      Processing.Within c'.data.clients (c'.pc .processing) w' := by
  have hother : ∀ {n : ℕ} {next s m},
      (c.goto (.caller n) next s m).pc .processing = c.pc .processing :=
    c.pc_goto_of_ne (by simp) _ _ _
  cases h with
  | @lock t next hcode hfree =>
    refine ⟨[], w, rfl, ?_⟩
    cases t with
    | processing =>
      rw [Config.pc_goto_self]
      exact Processing.within_lock hcode hw
    | caller n =>
      rw [hother]
      exact hw
  | @unlock t next hcode =>
    refine ⟨[], w, rfl, ?_⟩
    cases t with
    | processing =>
      rw [Config.pc_goto_self]
      exact Processing.within_unlock hcode hw
    | caller n =>
      rw [hother]
      exact hw
  | @wait t next hcode =>
    obtain rfl := notifies.waits hcode
    have hplace := Processing.eq_drowsy hcode
    have hidle := hsound.annotated .processing
    rw [hplace] at hcode hw hidle
    have hnext : next = Processing.asleep := (Instr.wait.inj hcode).symm
    rw [Config.pc_goto_self, hnext]
    exact follows_wait hfaulted hidle hw
  | @notify t next woken m hcode hnotify =>
    refine ⟨[], w, rfl, ?_⟩
    cases t with
    | processing => exact absurd hcode (Processing.code_ne_notifyOne _ _)
    | caller n =>
      rw [hother]
      exact hw
  | @access t f call s' next es hcode hf =>
    cases t with
    | processing =>
      rw [Config.pc_goto_self]
      exact (Processing.acts call hcode hf).2.follows hfaulted (hsound.annotated .processing) hw
    | caller n =>
      rw [hother]
      obtain ⟨bs, w', hrun, hwithin⟩ :=
        (Caller.acts call hcode hf).2.follows hfaulted (hsound.annotated (.caller n)) w
      exact ⟨bs, w', hrun, hwithin _ hw⟩
  | wakeUp hasleep => exact ⟨[], w, rfl, hw⟩

/-- The state between the critical sections that a configuration stands for. -/
structure Coarse (c : Config program) (d : Dispatcher) : Prop where
  sound : Sound critical asserts .processing Shared.ready notifying c
  simulates : ∃ q, d.Simulates q
  within : ∃ w, d = c.data.withWorker w ∧ Processing.Within c.data.clients (c.pc .processing) w

/-- **The critical sections simulate the instructions.** -/
theorem isSimulation_coarse :
    System.IsSimulation (Monitor.system program) Dispatcher.system Coarse := by
  rintro c d a c' es ⟨hsound, ⟨q, hq⟩, w, rfl, hw⟩ hstep
  have hmoves := moves_of_step hstep
  obtain ⟨bs, w', hrun, hw'⟩ := follows_of_moves hsound hq.not_faulted hw hmoves
  refine ⟨bs, _, hrun, hsound.step disciplined outline notifies hmoves, ?_, w', rfl, hw'⟩
  refine System.run_invariant (I := fun d _ ↦ ∃ q, d.Simulates q) (h := []) ?_ ⟨q, hq⟩ hrun
  rintro d h a d' es ⟨q, hq⟩ hstep
  obtain ⟨q', -, hq', -⟩ := hq.step hstep
  exact ⟨q', hq'⟩

theorem exists_run_of_threads {clients : List ℕ} {as : List (Move Thread Call)} {c : Config program}
    {h : List Event} (hrun : (Monitor.system program).run (start clients) as = some (c, h)) :
    ∃ bs d, Dispatcher.system.run (Dispatcher.start clients) bs = some (d, h) ∧ Coarse c d := by
  have hstart : Coarse (start clients) (Dispatcher.start clients) :=
    ⟨sound_of_run (System.run_nil ..), ⟨_, simulates_start clients⟩, .selecting, rfl, rfl⟩
  exact isSimulation_coarse.run hstart hrun

/-! ## The law -/

/-- **No wake-up is lost.** In no state that any interleaving reaches is the processing thread in
`wait`, not notified, while nobody is in a critical section and there is a push in the queue or
`stopped_` is set. -/
theorem no_lost_wakeUp (clients : List ℕ) (as : List (Move Thread Call)) (c : Config program)
    (h : List Event) (hrun : (Monitor.system program).run (start clients) as = some (c, h)) :
    ¬(.processing ∈ c.monitor.sleeping ∧ (∀ t, ¬critical t (c.pc t)) ∧
      (c.data.pushQueue.contents ≠ [] ∨ c.data.stopped = true)) := by
  rintro ⟨hasleep, hfree, hready⟩
  have hsound := sound_of_run hrun
  obtain ⟨bs, d, -, -, ⟨q, hq⟩, w, rfl, -⟩ := exists_run_of_threads hrun
  have hcond : c.data.ready := by
    rcases hready with hne | hstopped
    · refine .inr (Bool.eq_false_iff.mpr fun hempty ↦ hne ?_)
      exact hq.refines.empty_iff_contents.mp hempty
    · exact .inl hstopped
  exact hsound.attended.owner_ne_none notifies hsound.guarded hasleep hcond
    (hsound.guarded.owner_eq_none.mpr hfree)

/-- The next instruction of a thread; only one that is in no call looks at what it is told to
call. -/
def Thread.go (t : Thread) : Move Thread Call := .step t .stop

/-- The processing thread falls asleep; then a push is posted, and it is notified. -/
def sleepingRun : List (Move Thread Call) :=
  [Thread.processing.go, Thread.processing.go, Thread.processing.go, Thread.processing.go,
    .step (.caller 0) (.post (some normalPush)), (Thread.caller 0).go, (Thread.caller 0).go,
    (Thread.caller 0).go, .notify (.caller 0) (some .processing), (Thread.caller 0).go]

theorem no_lost_wakeUp_sleepingRun : ∃ c h,
    (Monitor.system program).run (start [7]) sleepingRun = some (c, h) ∧
      c.data.pushQueue.contents = [normalPush] ∧ c.monitor.owner = none ∧
      .processing ∉ c.monitor.sleeping := by
  have hrun : (Monitor.system program).run (start [7]) sleepingRun = some (_, _) := rfl
  have hfree := (sound_of_run hrun).guarded.owner_eq_none.mp rfl
  exact ⟨_, _, hrun, rfl, rfl, fun hasleep ↦
    no_lost_wakeUp [7] sleepingRun _ _ hrun ⟨hasleep, hfree, .inl (by decide)⟩⟩

end Threads

end Dispatcher

end PushService
