import PushService.Generator.AdminGenerator
import PushService.Text.Numerals

/-!
# The thread of a generator

`PushGenerator`: `Start` gives `worker_` a thread that generates and sends a push every two seconds,
`Stop` clears `running_` and joins it. The thread that owns the generator calls `Start`, `Stop` and
the destructors; a run is any interleaving of it with the worker.

Assigning to a `std::thread` that has not been joined calls `std::terminate`, and so does a call of
`GeneratePush` after the destructor of the derived class, when it is pure virtual. Both can only
happen if `worker_` has a thread when `Start` is called or the derived class is destroyed
(`terminated_of_run`).
-/

namespace PushService

namespace Generator

namespace PushGenerator

/-- Where the worker is. -/
inductive Place
  /-- `worker_` has no thread. -/
  | absent
  /-- Before the test of `running_`. -/
  | test
  /-- Before the call of `GeneratePush`. -/
  | generate
  /-- Before the `asyncSend` of the push. -/
  | send (push : Push)
  /-- In `sleep_for`. -/
  | sleep
  /-- `Run` has returned; the thread has not been joined. -/
  | returned
  deriving DecidableEq, Repr

inductive Event
  /-- A thread has been started. -/
  | started
  /-- `GeneratePush` has returned `push`, and has itself sent `own`. -/
  | generated (own : List Push) (push : Push)
  /-- `client_.asyncSend(bytes)`. -/
  | asyncSend (data : Bytes)
  /-- Two seconds have passed. -/
  | slept
  /-- The thread has been joined. -/
  | joined
  deriving DecidableEq, Repr

/-- A step of the owner, or of the worker, which may call `rand`. -/
inductive Action (ρ : Type*)
  | start
  /-- `Stop`, up to `join`. -/
  | stop
  /-- `join` returns. -/
  | join
  /-- The destructor of the derived class. That of `PushGenerator` calls `Stop`. -/
  | destroy
  | run (random : ρ)

end PushGenerator

open PushGenerator in
/-- The members of `PushGenerator` and of the class derived from it, and the state of the two
threads. -/
structure PushGenerator (σ : Type*) where
  running : Bool
  worker : Place
  /-- The owner is in `join`. -/
  joining : Bool
  members : σ
  /-- The derived class has been destroyed. -/
  destroyed : Bool
  /-- `std::terminate` has been called. -/
  terminated : Bool
  deriving DecidableEq, Repr

namespace PushGenerator

variable {ρ σ : Type*}

/-- The constructor. -/
def init (members : σ) : PushGenerator σ := ⟨false, .absent, false, members, false, false⟩

/-- `serializer_.Serialize(push)`, sent. -/
def sends (pushes : List Push) : List Event :=
  pushes.map fun push ↦ .asyncSend (BinaryPushSerializer.serialize push)

/-- The next step of the worker. `generatePush` is the `GeneratePush` of the derived class: what it
sends itself, what it returns, and its members afterwards. -/
def run (generatePush : ρ → σ → List Push × Push × σ) (random : ρ) (g : PushGenerator σ) :
    Option (PushGenerator σ × List Event) :=
  match g.worker with
  | .absent | .returned => none
  | .test => some ({ g with worker := if g.running then .generate else .returned }, [])
  | .generate =>
    if g.destroyed then some ({ g with terminated := true }, [])
    else
      let (own, push, members) := generatePush random g.members
      some ({ g with members := members, worker := .send push }, .generated own push :: sends own)
  | .send push => some ({ g with worker := .sleep }, sends [push])
  | .sleep => some ({ g with worker := .test }, [.slept])

def step (generatePush : ρ → σ → List Push × Push × σ) (g : PushGenerator σ) :
    Action ρ → Option (PushGenerator σ × List Event)
  | .start =>
    if g.terminated || g.joining || g.destroyed then none
    else if g.worker = .absent then some ({ g with running := true, worker := .test }, [.started])
    else some ({ g with running := true, terminated := true }, [])
  | .stop =>
    if g.terminated || g.joining then none
    -- only a thread is joined
    else some ({ g with running := false, joining := g.worker ≠ .absent }, [])
  | .join =>
    if g.terminated then none
    else if g.joining && g.worker = .returned then
      some ({ g with worker := .absent, joining := false }, [.joined])
    else none
  | .destroy =>
    if g.terminated || g.joining || g.destroyed then none
    else some ({ g with destroyed := true }, [])
  | .run random => if g.terminated then none else g.run generatePush random

def system (generatePush : ρ → σ → List Push × Push × σ) :
    System (PushGenerator σ) (Action ρ) Event :=
  ⟨step generatePush⟩

end PushGenerator

/-- `GeneratePush` of `AdminPushGenerator`, whose member is `authorized_`. -/
def adminGeneratePush (login password : Bytes) (_ : Unit)
    (authorized : Bool) : List Push × Push × Bool :=
  (if authorized then [] else [authPush login password], createAdminPush, true)

/-- What `rand` returns for the four parts of a push. -/
structure Draws where
  priority : ℕ
  category : ℕ
  source : ℕ
  text : ℕ
  deriving DecidableEq, Repr

def randomPriority (n : ℕ) : PushPriority :=
  match n % 3 with
  | 0 => .normal
  | 1 => .high
  | _ => .critical

def randomCategory (n : ℕ) : PushCategory :=
  match n % 3 with
  | 0 => .notification
  | 1 => .warning
  | _ => .error

def randomSource (n : ℕ) : PushSource :=
  match n % 3 with
  | 0 => .source1
  | 1 => .source2
  | _ => .source3

def texts : List Bytes :=
  ["Hello!", "Update available", "Warning!", "Check settings", "Reminder", "Action required"].map
    Numerals.asciiText

def randomText (n : ℕ) : Bytes := texts.getD (n % texts.length) []

/-- `RandomPushFactory::CreateUserPush`. -/
def createUserPush (r : Draws) : Push :=
  ⟨randomPriority r.priority, randomCategory r.category, randomSource r.source, randomText r.text⟩

/-- `GeneratePush` of `UserPushGenerator`, which has no members. -/
def userGeneratePush (r : Draws) (_ : Unit) : List Push × Push × Unit := ([], createUserPush r, ())

namespace PushGenerator

/-- What `main` does: the generator runs while `io.run()` does, is stopped, and then destroyed. -/
def mainRun {ρ : Type*} (random : ρ) : List (Action ρ) :=
  [.start, .run random, .run random, .run random, .run random, .run random, .stop, .run random,
    .run random, .run random, .run random, .join, .destroy, .stop]

/-- The generator is destroyed while its thread sleeps. -/
def destroyedRun {ρ : Type*} (random : ρ) : List (Action ρ) :=
  [.start, .run random, .run random, .run random, .destroy]

variable {ρ σ : Type*} {generatePush : ρ → σ → List Push × Push × σ} {g g' : PushGenerator σ}
    {es : List Event}

/-- What a step can do. -/
inductive Steps (generatePush : ρ → σ → List Push × Push × σ) (g : PushGenerator σ) :
    Action ρ → PushGenerator σ → List Event → Prop
  | start (hjoining : g.joining = false) (hdestroyed : g.destroyed = false)
    (hworker : g.worker = .absent) :
    Steps generatePush g .start { g with running := true, worker := .test } [.started]
  | restart (hjoining : g.joining = false) (hworker : g.worker ≠ .absent) :
    Steps generatePush g .start { g with running := true, terminated := true } []
  | stop (hjoining : g.joining = false) :
    Steps generatePush g .stop { g with running := false, joining := g.worker ≠ .absent } []
  | join (hjoining : g.joining = true) (hworker : g.worker = .returned) :
    Steps generatePush g .join { g with worker := .absent, joining := false } [.joined]
  | destroy (hjoining : g.joining = false) :
    Steps generatePush g .destroy { g with destroyed := true } []
  | goOn {random} (hworker : g.worker = .test) (hrunning : g.running = true) :
    Steps generatePush g (.run random) { g with worker := .generate } []
  | finish {random} (hworker : g.worker = .test) (hrunning : g.running = false) :
    Steps generatePush g (.run random) { g with worker := .returned } []
  | generate {random own push members} (hworker : g.worker = .generate)
    (hdestroyed : g.destroyed = false)
    (hpush : generatePush random g.members = (own, push, members)) :
    Steps generatePush g (.run random) { g with members := members, worker := .send push }
      (.generated own push :: sends own)
  | pureVirtual {random} (hworker : g.worker = .generate) (hdestroyed : g.destroyed = true) :
    Steps generatePush g (.run random) { g with terminated := true } []
  | send {random push} (hworker : g.worker = .send push) :
    Steps generatePush g (.run random) { g with worker := .sleep } (sends [push])
  | sleep {random} (hworker : g.worker = .sleep) :
    Steps generatePush g (.run random) { g with worker := .test } [.slept]

theorem steps_of_step {a : Action ρ} (h : step generatePush g a = some (g', es)) :
    g.terminated = false ∧ Steps generatePush g a g' es := by
  cases a with
  | start =>
    simp only [step, Bool.or_eq_true] at h
    split_ifs at h with hguard hworker
    · obtain ⟨rfl, rfl⟩ := Prod.mk.inj (Option.some_inj.mp h)
      simp only [not_or, Bool.not_eq_true] at hguard
      exact ⟨hguard.1.1, .start hguard.1.2 hguard.2 hworker⟩
    · obtain ⟨rfl, rfl⟩ := Prod.mk.inj (Option.some_inj.mp h)
      simp only [not_or, Bool.not_eq_true] at hguard
      exact ⟨hguard.1.1, .restart hguard.1.2 hworker⟩
  | stop =>
    simp only [step, Bool.or_eq_true] at h
    split_ifs at h with hguard
    obtain ⟨rfl, rfl⟩ := Prod.mk.inj (Option.some_inj.mp h)
    simp only [not_or, Bool.not_eq_true] at hguard
    exact ⟨hguard.1, .stop hguard.2⟩
  | join =>
    simp only [step, Bool.and_eq_true, decide_eq_true_eq] at h
    split_ifs at h with hguard hworker
    obtain ⟨rfl, rfl⟩ := Prod.mk.inj (Option.some_inj.mp h)
    exact ⟨by simpa using hguard, .join hworker.1 hworker.2⟩
  | destroy =>
    simp only [step, Bool.or_eq_true] at h
    split_ifs at h with hguard
    obtain ⟨rfl, rfl⟩ := Prod.mk.inj (Option.some_inj.mp h)
    simp only [not_or, Bool.not_eq_true] at hguard
    exact ⟨hguard.1.1, .destroy hguard.1.2⟩
  | run random =>
    simp only [step] at h
    split_ifs at h with hguard
    refine ⟨by simpa using hguard, ?_⟩
    cases hworker : g.worker with
    | absent | returned => exact absurd h (by simp [run, hworker])
    | test =>
      simp only [run, hworker] at h
      obtain ⟨rfl, rfl⟩ := Prod.mk.inj (Option.some_inj.mp h)
      split_ifs with hrunning
      · exact .goOn hworker hrunning
      · exact .finish hworker (by simpa using hrunning)
    | generate =>
      simp only [run, hworker] at h
      split_ifs at h with hdestroyed
      · obtain ⟨rfl, rfl⟩ := Prod.mk.inj (Option.some_inj.mp h)
        rw [← hworker]
        exact .pureVirtual hworker hdestroyed
      · obtain ⟨rfl, rfl⟩ := Prod.mk.inj (Option.some_inj.mp h)
        exact .generate hworker (by simpa using hdestroyed) rfl
    | send push =>
      simp only [run, hworker] at h
      obtain ⟨rfl, rfl⟩ := Prod.mk.inj (Option.some_inj.mp h)
      exact .send hworker
    | sleep =>
      simp only [run, hworker] at h
      obtain ⟨rfl, rfl⟩ := Prod.mk.inj (Option.some_inj.mp h)
      exact .sleep hworker

/-! ## What is sent -/

/-- The push that has been generated and not yet sent. -/
def Place.pending : Place → List Push
  | .send push => [push]
  | _ => []

/-- The pushes of the calls of `GeneratePush`, in the order in which they are to be sent. -/
def generated (h : List Event) : List Push :=
  h.flatMap fun
    | .generated own push => own ++ [push]
    | _ => []

/-- What has been sent. -/
def sent (h : List Event) : List Bytes :=
  h.filterMap fun
    | .asyncSend data => some data
    | _ => none

/-- A call of `GeneratePush` has returned. -/
def isGenerated : Event → Bool
  | .generated _ _ => true
  | _ => false

@[simp] theorem generated_append (h es : List Event) :
    generated (h ++ es) = generated h ++ generated es := List.flatMap_append

@[simp] theorem sent_append (h es : List Event) : sent (h ++ es) = sent h ++ sent es :=
  List.filterMap_append ..

@[simp] theorem generated_sends (pushes : List Push) : generated (sends pushes) = [] := by
  simp [generated, sends]

@[simp] theorem sent_sends (pushes : List Push) :
    sent (sends pushes) = pushes.map BinaryPushSerializer.serialize := by
  simp [sent, sends]

@[simp] theorem countP_sends (pushes : List Push) : (sends pushes).countP isGenerated = 0 := by
  simp [sends, isGenerated]

@[simp] theorem count_sends {e : Event} (he : ∀ data, e ≠ .asyncSend data) (pushes : List Push) :
    (sends pushes).count e = 0 := by
  refine List.count_eq_zero.mpr fun hmem ↦ ?_
  obtain ⟨push, -, heq⟩ := List.mem_map.mp hmem
  exact he _ heq.symm

/-- `worker_` has a thread. -/
def Place.threads : Place → ℕ
  | .absent => 0
  | _ => 1

/-- The worker is not past the call of `GeneratePush` in its round. -/
def Place.fresh : Place → ℕ
  | .test | .generate => 1
  | _ => 0

/-- What has been sent, and how often. -/
structure Accounted (g : PushGenerator σ) (h : List Event) : Prop where
  sent_eq : sent h ++ g.worker.pending.map BinaryPushSerializer.serialize
    = (generated h).map BinaryPushSerializer.serialize
  rounds : h.countP isGenerated + g.worker.fresh ≤ h.count .slept + h.count .started
  threads : h.count .started = h.count .joined + g.worker.threads

theorem Accounted.step {a : Action ρ} {h : List Event} (hI : g.Accounted h)
    (hstep : step generatePush g a = some (g', es)) : g'.Accounted (h ++ es) := by
  obtain ⟨hsent, hrounds, hthreads⟩ := hI
  cases (steps_of_step hstep).2 with
  | start hjoining hdestroyed hworker =>
    rw [hworker] at hsent hrounds hthreads
    refine ⟨by simpa [sent, generated, Place.pending] using hsent, ?_, ?_⟩
    · simp [isGenerated, Place.fresh] at hrounds ⊢
      omega
    · simp [Place.threads] at hthreads ⊢
      omega
  | restart hjoining hworker | stop hjoining | destroy hjoining | pureVirtual hworker hdestroyed =>
    rw [List.append_nil]
    exact ⟨hsent, hrounds, hthreads⟩
  | join hjoining hworker =>
    rw [hworker] at hsent hrounds hthreads
    refine ⟨by simpa [sent, generated, Place.pending] using hsent, ?_, ?_⟩
    · simpa [isGenerated, Place.fresh] using hrounds
    · simpa [Place.threads] using hthreads
  | goOn hworker hrunning =>
    rw [hworker] at hsent hrounds hthreads
    rw [List.append_nil]
    exact ⟨hsent, hrounds, hthreads⟩
  | finish hworker hrunning =>
    rw [hworker] at hsent hrounds hthreads
    rw [List.append_nil]
    exact ⟨hsent, (Nat.le_add_right _ _).trans hrounds, hthreads⟩
  | generate hworker hdestroyed hpush =>
    rename_i own push members
    rw [hworker] at hsent hrounds hthreads
    have hnew : sent (.generated own push :: sends own) = own.map BinaryPushSerializer.serialize :=
      sent_sends own
    have hcall : (Event.generated own push :: sends own).countP isGenerated = 1 := by
      rw [List.countP_cons, countP_sends]
      rfl
    refine ⟨?_, ?_, ?_⟩
    · rw [sent_append, hnew, generated_append, List.map_append, ← hsent]
      simp [generated, sends, Place.pending]
    · simpa [hcall, Place.fresh] using hrounds
    · simpa [Place.threads] using hthreads
  | send hworker =>
    rw [hworker] at hsent hrounds hthreads
    refine ⟨?_, ?_, ?_⟩
    · rw [sent_append, sent_sends, generated_append, generated_sends, List.append_nil, ← hsent]
      exact List.append_nil _
    · simpa [Place.fresh] using hrounds
    · simpa [Place.threads] using hthreads
  | sleep hworker =>
    rw [hworker] at hsent hrounds hthreads
    refine ⟨by simpa [sent, generated, Place.pending] using hsent, ?_, ?_⟩
    · simp [isGenerated, Place.fresh] at hrounds ⊢
      omega
    · simpa [Place.threads] using hthreads

theorem accounted_of_run {members : σ} {as : List (Action ρ)} {h : List Event}
    (hrun : (system generatePush).run (init members) as = some (g, h)) : g.Accounted h :=
  System.run_invariant (I := Accounted) (h := []) (fun hI hstep ↦ hI.step hstep)
    (s := init members) ⟨rfl, Nat.le_refl 0, rfl⟩ hrun

/-- **What a generator sends.** In any interleaving of its owner and its thread: the pushes of the
calls of `GeneratePush` are sent in order, each once, but for the last one, which may be about to be
sent; there is a call for each start of a thread and one for each two seconds, at most; and there is
never more than one thread. -/
theorem sends_of_run (generatePush : ρ → σ → List Push × Push × σ) (members : σ)
    (as : List (Action ρ)) (g : PushGenerator σ) (h : List Event)
    (hrun : (system generatePush).run (init members) as = some (g, h)) :
    sent h ++ g.worker.pending.map BinaryPushSerializer.serialize
        = (generated h).map BinaryPushSerializer.serialize ∧
      h.countP isGenerated ≤ h.count .slept + h.count .started ∧
      h.count .joined ≤ h.count .started ∧ h.count .started ≤ h.count .joined + 1 := by
  obtain ⟨hsent, hrounds, hthreads⟩ := accounted_of_run hrun
  have hone : g.worker.threads ≤ 1 := by cases g.worker <;> simp [Place.threads]
  exact ⟨hsent, (Nat.le_add_right _ _).trans hrounds, by omega, by omega⟩

theorem sends_of_run_mainRun : ∃ g h,
    (system (adminGeneratePush [97] [98])).run (init false) (mainRun ()) = some (g, h) ∧
      sent h = (generated h).map BinaryPushSerializer.serialize ∧
      generated h = [authPush [97] [98], createAdminPush, createAdminPush] := by
  have hrun : (system (adminGeneratePush [97] [98])).run (init false) (mainRun ())
      = some (_, _) := rfl
  exact ⟨_, _, hrun, (sends_of_run _ false (mainRun ()) _ _ hrun).1, rfl⟩

/-! ## `Stop` -/

/-- The steps of the worker until `Run` returns, when `running_` is cleared. -/
def Place.left : Place → ℕ
  | .generate => 4
  | .send _ => 3
  | .sleep => 2
  | .test => 1
  | .absent | .returned => 0

/-- The calls of `GeneratePush` among them. -/
def Place.calls : Place → ℕ
  | .generate => 1
  | _ => 0

def isRun : Action ρ → Bool
  | .run _ => true
  | _ => false

/-- `Stop` has been called, and the derived class is there until the thread has been joined. -/
structure Stopping (g : PushGenerator σ) : Prop where
  running : g.running = false
  terminated : g.terminated = false
  safe : g.worker = .absent ∨ g.joining = true ∧ g.destroyed = false

theorem Stopping.step {a : Action ρ} (hg : g.Stopping) (ha : a ≠ .start)
    (hstep : step generatePush g a = some (g', es)) :
    g'.Stopping ∧ [a].countP isRun + g'.worker.left = g.worker.left ∧
      es.countP isGenerated + g'.worker.calls = g.worker.calls := by
  obtain ⟨hrunning, hterminated, hsafe⟩ := hg
  have hthread : ∀ {place : Place}, g.worker = place → place ≠ .absent →
      g.joining = true ∧ g.destroyed = false := fun hworker hne ↦
    hsafe.resolve_left fun habsent ↦ hne (hworker.symm.trans habsent)
  cases (steps_of_step hstep).2 with
  | start hjoining hdestroyed hworker => exact absurd rfl ha
  | restart hjoining hworker => exact absurd rfl ha
  | stop hjoining | destroy hjoining =>
    have habsent : g.worker = .absent := hsafe.resolve_right fun h ↦ by simp [hjoining] at h
    exact ⟨⟨by simp [hrunning], hterminated, .inl habsent⟩, Nat.zero_add _, Nat.zero_add _⟩
  | join hjoining hworker =>
    exact ⟨⟨hrunning, hterminated, .inl rfl⟩, by simp [hworker, isRun, Place.left],
      by simp [hworker, isGenerated, Place.calls]⟩
  | goOn hworker hset => exact absurd hset (by simp [hrunning])
  | finish hworker => exact ⟨⟨hrunning, hterminated, .inr (hthread hworker (by simp))⟩,
      by simp [hworker, isRun, Place.left], by simp [hworker, Place.calls]⟩
  | generate hworker hdestroyed hpush =>
    refine ⟨⟨hrunning, hterminated, .inr (hthread hworker (by simp))⟩,
      by simp [hworker, isRun, Place.left], ?_⟩
    rw [List.countP_cons, countP_sends, hworker]
    rfl
  | pureVirtual hworker hdestroyed =>
    exact absurd (hthread hworker (by simp)).2 (by simp [hdestroyed])
  | send hworker => exact ⟨⟨hrunning, hterminated, .inr (hthread hworker (by simp))⟩,
      by simp [hworker, isRun, Place.left], by simp [hworker, Place.calls]⟩
  | sleep hworker => exact ⟨⟨hrunning, hterminated, .inr (hthread hworker (by simp))⟩,
      by simp [hworker, isRun, Place.left], by simp [hworker, isGenerated, Place.calls]⟩

theorem Stopping.run {bs : List (Action ρ)} {h : List Event} (hg : g.Stopping) (hbs : .start ∉ bs)
    (hrun : (system generatePush).run g bs = some (g', h)) :
    g'.Stopping ∧ bs.countP isRun + g'.worker.left = g.worker.left ∧
      h.countP isGenerated + g'.worker.calls = g.worker.calls := by
  induction bs generalizing g h with
  | nil =>
    obtain ⟨rfl, rfl⟩ : g = g' ∧ [] = h := by simpa using hrun
    exact ⟨hg, Nat.zero_add _, Nat.zero_add _⟩
  | cons a bs ih =>
    obtain ⟨g₁, es, fs, hstep, hrest, rfl⟩ := System.run_cons_eq_some.mp hrun
    obtain ⟨ha, hbs⟩ := not_or.mp (mt List.mem_cons.mpr hbs)
    obtain ⟨hg₁, hleft, hcalls⟩ := hg.step (Ne.symm ha) hstep
    obtain ⟨hg', hleft', hcalls'⟩ := ih hg₁ hbs hrest
    refine ⟨hg', ?_, ?_⟩
    · rw [← List.singleton_append, List.countP_append]
      omega
    · rw [List.countP_append]
      omega

/-- The worker can take its next step, or `join` can return, or has returned. -/
theorem Stopping.progress (generatePush : ρ → σ → List Push × Push × σ) (hg : g.Stopping) :
    (g.worker.left ≠ 0 → ∀ random, ∃ r, (system generatePush).step g (.run random) = some r) ∧
      (g.worker.left = 0 →
        g.worker = .absent ∨ ∃ r, (system generatePush).step g .join = some r) := by
  obtain ⟨-, hterminated, hsafe⟩ := hg
  cases hworker : g.worker with
  | absent => exact ⟨fun h ↦ absurd rfl h, fun _ ↦ .inl rfl⟩
  | returned =>
    have hjoining : g.joining = true := (hsafe.resolve_left (by simp [hworker])).1
    refine ⟨fun h ↦ absurd rfl h, fun _ ↦ .inr ?_⟩
    simp [system, PushGenerator.step, hterminated, hjoining, hworker]
  | generate =>
    have hdestroyed : g.destroyed = false := (hsafe.resolve_left (by simp [hworker])).2
    refine ⟨fun _ random ↦ ?_, fun h ↦ absurd h (by simp [Place.left])⟩
    simp [system, PushGenerator.step, PushGenerator.run, hterminated, hworker, hdestroyed]
  | test | send | sleep =>
    refine ⟨fun _ random ↦ ?_, fun h ↦ absurd h (by simp [Place.left])⟩
    simp [system, PushGenerator.step, PushGenerator.run, hterminated, hworker]

/-- Once `Run` has returned nothing is sent. -/
theorem sent_eq_nil {a : Action ρ} (hleft : g.worker.left = 0)
    (hstep : step generatePush g a = some (g', es)) : sent es = [] := by
  cases (steps_of_step hstep).2 with
  | start | restart | stop | join | destroy | goOn | finish | pureVirtual | sleep => rfl
  | generate hworker => exact absurd hleft (by simp [hworker, Place.left])
  | send hworker => exact absurd hleft (by simp [hworker, Place.left])

theorem Stopping.silent {bs : List (Action ρ)} {h : List Event} (hg : g.Stopping)
    (hleft : g.worker.left = 0) (hbs : .start ∉ bs)
    (hrun : (system generatePush).run g bs = some (g', h)) : sent h = [] := by
  induction bs generalizing g h with
  | nil =>
    obtain ⟨-, rfl⟩ : g = g' ∧ [] = h := by simpa using hrun
    rfl
  | cons a bs ih =>
    obtain ⟨g₁, es, fs, hstep, hrest, rfl⟩ := System.run_cons_eq_some.mp hrun
    obtain ⟨ha, hbs⟩ := not_or.mp (mt List.mem_cons.mpr hbs)
    obtain ⟨hg₁, hleft₁, -⟩ := hg.step (Ne.symm ha) hstep
    rw [sent_append, sent_eq_nil hleft hstep, ih hg₁ (by omega) hbs hrest, List.append_nil]

/-- **`Stop` returns.** After a call of `Stop` on a generator that is not being destroyed, and until
the next `Start`, the worker takes the steps that are left of its round, four at most, calls
`GeneratePush` at most once more, and can always take the next one; then `join` returns, and nothing
more is sent. -/
theorem stop_returns (generatePush : ρ → σ → List Push × Push × σ) (members : σ)
    (as : List (Action ρ)) (g : PushGenerator σ) (h : List Event)
    (hrun : (system generatePush).run (init members) (as ++ [.stop]) = some (g, h))
    (hdestroyed : g.destroyed = false) (bs : List (Action ρ)) (hbs : .start ∉ bs)
    (g' : PushGenerator σ) (h' : List Event)
    (hrun' : (system generatePush).run g bs = some (g', h')) :
    (bs.countP isRun ≤ 4 ∧ h'.countP isGenerated ≤ 1) ∧
    (bs.countP isRun < g.worker.left →
      ∀ random, ∃ r, (system generatePush).step g' (.run random) = some r) ∧
    (bs.countP isRun = g.worker.left →
      (g'.worker = .absent ∨ ∃ r, (system generatePush).step g' .join = some r) ∧
      ∀ cs g'' h'', .start ∉ cs → (system generatePush).run g' cs = some (g'', h'') →
        sent h'' = []) := by
  obtain ⟨g₀, h₀, es, -, hlast, -⟩ := System.run_append_eq_some.mp hrun
  obtain ⟨g₁, es₁, _, hstep, hnil, -⟩ := System.run_cons_eq_some.mp hlast
  obtain ⟨rfl, -⟩ := Prod.mk.inj (Option.some_inj.mp hnil)
  have hstop : step generatePush g₀ .stop = some (g₁, es₁) := hstep
  obtain ⟨hterminated, hsteps⟩ := steps_of_step hstop
  have hg : g₁.Stopping := by
    cases hsteps with
    | stop hjoining =>
      refine ⟨rfl, hterminated, ?_⟩
      by_cases hworker : g₀.worker = .absent
      · exact .inl hworker
      · exact .inr ⟨by simpa using hworker, hdestroyed⟩
  obtain ⟨hg', hleft, hcalls⟩ := hg.run hbs hrun'
  obtain ⟨hgoes, hjoins⟩ := hg'.progress generatePush
  have hfour : g₁.worker.left ≤ 4 := by cases g₁.worker <;> simp [Place.left]
  have hone : g₁.worker.calls ≤ 1 := by cases g₁.worker <;> simp [Place.calls]
  refine ⟨⟨by omega, by omega⟩, fun hlt ↦ hgoes (by omega), fun heq ↦ ?_⟩
  have hzero : g'.worker.left = 0 := by omega
  exact ⟨hjoins hzero, fun cs g'' h'' hcs hrun'' ↦ hg'.silent hzero hcs hrun''⟩

/-- `Stop` is called when the worker has just found `running_` set. -/
theorem stop_returns_mainRun : ∃ g h g' h',
    (system (adminGeneratePush [97] [98])).run (init false)
    ((mainRun ()).take 6 ++ [.stop]) = some (g, h) ∧
      (system (adminGeneratePush [97] [98])).run g (List.replicate 4 (.run ())) = some (g', h') ∧
      h'.countP isGenerated ≤ 1 ∧
      (g'.worker = .absent ∨
        ∃ r, (system (adminGeneratePush [97] [98])).step g' .join = some r) := by
  have hrun : (system (adminGeneratePush [97] [98])).run (init false)
      ((mainRun ()).take 6 ++ [.stop])
      = some (_, _) := rfl
  obtain ⟨⟨-, hcalls⟩, -, hdone⟩ := stop_returns _ false ((mainRun ()).take 6) _ _ hrun rfl
    (List.replicate 4 (.run ())) (by simp) _ _ rfl
  exact ⟨_, _, _, _, hrun, rfl, hcalls, (hdone rfl).1⟩

/-! ## `std::terminate` -/

/-- `worker_` has no thread when `Start` is called and when the derived class is destroyed. -/
def Disciplined (g : PushGenerator σ) : Action ρ → Prop
  | .start | .destroy => g.worker = .absent
  | .stop | .join | .run _ => True

instance (g : PushGenerator σ) : ∀ a : Action ρ, Decidable (Disciplined g a)
  | .start | .destroy => inferInstanceAs (Decidable (_ = _))
  | .stop | .join | .run _ => isTrue trivial

/-- There is no thread left when the derived class has been destroyed. -/
structure Safe (g : PushGenerator σ) : Prop where
  terminated : g.terminated = false
  absent : g.destroyed = true → g.worker = .absent

theorem Safe.step {a : Action ρ} (hg : g.Safe) (ha : Disciplined g a)
    (hstep : step generatePush g a = some (g', es)) : g'.Safe := by
  obtain ⟨hterminated, habsent⟩ := hg
  have halive : ∀ {place : Place}, g.worker = place → place ≠ .absent → g.destroyed = false := by
    intro place hworker hne
    by_contra hdestroyed
    exact hne (hworker.symm.trans (habsent (by simpa using hdestroyed)))
  cases (steps_of_step hstep).2 with
  | start hjoining hdestroyed hworker =>
    exact ⟨hterminated, fun h ↦ absurd h (by simp [hdestroyed])⟩
  | restart hjoining hworker => exact absurd ha hworker
  | stop hjoining => exact ⟨hterminated, habsent⟩
  | join hjoining hworker => exact ⟨hterminated, fun _ ↦ rfl⟩
  | destroy hjoining => exact ⟨hterminated, fun _ ↦ ha⟩
  | goOn hworker | finish hworker | send hworker | sleep hworker =>
    exact ⟨hterminated, fun h ↦ absurd h (by simp [halive hworker (by simp)])⟩
  | generate hworker hdestroyed => exact ⟨hterminated, fun h ↦ absurd h (by simp [hdestroyed])⟩
  | pureVirtual hworker hdestroyed => exact absurd (halive hworker (by simp)) (by simp [hdestroyed])

/-- A thread that is not being joined goes on. -/
def Owned (g : PushGenerator σ) : Prop :=
  g.joining = false → g.worker = .absent ∨ g.running = true ∧ g.worker ≠ .returned

theorem Owned.step {a : Action ρ} (hg : g.Owned) (hstep : step generatePush g a = some (g', es)) :
    g'.Owned := by
  cases (steps_of_step hstep).2 with
  | start => exact fun _ ↦ .inr ⟨rfl, by simp⟩
  | goOn hworker hrunning => exact fun _ ↦ .inr ⟨hrunning, by simp⟩
  | restart hjoining hworker =>
    exact fun h ↦ .inr ⟨rfl, ((hg h).resolve_left hworker).2⟩
  | stop hjoining => exact fun h ↦ .inl (by simpa using h)
  | join hjoining hworker => exact fun _ ↦ .inl rfl
  | destroy | pureVirtual => exact hg
  | finish hworker hrunning =>
    exact fun h ↦ absurd ((hg h).resolve_left (by simp [hworker])).1 (by simp [hrunning])
  | generate hworker | send hworker | sleep hworker =>
    exact fun h ↦ .inr ⟨((hg h).resolve_left (by simp [hworker])).1, by simp⟩

/-- The worker comes to `std::terminate` if the owner does nothing. -/
def Crashes (generatePush : ρ → σ → List Push × Push × σ) (random : ρ)
    (g : PushGenerator σ) : Prop :=
  ∃ n g' h, (system generatePush).run g (List.replicate n (.run random)) = some (g', h) ∧
    g'.terminated = true

theorem Crashes.of_step {random : ρ} (g' : PushGenerator σ) (es : List Event)
    (hstep : step generatePush g (.run random) = some (g', es))
    (h : Crashes generatePush random g') : Crashes generatePush random g := by
  obtain ⟨n, g'', fs, hrun, hterminated⟩ := h
  exact ⟨n + 1, g'', es ++ fs, System.run_cons_eq_some.mpr ⟨g', es, fs, hstep, hrun, rfl⟩,
    hterminated⟩

/-- The loop goes on to the call of `GeneratePush`, which is pure virtual. -/
theorem crashes_of_destroyed (generatePush : ρ → σ → List Push × Push × σ) (random : ρ)
    (hterminated : g.terminated = false) (hdestroyed : g.destroyed = true)
    (hrunning : g.running = true)
    (habsent : g.worker ≠ .absent) (hreturned : g.worker ≠ .returned) :
    Crashes generatePush random g := by
  have hgenerate : ∀ g : PushGenerator σ, g.terminated = false → g.destroyed = true →
      g.worker = .generate → Crashes generatePush random g := by
    intro g hterminated hdestroyed hworker
    refine Crashes.of_step { g with terminated := true } [] ?_ ⟨0, _, _, rfl, rfl⟩
    simp [PushGenerator.step, PushGenerator.run, hterminated, hworker, hdestroyed]
  have htest : ∀ g : PushGenerator σ, g.terminated = false → g.destroyed = true → g.running = true →
      g.worker = .test → Crashes generatePush random g := by
    intro g hterminated hdestroyed hrunning hworker
    refine Crashes.of_step { g with worker := .generate } [] ?_
      (hgenerate _ hterminated hdestroyed rfl)
    simp [PushGenerator.step, PushGenerator.run, hterminated, hworker, hrunning]
  have hsleep : ∀ g : PushGenerator σ, g.terminated = false → g.destroyed = true →
      g.running = true →
      g.worker = .sleep → Crashes generatePush random g := by
    intro g hterminated hdestroyed hrunning hworker
    refine Crashes.of_step { g with worker := .test } [.slept] ?_
      (htest _ hterminated hdestroyed hrunning rfl)
    simp [PushGenerator.step, PushGenerator.run, hterminated, hworker]
  cases hworker : g.worker with
  | absent => exact absurd hworker habsent
  | returned => exact absurd hworker hreturned
  | generate => exact hgenerate g hterminated hdestroyed hworker
  | test => exact htest g hterminated hdestroyed hrunning hworker
  | sleep => exact hsleep g hterminated hdestroyed hrunning hworker
  | send push =>
    refine Crashes.of_step { g with worker := .sleep } (sends [push]) ?_
      (hsleep _ hterminated hdestroyed hrunning rfl)
    simp [PushGenerator.step, PushGenerator.run, hterminated, hworker]

/-- A step that is not disciplined. -/
theorem crashes_of_breach {a : Action ρ} (random : ρ) (hg : g.Owned) (hbreach : ¬Disciplined g a)
    (hstep : step generatePush g a = some (g', es)) : Crashes generatePush random g' := by
  obtain ⟨hterminated, hsteps⟩ := steps_of_step hstep
  cases hsteps with
  | start hjoining hdestroyed hworker => exact absurd hworker hbreach
  | restart => exact ⟨0, _, _, rfl, rfl⟩
  | destroy hjoining =>
    obtain ⟨hrunning, hreturned⟩ := (hg hjoining).resolve_left hbreach
    exact crashes_of_destroyed generatePush random hterminated rfl hrunning hbreach hreturned
  | stop | join | goOn | finish | generate | pureVirtual | send | sleep =>
    exact absurd trivial hbreach

/-- **When the program is terminated.** If `worker_` has no thread whenever `Start` is called and
when the derived class is destroyed, `std::terminate` is not called. Otherwise the first call for
which this fails is one after which the worker comes to `std::terminate`, or has, if the owner does
nothing more. -/
theorem terminated_of_run (generatePush : ρ → σ → List Push × Push × σ) (members : σ) (random : ρ)
    (as : List (Action ρ)) (g : PushGenerator σ) (h : List Event)
    (hrun : (system generatePush).run (init members) as = some (g, h)) :
    ((system generatePush).Obeys Disciplined (init members) as → g.terminated = false) ∧
    (¬(system generatePush).Obeys Disciplined (init members) as →
      ∃ bs a g₁ h₁, bs ++ [a] <+: as ∧
        (system generatePush).Obeys Disciplined (init members) bs ∧
        ¬(system generatePush).Obeys Disciplined (init members) (bs ++ [a]) ∧
        (system generatePush).run (init members) (bs ++ [a]) = some (g₁, h₁) ∧
        Crashes generatePush random g₁) := by
  constructor
  · intro hobeys
    have hinit : Safe (init members) := ⟨rfl, fun h ↦ absurd h (by simp [init])⟩
    exact (System.run_induction (I := fun g _ ↦ Safe g) (h := [])
      (fun hI hC hstep ↦ hI.step hC hstep) hinit hobeys hrun).terminated
  · intro hnot
    obtain ⟨bs, a, cs, u, fs, rfl, hbs, hobeys, hbreach⟩ := System.exists_first_breach hrun hnot
    obtain ⟨u', fs', gs, hbs', hrest, -⟩ := System.run_append_eq_some.mp hrun
    obtain ⟨rfl, rfl⟩ : u = u' ∧ fs = fs' := by simpa [hbs] using hbs'
    obtain ⟨g₁, es, _, hstep, -⟩ := System.run_cons_eq_some.mp hrest
    have howned : u.Owned := System.run_invariant (I := fun g _ ↦ Owned g) (h := [])
      (fun hI hstep ↦ hI.step hstep) (fun _ ↦ .inl rfl) hbs
    refine ⟨bs, a, g₁, fs ++ es, ⟨cs, by simp⟩, hobeys, fun hall ↦ ?_, ?_,
      crashes_of_breach random howned hbreach hstep⟩
    · exact hbreach ((System.obeys_append.mp hall).2 (u, fs) hbs).1
    · exact System.run_append_eq_some.mpr ⟨u, fs, es, hbs, System.run_singleton hstep, rfl⟩

theorem terminated_of_run_destroyedRun :
    (∃ g h, (system userGeneratePush).run (init ()) (mainRun ⟨1, 2, 3, 4⟩) = some (g, h) ∧
      g.terminated = false) ∧
    ∃ bs a g₁ h₁, bs ++ [a] <+: destroyedRun ⟨1, 2, 3, 4⟩ ∧
      (system userGeneratePush).Obeys Disciplined (init ()) bs ∧
      ¬(system userGeneratePush).Obeys Disciplined (init ()) (bs ++ [a]) ∧
      (system userGeneratePush).run (init ()) (bs ++ [a]) = some (g₁, h₁) ∧
      Crashes userGeneratePush ⟨1, 2, 3, 4⟩ g₁ := by
  have hmain : (system userGeneratePush).run (init ()) (mainRun ⟨1, 2, 3, 4⟩) = some (_, _) := rfl
  have hdestroyed : (system userGeneratePush).run (init ()) (destroyedRun ⟨1, 2, 3, 4⟩)
      = some (_, _) := rfl
  exact ⟨⟨_, _, hmain,
    (terminated_of_run userGeneratePush () ⟨1, 2, 3, 4⟩ _ _ _ hmain).1 (by decide)⟩,
    (terminated_of_run userGeneratePush () ⟨1, 2, 3, 4⟩ _ _ _ hdestroyed).2 (by decide)⟩

/-! ## The generators of `main` -/

/-- What every call of `GeneratePush` keeps, for the members and the pushes so far. -/
theorem generated_induction {I : σ → List Push → Prop} {members : σ} (hinit : I members [])
    (hcall : ∀ random m ps own push m', generatePush random m = (own, push, m') → I m ps →
      I m' (ps ++ (own ++ [push]))) {as : List (Action ρ)} {h : List Event}
    (hrun : (system generatePush).run (init members) as = some (g, h)) :
    I g.members (generated h) := by
  refine System.run_invariant (I := fun g h ↦ I g.members (generated h)) (h := []) ?_ hinit hrun
  intro g h a g' es hI hstep
  cases (steps_of_step hstep).2 with
  | generate hworker hdestroyed hpush =>
    rename_i random own push m
    have hnew : generated (.generated own push :: sends own) = own ++ [push] := by
      change own ++ [push] ++ generated (sends own) = own ++ [push]
      rw [generated_sends, List.append_nil]
    rw [generated_append, hnew]
    exact hcall _ _ _ _ _ _ hpush hI
  | send =>
    rw [generated_append, generated_sends, List.append_nil]
    exact hI
  | start | restart | stop | join | destroy | goOn | finish | pureVirtual | sleep =>
    rw [generated_append]
    simpa [generated] using hI

/-- What is sent is the beginning of what is generated. -/
theorem sent_isPrefix {members : σ} {as : List (Action ρ)} {h : List Event}
    (hrun : (system generatePush).run (init members) as = some (g, h)) :
    sent h <+: (generated h).map BinaryPushSerializer.serialize :=
  ⟨_, (accounted_of_run hrun).sent_eq⟩

/-- The AUTH push is sent once, before all others, however often the generator is started. -/
theorem sent_of_admin {login password : Bytes} {as : List (Action Unit)} {g : PushGenerator Bool}
    {h : List Event}
    (hrun : (system (adminGeneratePush login password)).run (init false) as = some (g, h)) :
    ∃ n, sent h <+: authBytes login password :: List.replicate n adminBytes := by
  have hpushes : (g.members = false ∧ generated h = []) ∨
      g.members = true ∧ ∃ n,
        generated h = authPush login password :: List.replicate n createAdminPush := by
    refine generated_induction (I := fun authorized ps ↦ (authorized = false ∧ ps = []) ∨
      authorized = true ∧ ∃ n, ps = authPush login password :: List.replicate n createAdminPush)
      (.inl ⟨rfl, rfl⟩) ?_ hrun
    rintro _ authorized ps own push m' hpush (⟨rfl, rfl⟩ | ⟨rfl, n, rfl⟩)
    · obtain ⟨rfl, rfl, rfl⟩ : [authPush login password] = own ∧ createAdminPush = push ∧
        true = m' := by
        simpa [adminGeneratePush] using hpush
      exact .inr ⟨rfl, 1, rfl⟩
    · obtain ⟨rfl, rfl, rfl⟩ : [] = own ∧ createAdminPush = push ∧ true = m' := by
        simpa [adminGeneratePush] using hpush
      exact .inr ⟨rfl, n + 1, by rw [List.replicate_succ', List.cons_append, List.nil_append]⟩
  have hsent := sent_isPrefix hrun
  obtain ⟨-, hnone⟩ | ⟨-, n, hsome⟩ := hpushes
  · rw [hnone] at hsent
    exact ⟨0, hsent.trans (List.nil_prefix)⟩
  · rw [hsome, List.map_cons, List.map_replicate] at hsent
    exact ⟨n, hsent⟩

theorem length_text_createUserPush (r : Draws) : (createUserPush r).text.length < 2 ^ 32 := by
  have hshort : ∀ text ∈ texts, text.length < 2 ^ 32 := by decide
  have hlt : r.text % texts.length < texts.length := Nat.mod_lt _ (by decide)
  have htext : (createUserPush r).text = texts[r.text % texts.length] := by
    rw [createUserPush, randomText, List.getD_eq_getElem?_getD, List.getElem?_eq_getElem hlt]
    rfl
  rw [htext]
  exact hshort _ (List.getElem_mem hlt)

/-- What the generator of a user sends can be read, and is one of its pushes. -/
theorem sent_of_user {as : List (Action Draws)} {g : PushGenerator Unit} {h : List Event}
    (hrun : (system userGeneratePush).run (init ()) as = some (g, h)) :
    ∀ data ∈ sent h, ∃ r, BinaryPushSerializer.deserialize data = .ok (createUserPush r) := by
  have hpushes : ∀ push ∈ generated h, ∃ r, createUserPush r = push := by
    refine generated_induction (I := fun _ ps ↦ ∀ push ∈ ps, ∃ r, createUserPush r = push)
      (by simp) ?_ hrun
    rintro random _ ps own push _ hpush hps p hp
    obtain ⟨rfl, rfl⟩ : [] = own ∧ createUserPush random = push := by
      simpa [userGeneratePush] using hpush
    rcases List.mem_append.mp hp with hp | hp
    · exact hps p hp
    · exact ⟨random, (List.mem_singleton.mp hp).symm⟩
  intro data hdata
  obtain ⟨push, hpush, rfl⟩ := List.mem_map.mp ((sent_isPrefix hrun).subset hdata)
  obtain ⟨r, rfl⟩ := hpushes push hpush
  refine ⟨r, ?_⟩
  have hread := BinaryPushSerializer.deserialize_serialize_append (length_text_createUserPush r) []
  rwa [List.append_nil] at hread

end PushGenerator

end Generator

end PushService
