import Mathlib.Data.Finset.Insert
import Mathlib.Data.Finset.Erase
import PushService.System.Run

/-!
# Threads that share a monitor

Any number of threads run their programs over common data, a mutex and a condition variable. A
program is a table: it says of each place what the next instruction is, and a step of the system is
one instruction of one thread, so everything can happen between two instructions that the mutex does
not rule out.

## The condition variable

It is the set of threads that are asleep and have not been notified. Waiting releases the mutex and
joins the set in one step; `notify_one` removes one thread from it, whichever it likes, and does
nothing if there is none; a spurious wake-up removes a thread without any notification. A thread in
the set cannot move, and one that has left it continues by taking the mutex again.

## Three invariants

Each of them follows from conditions on single instructions.

* `Guarded`: a thread is in a critical section exactly if it owns the mutex.
* `Annotated`: what a place asserts about the data is true whenever a thread is there. Other threads
  can only interfere from outside the critical sections.
* `Attended`: if somebody is asleep although there is something to do, then somebody is about to
  notify.

The third one is where wake-ups are not lost (`owner_ne_none`): it needs that the condition is
tested in the critical section in which the thread falls asleep, and that whoever makes it true
notifies before leaving its own.
-/

namespace PushService

/-- A mutex and its condition variable. -/
structure Monitor (T : Type*) where
  owner : Option T
  /-- The threads that are asleep and have not been notified. -/
  sleeping : Finset T

namespace Monitor

variable {T σ ι ω : Type*}

/-- Nobody is there. -/
def idle : Monitor T := ⟨none, ∅⟩

/-- The next instruction of a thread, and the place where it is afterwards. -/
inductive Instr (σ ι ω π : Type*)
  /-- Take the mutex, once it is free. -/
  | lock (next : π)
  | unlock (next : π)
  /-- Release the mutex and fall asleep. -/
  | wait (next : π)
  | notifyOne (next : π)
  /-- Read or write the data; `ι` is what the environment decides. -/
  | access (f : ι → σ → Option (σ × π × List ω))

/-- The programs of the threads. -/
structure Program (T σ ι ω : Type*) where
  /-- The places in the program of a thread. -/
  Pc : T → Type
  code : ∀ t, Pc t → Instr σ ι ω (Pc t)

/-- The data, the monitor, and where each thread is. -/
structure Config (P : Program T σ ι ω) where
  data : σ
  monitor : Monitor T
  pc : ∀ t, P.Pc t

/-- What happens next. -/
inductive Move (T ι : Type*)
  /-- The thread performs an instruction other than `notify_one`. -/
  | step (t : T) (i : ι)
  /-- The thread calls `notify_one`, and `woken` wakes up. -/
  | notify (t : T) (woken : Option T)
  /-- The thread wakes up for no reason. -/
  | wakeUp (t : T)
  deriving DecidableEq, Repr

variable [DecidableEq T]

/-! ## The system -/

/-- `notify_one`: one of the sleeping threads, if there is any. -/
def notifyOne (m : Monitor T) : Option T → Option (Monitor T)
  | none => if m.sleeping = ∅ then some m else none
  | some t => if t ∈ m.sleeping then some ⟨m.owner, m.sleeping.erase t⟩ else none

variable {P : Program T σ ι ω}

/-- The thread has moved on, leaving this data and this monitor. -/
def Config.goto (c : Config P) (t : T) (next : P.Pc t) (s : σ) (m : Monitor T) : Config P :=
  ⟨s, m, Function.update c.pc t next⟩

@[simp] theorem Config.pc_goto_self (c : Config P) (t : T) (next : P.Pc t) (s : σ) (m : Monitor T) :
    (c.goto t next s m).pc t = next := Function.update_self ..

theorem Config.pc_goto_of_ne (c : Config P) {t u : T} (h : u ≠ t) (next : P.Pc t) (s : σ)
    (m : Monitor T) : (c.goto t next s m).pc u = c.pc u := Function.update_of_ne h ..

/-- One instruction. -/
def Config.step (c : Config P) (t : T) (i : ι) : Option (Config P × List ω) :=
  match P.code t (c.pc t) with
  | .lock next =>
    if c.monitor.owner = none then some (c.goto t next c.data ⟨some t, c.monitor.sleeping⟩, [])
    else none
  | .unlock next => some (c.goto t next c.data ⟨none, c.monitor.sleeping⟩, [])
  | .wait next => some (c.goto t next c.data ⟨none, insert t c.monitor.sleeping⟩, [])
  | .notifyOne _ => none
  | .access f => (f i c.data).map fun r ↦ (c.goto t r.2.1 r.1 c.monitor, r.2.2)

/-- One call of `notify_one`. -/
def Config.notify (c : Config P) (t : T) (woken : Option T) : Option (Config P) :=
  match P.code t (c.pc t) with
  | .notifyOne next => (c.monitor.notifyOne woken).map (c.goto t next c.data)
  | _ => none

variable (P) in
def system : System (Config P) (Move T ι) ω where
  step c
    | .step t i => if t ∈ c.monitor.sleeping then none else c.step t i
    | .notify t woken =>
      if t ∈ c.monitor.sleeping then none else (c.notify t woken).map fun c' ↦ (c', [])
    | .wakeUp t =>
      if t ∈ c.monitor.sleeping then
        some (⟨c.data, ⟨c.monitor.owner, c.monitor.sleeping.erase t⟩, c.pc⟩, [])
      else none

/-- What a step can do. -/
inductive Moves (c : Config P) : Config P → List ω → Prop
  | lock {t next} (hcode : P.code t (c.pc t) = .lock next) (hfree : c.monitor.owner = none) :
    Moves c (c.goto t next c.data ⟨some t, c.monitor.sleeping⟩) []
  | unlock {t next} (hcode : P.code t (c.pc t) = .unlock next) :
    Moves c (c.goto t next c.data ⟨none, c.monitor.sleeping⟩) []
  | wait {t next} (hcode : P.code t (c.pc t) = .wait next) :
    Moves c (c.goto t next c.data ⟨none, insert t c.monitor.sleeping⟩) []
  | notify {t next woken m} (hcode : P.code t (c.pc t) = .notifyOne next)
    (hnotify : c.monitor.notifyOne woken = some m) : Moves c (c.goto t next c.data m) []
  | access {t f i s next es} (hcode : P.code t (c.pc t) = .access f)
    (hf : f i c.data = some (s, next, es)) : Moves c (c.goto t next s c.monitor) es
  | wakeUp {t} (hasleep : t ∈ c.monitor.sleeping) :
    Moves c ⟨c.data, ⟨c.monitor.owner, c.monitor.sleeping.erase t⟩, c.pc⟩ []

theorem moves_of_step {c c' : Config P} {a : Move T ι} {es : List ω}
    (h : (system P).step c a = some (c', es)) : Moves c c' es := by
  cases a with
  | step t i =>
    simp only [system] at h
    split_ifs at h
    rw [Config.step] at h
    split at h
    · rename_i next hcode
      split_ifs at h with hfree
      obtain ⟨rfl, rfl⟩ := Prod.mk.inj (Option.some_inj.mp h)
      exact .lock hcode hfree
    · rename_i next hcode
      obtain ⟨rfl, rfl⟩ := Prod.mk.inj (Option.some_inj.mp h)
      exact .unlock hcode
    · rename_i next hcode
      obtain ⟨rfl, rfl⟩ := Prod.mk.inj (Option.some_inj.mp h)
      exact .wait hcode
    · exact absurd h (by simp)
    · rename_i f hcode
      obtain ⟨⟨s, next, es'⟩, hf, heq⟩ := Option.map_eq_some_iff.mp h
      obtain ⟨rfl, rfl⟩ := Prod.mk.inj heq
      exact .access hcode hf
  | notify t woken =>
    simp only [system] at h
    split_ifs at h
    obtain ⟨c₁, hc₁, heq⟩ := Option.map_eq_some_iff.mp h
    obtain ⟨rfl, rfl⟩ := Prod.mk.inj heq
    rw [Config.notify] at hc₁
    split at hc₁
    · rename_i next hcode
      obtain ⟨m, hnotify, rfl⟩ := Option.map_eq_some_iff.mp hc₁
      exact .notify hcode hnotify
    · exact absurd hc₁ (by simp)
  | wakeUp t =>
    simp only [system] at h
    split_ifs at h with hasleep
    obtain ⟨rfl, rfl⟩ := Prod.mk.inj (Option.some_inj.mp h)
    exact .wakeUp hasleep

/-- `notify_one` never touches the mutex. -/
theorem owner_notifyOne {m m' : Monitor T} {woken : Option T} (h : m.notifyOne woken = some m') :
    m'.owner = m.owner := by
  cases woken with
  | none =>
    rw [notifyOne] at h
    split_ifs at h
    rw [← Option.some_inj.mp h]
  | some t =>
    rw [notifyOne] at h
    split_ifs at h
    rw [← Option.some_inj.mp h]

/-- If at most one thread is asleep, `notify_one` wakes everybody. -/
theorem sleeping_notifyOne {m m' : Monitor T} {woken : Option T} {w : T}
    (h : m.notifyOne woken = some m') (hone : ∀ t ∈ m.sleeping, t = w) : m'.sleeping = ∅ := by
  cases woken with
  | none =>
    rw [notifyOne] at h
    split_ifs at h with hempty
    rw [← Option.some_inj.mp h, hempty]
  | some t =>
    rw [notifyOne] at h
    split_ifs at h with ht
    rw [← Option.some_inj.mp h]
    refine Finset.eq_empty_of_forall_notMem fun u hu ↦ ?_
    obtain ⟨hne, hu⟩ := Finset.mem_erase.mp hu
    exact hne ((hone u hu).trans (hone t ht).symm)

/-! ## Mutual exclusion -/

section Guarded

/-- The critical sections are what lies between `lock` and `unlock` or `wait`. -/
def Instr.Delimits {π : Type*} (critical : π → Prop) (p : π) : Instr σ ι ω π → Prop
  | .lock next => ¬critical p ∧ critical next
  | .unlock next | .wait next => critical p ∧ ¬critical next
  | .notifyOne next => critical next ↔ critical p
  | .access f => ∀ i s s' next es, f i s = some (s', next, es) → (critical next ↔ critical p)

variable (P) in
def Disciplined (critical : ∀ t, P.Pc t → Prop) : Prop :=
  ∀ t p, (P.code t p).Delimits (critical t) p

variable {critical : ∀ t, P.Pc t → Prop} {c c' : Config P} {es : List ω}

/-- A thread is in a critical section exactly if it owns the mutex. -/
def Guarded (critical : ∀ t, P.Pc t → Prop) (c : Config P) : Prop :=
  ∀ t, critical t (c.pc t) ↔ c.monitor.owner = some t

/-- The thread that moves decides for itself, the others stay where they are. -/
theorem Guarded.goto (hc : Guarded critical c) {t : T} {next : P.Pc t} {s : σ} {m : Monitor T}
    (hself : critical t next ↔ m.owner = some t)
    (hothers : ∀ u, u ≠ t → (c.monitor.owner = some u ↔ m.owner = some u)) :
    Guarded critical (c.goto t next s m) := by
  intro u
  rcases eq_or_ne u t with rfl | hne
  · rwa [Config.pc_goto_self]
  · rw [Config.pc_goto_of_ne c hne]
    exact (hc u).trans (hothers u hne)

theorem Guarded.step (hP : Disciplined P critical) (hc : Guarded critical c)
    (h : Moves c c' es) : Guarded critical c' := by
  have hdelimits : ∀ t, (P.code t (c.pc t)).Delimits (critical t) (c.pc t) := fun t ↦ hP t (c.pc t)
  cases h with
  | @lock t next hcode hfree =>
    obtain ⟨-, hinside⟩ := hcode ▸ hdelimits t
    refine hc.goto (iff_of_true hinside rfl) fun u hne ↦ ?_
    simp [hfree, hne.symm]
  | @unlock t next hcode =>
    obtain ⟨hinside, houtside⟩ := hcode ▸ hdelimits t
    refine hc.goto (iff_of_false houtside (by simp)) fun u hne ↦ ?_
    simp [(hc t).mp hinside, hne.symm]
  | @wait t next hcode =>
    obtain ⟨hinside, houtside⟩ := hcode ▸ hdelimits t
    refine hc.goto (iff_of_false houtside (by simp)) fun u hne ↦ ?_
    simp [(hc t).mp hinside, hne.symm]
  | @notify t next woken m hcode hnotify =>
    have hsame := hcode ▸ hdelimits t
    have howner := owner_notifyOne hnotify
    refine hc.goto (hsame.trans ?_) fun u _ ↦ by rw [howner]
    rw [howner]
    exact hc t
  | @access t f i s next es hcode hf =>
    have hsame := hcode ▸ hdelimits t
    exact hc.goto ((hsame _ _ _ _ _ hf).trans (hc t)) fun u _ ↦ Iff.rfl
  | wakeUp hasleep => exact hc

omit [DecidableEq T] in
/-- No two threads are in critical sections. -/
theorem Guarded.eq_of_critical (hc : Guarded critical c) {t u : T} (ht : critical t (c.pc t))
    (hu : critical u (c.pc u)) : t = u :=
  Option.some_inj.mp (((hc t).mp ht).symm.trans ((hc u).mp hu))

omit [DecidableEq T] in
theorem Guarded.owner_eq_none (hc : Guarded critical c) :
    c.monitor.owner = none ↔ ∀ t, ¬critical t (c.pc t) := by
  rw [Option.eq_none_iff_forall_ne_some]
  exact forall_congr' fun t ↦ not_congr (hc t).symm

end Guarded

/-! ## Assertions at places -/

section Annotated

/-- The instruction leads from the assertion at its place to the one at the next. -/
def Instr.Keeps {π : Type*} (A : π → σ → Prop) (p : π) : Instr σ ι ω π → Prop
  | .lock next | .unlock next | .wait next | .notifyOne next => ∀ s, A p s → A next s
  | .access f => ∀ i s s' next es, f i s = some (s', next, es) → A p s → A next s'

variable (P) in
/-- The assertions are kept by the threads that make them, and the other threads do not
interfere. -/
structure Outline (critical : ∀ t, P.Pc t → Prop) (A : ∀ t, P.Pc t → σ → Prop) : Prop where
  keeps : ∀ t p, (P.code t p).Keeps (A t) p
  /-- What another thread asserts meanwhile stays true, unless both are in critical sections. -/
  stable : ∀ {t u p q f i s s' next es}, t ≠ u → P.code t p = .access f →
    f i s = some (s', next, es) → A t p s → A u q s → ¬(critical t p ∧ critical u q) → A u q s'

variable {critical : ∀ t, P.Pc t → Prop} {A : ∀ t, P.Pc t → σ → Prop} {c c' : Config P}
  {es : List ω}

/-- Each thread's assertion is true. -/
def Annotated (A : ∀ t, P.Pc t → σ → Prop) (c : Config P) : Prop := ∀ t, A t (c.pc t) c.data

theorem Annotated.goto (hc : Annotated A c) {t : T} {next : P.Pc t} {m : Monitor T}
    (hnext : A t next c.data) : Annotated A (c.goto t next c.data m) := by
  intro u
  rcases eq_or_ne u t with rfl | hne
  · rwa [Config.pc_goto_self]
  · rw [Config.pc_goto_of_ne c hne]
    exact hc u

theorem Annotated.step (hP : Outline P critical A) (hguarded : Guarded critical c)
    (hc : Annotated A c) (h : Moves c c' es) : Annotated A c' := by
  have hkeeps : ∀ t, (P.code t (c.pc t)).Keeps (A t) (c.pc t) := fun t ↦ hP.keeps t (c.pc t)
  cases h with
  | @lock t next hcode hfree =>
    have hnext := hcode ▸ hkeeps t
    exact hc.goto (hnext _ (hc t))
  | @unlock t next hcode =>
    have hnext := hcode ▸ hkeeps t
    exact hc.goto (hnext _ (hc t))
  | @wait t next hcode =>
    have hnext := hcode ▸ hkeeps t
    exact hc.goto (hnext _ (hc t))
  | @notify t next woken m hcode hnotify =>
    have hnext := hcode ▸ hkeeps t
    exact hc.goto (hnext _ (hc t))
  | @access t f i s next es hcode hf =>
    have hnext := hcode ▸ hkeeps t
    intro u
    rcases eq_or_ne u t with rfl | hne
    · rw [Config.pc_goto_self]
      exact hnext _ _ _ _ _ hf (hc u)
    -- at most one of the two is in a critical section
    · rw [Config.pc_goto_of_ne c hne]
      refine hP.stable hne.symm hcode hf (hc t) (hc u) fun hboth ↦ hne ?_
      exact hguarded.eq_of_critical hboth.2 hboth.1
  | wakeUp hasleep => exact hc

end Annotated

/-! ## Wake-ups -/

section Attended

variable (P) in
/-- One thread waits for a condition, and the others tell it. -/
structure Notifies (critical : ∀ t, P.Pc t → Prop) (A : ∀ t, P.Pc t → σ → Prop) (waiter : T)
    (cond : σ → Prop) (notifying : ∀ t, P.Pc t → Prop) : Prop where
  waits : ∀ {t p next}, P.code t p = .wait next → t = waiter
  /-- It falls asleep where the condition is known to be false. -/
  tested : ∀ {t p next s}, P.code t p = .wait next → A t p s → ¬cond s
  /-- Whoever makes the condition true notifies next, -/
  announces : ∀ {t p f i s s' next es}, P.code t p = .access f → f i s = some (s', next, es) →
    ¬cond s → cond s' → notifying t next
  notifies : ∀ {t p}, notifying t p → ∃ next, P.code t p = .notifyOne next
  /-- and does so before leaving the critical section. -/
  inside : ∀ {t p}, notifying t p → critical t p

variable {critical : ∀ t, P.Pc t → Prop} {A : ∀ t, P.Pc t → σ → Prop} {waiter : T}
  {cond : σ → Prop} {notifying : ∀ t, P.Pc t → Prop} {c c' : Config P} {es : List ω}

/-- Nobody sleeps through the condition unless somebody is about to notify. -/
structure Attended (waiter : T) (cond : σ → Prop) (notifying : ∀ t, P.Pc t → Prop)
    (c : Config P) : Prop where
  only : ∀ t ∈ c.monitor.sleeping, t = waiter
  announced : waiter ∈ c.monitor.sleeping → cond c.data → ∃ t, notifying t (c.pc t)

/-- A thread that is about to notify still is after a different instruction of whichever thread. -/
theorem Notifies.exists_goto (hP : Notifies P critical A waiter cond notifying) {t : T}
    (hcode : ∀ next, P.code t (c.pc t) ≠ .notifyOne next) {next : P.Pc t} {s : σ} {m : Monitor T}
    (h : ∃ u, notifying u (c.pc u)) : ∃ u, notifying u ((c.goto t next s m).pc u) := by
  obtain ⟨u, hu⟩ := h
  -- from there the only way on is `notify_one`
  have hne : u ≠ t := by
    rintro rfl
    obtain ⟨next, hnotify⟩ := hP.notifies hu
    exact hcode next hnotify
  exact ⟨u, by rwa [Config.pc_goto_of_ne c hne]⟩

theorem Attended.step (hP : Notifies P critical A waiter cond notifying) (hA : Annotated A c)
    (hc : Attended waiter cond notifying c) (h : Moves c c' es) :
    Attended waiter cond notifying c' := by
  cases h with
  | lock hcode hfree =>
    exact ⟨hc.only, fun hw hcond ↦ hP.exists_goto (by simp [hcode]) (hc.announced hw hcond)⟩
  | unlock hcode =>
    exact ⟨hc.only, fun hw hcond ↦ hP.exists_goto (by simp [hcode]) (hc.announced hw hcond)⟩
  | @wait t next hcode =>
    refine ⟨fun u hu ↦ ?_, fun _ hcond ↦ absurd hcond (hP.tested hcode (hA t))⟩
    rcases Finset.mem_insert.mp hu with rfl | hu
    · exact hP.waits hcode
    · exact hc.only u hu
  | notify hcode hnotify =>
    -- the one that can be asleep has been woken
    have hempty := sleeping_notifyOne hnotify hc.only
    exact ⟨fun u hu ↦ absurd (hempty ▸ hu) (Finset.notMem_empty u),
      fun hw ↦ absurd (hempty ▸ hw) (Finset.notMem_empty waiter)⟩
  | @access t f i s next es hcode hf =>
    refine ⟨hc.only, fun hw hcond' ↦ ?_⟩
    by_cases hcond : cond c.data
    · exact hP.exists_goto (by simp [hcode]) (hc.announced hw hcond)
    · exact ⟨t, by simpa using hP.announces hcode hf hcond hcond'⟩
  | wakeUp hasleep =>
    exact ⟨fun u hu ↦ hc.only u (Finset.mem_of_mem_erase hu),
      fun hw ↦ hc.announced (Finset.mem_of_mem_erase hw)⟩

omit [DecidableEq T] in
/-- **No wake-up is lost.** If the waiting thread sleeps through the condition, a critical section
is in progress. -/
theorem Attended.owner_ne_none (hP : Notifies P critical A waiter cond notifying)
    (hguarded : Guarded critical c) (hc : Attended waiter cond notifying c)
    (hw : waiter ∈ c.monitor.sleeping) (hcond : cond c.data) : c.monitor.owner ≠ none := by
  obtain ⟨t, ht⟩ := hc.announced hw hcond
  exact fun hnone ↦ hguarded.owner_eq_none.mp hnone t (hP.inside ht)

end Attended

/-! ## Runs -/

section Runs

variable {critical : ∀ t, P.Pc t → Prop} {A : ∀ t, P.Pc t → σ → Prop} {waiter : T}
  {cond : σ → Prop} {notifying : ∀ t, P.Pc t → Prop}

/-- The three invariants. -/
structure Sound (critical : ∀ t, P.Pc t → Prop) (A : ∀ t, P.Pc t → σ → Prop) (waiter : T)
    (cond : σ → Prop) (notifying : ∀ t, P.Pc t → Prop) (c : Config P) : Prop where
  guarded : Guarded critical c
  annotated : Annotated A c
  attended : Attended waiter cond notifying c

theorem Sound.step (hdisciplined : Disciplined P critical) (houtline : Outline P critical A)
    (hnotifies : Notifies P critical A waiter cond notifying) {c c' : Config P} {es : List ω}
    (hc : Sound critical A waiter cond notifying c) (h : Moves c c' es) :
    Sound critical A waiter cond notifying c' where
  guarded := hc.guarded.step hdisciplined h
  annotated := hc.annotated.step houtline hc.guarded h
  attended := hc.attended.step hnotifies hc.annotated h

/-- Every run from a configuration in which nobody has begun is sound. -/
theorem sound_of_run (hdisciplined : Disciplined P critical) (houtline : Outline P critical A)
    (hnotifies : Notifies P critical A waiter cond notifying) {s : σ} {pc : ∀ t, P.Pc t}
    (hpc : ∀ t, ¬critical t (pc t)) (hA : ∀ t, A t (pc t) s) {as : List (Move T ι)} {c : Config P}
    {h : List ω} (hrun : (system P).run ⟨s, idle, pc⟩ as = some (c, h)) :
    Sound critical A waiter cond notifying c := by
  refine System.run_invariant (I := fun c _ ↦ Sound critical A waiter cond notifying c) (h := [])
    (fun hc hstep ↦ hc.step hdisciplined houtline hnotifies (moves_of_step hstep)) ?_ hrun
  refine ⟨fun t ↦ iff_of_false (hpc t) (by simp [idle]), hA, ?_, ?_⟩
  · exact fun t ht ↦ absurd ht (Finset.notMem_empty t)
  · exact fun hw ↦ absurd hw (Finset.notMem_empty waiter)

end Runs

end Monitor

end PushService
