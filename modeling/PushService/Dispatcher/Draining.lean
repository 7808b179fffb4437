import PushService.Dispatcher.Delivery

/-!
# What happens after `Stop`

Once `stopped_` is set nothing is accepted any more, and the processing thread never waits again: it
serves what is queued, round by round, and returns. A round is one selection, one `SendPush` for
every client and one `pop`; `workLeft` counts the steps to the end. What is popped need not be what
was sent, but each round pops one push and sends one.
-/

namespace PushService

namespace Dispatcher

variable {d d' : Dispatcher} {c : PeekConsumer PushPtr.priority}

/-- The steps of the processing thread for one push. -/
def roundLength (d : Dispatcher) : ℕ := d.clients.length + 2

/-- The steps that the processing thread has left, if nothing is accepted any more. -/
def workLeft (d : Dispatcher) : ℕ :=
  match d.worker with
  | .selecting | .waiting _ => d.pushQueue.contents.length * d.roundLength + 1
  | .sending _ next => d.pushQueue.contents.length * d.roundLength - next
  | .finished => 0

/-- The dispatcher has been stopped, and the processing thread is not asleep. -/
structure Draining (d : Dispatcher) : Prop where
  stopped : d.stopped = true
  awake : d.worker ≠ .waiting false
  simulates : ∃ c, Simulates d c

/-! ## One step -/

/-- What one step of the processing thread does to a dispatcher that is draining. -/
structure Drains (d : Dispatcher) (r : Dispatcher × List Event) : Prop where
  stopped : r.1.stopped = d.stopped
  awake : r.1.worker ≠ .waiting false
  workLeft : r.1.workLeft + 1 = d.workLeft
  popped : r.2.count .popped + r.1.pushQueue.contents.length = d.pushQueue.contents.length

/-- Taking the next push, or finding that there is none. -/
theorem Simulates.drains_takeFront (hs : Simulates d c) (hstopped : d.stopped = true)
    (hleft : d.workLeft = d.pushQueue.contents.length * d.roundLength + 1) :
    Drains d d.takeFront := by
  rw [Dispatcher.takeFront, hstopped, Bool.true_and]
  by_cases hempty : d.pushQueue.empty = true
  · rw [if_pos hempty]
    have hcontents : d.pushQueue.contents.length = 0 := by
      rw [hs.refines.empty_iff_contents.mp hempty, List.length_nil]
    rw [hcontents, Nat.zero_mul] at hleft
    exact ⟨hstopped.symm, by simp, hleft.symm, Nat.zero_add _⟩
  · rw [if_neg hempty]
    have hfront : d.pushQueue.front ≠ none := by
      rwa [hs.refines.front_eq, ne_eq, ← hs.refines.empty_iff]
    obtain ⟨p, hp⟩ := Option.ne_none_iff_exists'.mp hfront
    rw [hp]
    exact ⟨hstopped.symm, by simp, hleft.symm, Nat.zero_add _⟩

/-- Serving one more client, or removing the front. -/
theorem Simulates.drains_sendOrPop (hs : Simulates d c) {p : PushPtr} {next : ℕ}
    (hworker : d.worker = .sending p next) : Drains d (d.sendOrPop p next) := by
  have hheld : c.held = some p := by rw [hs.held_eq, hworker, Worker.inFlight]
  -- `x` need not be `p`, but one push is removed for the one that was sent
  obtain ⟨x, hx, -⟩ := hs.heldBelowFront p hheld
  have hle := hs.next_le p next hworker
  have hcontents : d.pushQueue.contents.length = c.queue.pop.elems.length + 1 := by
    rw [hs.refines.contents_eq, StableQueue.elems_eq_cons hx, List.length_cons]
  have hround : d.pushQueue.contents.length * d.roundLength
      = c.queue.pop.elems.length * d.roundLength + (d.clients.length + 2) := by
    rw [hcontents, Nat.succ_mul]
    rfl
  have hleft : d.workLeft = d.pushQueue.contents.length * d.roundLength - next := by
    rw [workLeft, hworker]
  rw [Dispatcher.sendOrPop]
  cases hnext : d.clients[next]? with
  | some client =>
    have hlt : next < d.clients.length := (List.getElem?_eq_some_iff.mp hnext).1
    refine ⟨rfl, by simp, ?_, Nat.zero_add _⟩
    have hmore : d.pushQueue.contents.length * d.roundLength - (next + 1) + 1
        = d.pushQueue.contents.length * d.roundLength - next := by
      rw [hround]
      omega
    rw [hleft, ← hmore]
    simp only [workLeft, roundLength, List.length_set]
  | none =>
    have hlast : d.clients.length ≤ next := List.getElem?_eq_none_iff.mp hnext
    obtain ⟨q, hq, hrefines, -⟩ := hs.refines.pop hx
    rw [hq]
    refine ⟨rfl, by simp, ?_, ?_⟩
    · rw [hleft, hround]
      simp only [workLeft, roundLength, hrefines.contents_eq]
      omega
    · rw [hcontents, hrefines.contents_eq]
      exact Nat.add_comm ..

/-- A dispatcher that is draining can always go on, until `Process` returns. -/
theorem Draining.process (hd : d.Draining) (hworker : d.worker ≠ .finished) :
    ∃ r, d.process = some r ∧ Drains d r := by
  obtain ⟨c, hs⟩ := hd.simulates
  cases hw : d.worker with
  | selecting =>
    have hleft : d.workLeft = d.pushQueue.contents.length * d.roundLength + 1 := by
      rw [workLeft, hw]
    refine ⟨d.takeFront, ?_, hs.drains_takeFront hd.stopped hleft⟩
    rw [Dispatcher.process, hw]
    dsimp only
    rw [getPushFromQueue, if_neg (by simp [hd.stopped])]
  | waiting notified =>
    have hleft : d.workLeft = d.pushQueue.contents.length * d.roundLength + 1 := by
      rw [workLeft, hw]
    refine ⟨d.takeFront, ?_, hs.drains_takeFront hd.stopped hleft⟩
    rw [Dispatcher.process, hw]
    dsimp only
    rw [wakeUp, if_pos (by simp [hd.stopped])]
  | sending p next =>
    refine ⟨d.sendOrPop p next, ?_, hs.drains_sendOrPop hw⟩
    rw [Dispatcher.process, hw]
  | finished => exact absurd hw hworker

/-- After `Stop` a `Post` changes nothing. -/
theorem post_of_stopped (h : d.stopped = true) (push : Option PushPtr) : d.post push = (d, []) := by
  cases push with
  | none => rfl
  | some p => rw [post, enqueueOrNot, if_pos h]

/-- And neither does another `Stop`. -/
theorem Draining.stop (hd : d.Draining) : d.stop = d := by
  obtain ⟨queue, stopped, clients, worker, faulted⟩ := d
  obtain rfl : stopped = true := hd.stopped
  cases worker with
  | waiting notified =>
    cases notified with
    | true => rfl
    | false => exact absurd rfl hd.awake
  | _ => rfl

theorem Draining.step (hd : d.Draining) {a : Action} {es : List Event}
    (hstep : system.step d a = some (d', es)) :
    d'.Draining ∧ d'.workLeft + [a].count .work = d.workLeft ∧
      es.count .popped + d'.pushQueue.contents.length = d.pushQueue.contents.length := by
  obtain ⟨c, hs⟩ := hd.simulates
  obtain ⟨c', -, hs', -⟩ := hs.step hstep
  rcases step_eq_some hstep with ⟨push, rfl, hr⟩ | ⟨rfl, hr⟩ | ⟨rfl, hprocess⟩
  · rw [post_of_stopped hd.stopped] at hr
    obtain ⟨rfl, rfl⟩ := Prod.mk.inj hr
    exact ⟨hd, rfl, Nat.zero_add _⟩
  · rw [hd.stop] at hr
    obtain ⟨rfl, rfl⟩ := Prod.mk.inj hr
    exact ⟨hd, rfl, Nat.zero_add _⟩
  · have hworker : d.worker ≠ .finished := by
      intro hfin
      rw [Dispatcher.process, hfin] at hprocess
      exact absurd hprocess (by simp)
    obtain ⟨r, hr, hdrains⟩ := hd.process hworker
    obtain rfl := Option.some_inj.mp (hr.symm.trans hprocess)
    exact ⟨⟨hdrains.stopped.trans hd.stopped, hdrains.awake, c', hs'⟩, hdrains.workLeft,
      hdrains.popped⟩

/-! ## Whole runs -/

/-- Along a run every step of the processing thread is one of those that were left, and every `pop`
removes one push. -/
theorem Draining.run (hd : d.Draining) {bs : List Action} {h : List Event}
    (hrun : system.run d bs = some (d', h)) :
    d'.Draining ∧ d'.workLeft + bs.count .work = d.workLeft ∧
      h.count .popped + d'.pushQueue.contents.length = d.pushQueue.contents.length := by
  induction bs generalizing d h with
  | nil =>
    obtain ⟨rfl, rfl⟩ : d = d' ∧ [] = h := by simpa using hrun
    exact ⟨hd, rfl, Nat.zero_add _⟩
  | cons a bs ih =>
    obtain ⟨d₁, es, fs, hstep, hrest, rfl⟩ := System.run_cons_eq_some.mp hrun
    obtain ⟨hd₁, hwork, hpopped⟩ := hd.step hstep
    obtain ⟨hd', hwork', hpopped'⟩ := ih hd₁ hrest
    refine ⟨hd', ?_, ?_⟩
    · rw [← List.singleton_append, List.count_append]
      omega
    · rw [List.count_append]
      omega

@[simp] theorem stopped_notifyOne (d : Dispatcher) : d.notifyOne.stopped = d.stopped := by
  cases d with
  | mk queue stopped clients worker faulted => cases worker <;> rfl

/-- The thread does not sleep through a `Stop`. -/
def Heeds (d : Dispatcher) : Prop := d.stopped = true → d.worker ≠ .waiting false

theorem heeds_notifyOne (d : Dispatcher) : d.notifyOne.Heeds := by
  obtain ⟨queue, stopped, clients, worker, faulted⟩ := d
  cases worker <;> simp [Heeds, notifyOne]

theorem Heeds.step (h : d.Heeds) {a : Action} {es : List Event}
    (hstep : system.step d a = some (d', es)) : d'.Heeds := by
  cases steps_of_step hstep with
  | null | refuse hstopped | fault => exact h
  | accept hstopped hpush => exact heeds_notifyOne _
  | stop => exact heeds_notifyOne _
  | wait hstopped => exact fun hset ↦ absurd hset (by simp [hstopped])
  | finish hstopped | select hfront | send hclient | pop hpop => exact fun _ ↦ by simp

/-! ## From the start -/

/-- Two pushes, and a `Stop` while the first is being sent. -/
def stoppedRun : List Action :=
  [.post (some normalPush), .work, .post (some highPush), .stop]

end Dispatcher

end PushService
