import PushService.Dispatcher.Dispatcher

/-!
# Delivery of the accepted pushes

Each step of the dispatcher is a step of the abstract consumer or leaves it where it is
(`Simulates.step`), so the laws of `PeekConsumer` are laws of the dispatcher. What makes the
difference is whether a push of higher priority than the one being sent is accepted while the
processing thread is between `front` and `pop` (`Overtakes`): `pop` then removes that push instead
of the one that was sent.
-/

namespace PushService

namespace Dispatcher

/-! ## Each critical section, simulated -/

/-- The push this action posts. -/
def Action.posted : Action → Option PushPtr
  | .post push => push
  | _ => none

/-- The action puts a push in the queue while one of lower priority is being sent. -/
def Overtakes (d : Dispatcher) (a : Action) : Prop :=
  d.stopped = false ∧
    ∃ r ∈ d.worker.inFlight, ∃ p ∈ a.posted, r.priority < p.priority

instance : DecidableRel Overtakes := fun d a ↦
  inferInstanceAs (Decidable (d.stopped = false ∧
    ∃ r ∈ d.worker.inFlight, ∃ p ∈ a.posted, r.priority < p.priority))

variable {d : Dispatcher} {c : PeekConsumer PushPtr.priority}

theorem Simulates.notifyOne (hs : Simulates d c) : Simulates d.notifyOne c := by
  obtain ⟨queue, stopped, clients, worker, faulted⟩ := d
  cases worker with
  | waiting notified =>
    exact ⟨hs.1, hs.2, hs.3, hs.4, hs.5, hs.6, (fun _ _ h ↦ nomatch h), (fun h ↦ nomatch h)⟩
  | selecting => exact hs
  | sending p next => exact hs
  | finished => exact hs

theorem Simulates.stop (hs : Simulates d c) : Simulates d.stop c := by
  refine Simulates.notifyOne ⟨hs.1, hs.2, hs.3, hs.4, hs.5, hs.6, hs.7, fun h ↦ ?_⟩
  exact ⟨rfl, (hs.finished h).2⟩

/-- Accepting a push is pushing it. -/
theorem Simulates.enqueue (hs : Simulates d c) (hstopped : d.stopped = false) (p : PushPtr) :
    ∃ c', c.step (.push p) = some c' ∧ Simulates (d.enqueueOrNot p).1 c' ∧
      (d.enqueueOrNot p).2 = [.accepted p] := by
  have hp : p.priority < d.pushQueue.priorityQueues.length := by
    rw [hs.count]
    exact p.push.priority.toNat_lt
  obtain ⟨q, hq, hrefines, hlength⟩ := hs.refines.push hp
  have hpush : c.step (.push p) = some _ := rfl
  refine ⟨_, hpush, ?_⟩
  rw [enqueueOrNot, if_neg (by simp [hstopped]), hq]
  refine ⟨Simulates.notifyOne ⟨hs.1, hrefines, hlength.trans hs.count, hs.held_eq,
    hs.heldBelowFront.step hpush, hs.received, hs.next_le, fun h ↦ ?_⟩, rfl⟩
  exact absurd (hs.finished h).1 (by simp [hstopped])

/-- Selecting a push is looking at the front; on an empty queue the thread finishes, which
`GetPushFromQueue` only lets happen after `Stop`. -/
theorem Simulates.takeFront (hs : Simulates d c) (hidle : d.worker.inFlight = none)
    (hserved : ∀ j, d.worker.receivedBy c.served j = c.served)
    (hempty : d.pushQueue.empty = true → d.stopped = true) :
    ∃ c', (c' = c ∨ c.step .peek = some c') ∧ Simulates d.takeFront.1 c' ∧
      accepted d.takeFront.2 = [] := by
  have hreceived : ∀ (j : ℕ) (client : Client), d.clients[j]? = some client →
      client.receivedPushes = c.served :=
    fun j client hj ↦ (hs.received j client hj).trans (hserved j)
  have hheld : c.held = none := hs.held_eq.trans hidle
  rw [Dispatcher.takeFront]
  cases hfront : c.queue.front with
  | none =>
    have hemp := hs.refines.empty_iff.mpr hfront
    rw [if_pos (by simp [hemp, hempty hemp])]
    exact ⟨c, .inl rfl, ⟨hs.1, hs.2, hs.3, hheld, hs.5, hreceived, by simp,
      fun _ ↦ ⟨hempty hemp, hfront⟩⟩, rfl⟩
  | some p =>
    have hemp : d.pushQueue.empty = false := by
      rw [Bool.eq_false_iff, ne_eq, hs.refines.empty_iff, hfront]
      simp
    have hpeek : c.step .peek = some ⟨c.queue, some p, c.served, c.accepted⟩ := by
      simp only [PeekConsumer.step, hheld, hfront]
    rw [if_neg (by simp [hemp]), hs.refines.front_eq, hfront]
    refine ⟨_, .inr hpeek, ⟨hs.1, hs.2, hs.3, rfl, hs.heldBelowFront.step hpeek, ?_, ?_, ?_⟩, rfl⟩
    · intro j client hj
      simpa [Worker.receivedBy] using hreceived j client hj
    · intro q next h
      obtain ⟨-, rfl⟩ : p = q ∧ 0 = next := by simpa using h
      exact Nat.zero_le _
    · exact fun h ↦ absurd h (by simp)

theorem Simulates.wait (hs : Simulates d c) (hidle : d.worker.inFlight = none)
    (hserved : ∀ j, d.worker.receivedBy c.served j = c.served) :
    Simulates { d with worker := .waiting false } c :=
  ⟨hs.1, hs.2, hs.3, hs.held_eq.trans hidle, hs.5,
    fun j client hj ↦ (hs.received j client hj).trans (hserved j), by simp, by simp⟩

/-- Serving one more client leaves the queue alone; after the last client the front is popped. -/
theorem Simulates.sendOrPop (hs : Simulates d c) {p : PushPtr} {next : ℕ}
    (hworker : d.worker = .sending p next) :
    ∃ c', (c' = c ∨ c.step .pop = some c') ∧ Simulates (d.sendOrPop p next).1 c' ∧
      accepted (d.sendOrPop p next).2 = [] := by
  have hheld : c.held = some p := by rw [hs.held_eq, hworker, Worker.inFlight]
  have hreceived : ∀ j client, d.clients[j]? = some client →
      client.receivedPushes = if j < next then c.served ++ [p] else c.served := by
    intro j client hj
    rw [hs.received j client hj, hworker, Worker.receivedBy]
  rw [Dispatcher.sendOrPop]
  cases hnext : d.clients[next]? with
  | some client =>
    refine ⟨c, .inl rfl, ⟨hs.1, hs.2, hs.3, hheld, hs.5, ?_, ?_, by simp⟩, rfl⟩
    · intro j client' hj
      rw [List.getElem?_set] at hj
      simp only [Worker.receivedBy]
      by_cases hjn : next = j
      · subst hjn
        have hlt : next < d.clients.length := (List.getElem?_eq_some_iff.mp hnext).1
        rw [if_pos rfl, if_pos hlt, Option.some_inj] at hj
        subst hj
        rw [if_pos (Nat.lt_succ_self next), Client.sendPush, hreceived next client hnext,
          if_neg (Nat.lt_irrefl next)]
      · rw [if_neg hjn] at hj
        rw [hreceived j client' hj]
        exact if_congr (by omega) rfl rfl
    · intro q k h
      obtain ⟨rfl, rfl⟩ : p = q ∧ next + 1 = k := by simpa using h
      simpa using Nat.succ_le_of_lt (List.getElem?_eq_some_iff.mp hnext).1
  | none =>
    obtain ⟨x, hx, -⟩ := hs.heldBelowFront p hheld
    obtain ⟨q, hq, hrefines, hlength⟩ := hs.refines.pop hx
    have hpop : c.step .pop = some ⟨c.queue.pop, none, c.served ++ [p], c.accepted⟩ := by
      simp only [PeekConsumer.step, hheld]
    rw [hq]
    refine ⟨_, .inr hpop, ⟨hs.1, hrefines, hlength.trans hs.count, rfl,
      hs.heldBelowFront.step hpop, ?_, by simp, by simp⟩, rfl⟩
    intro j client hj
    have hlt : j < next :=
      (List.getElem?_eq_some_iff.mp hj).1.trans_le (List.getElem?_eq_none_iff.mp hnext)
    rw [hreceived j client hj, if_pos hlt]
    rfl

/-! ## Steps -/

/-- What a step of the dispatcher is for the abstract consumer: nothing, or a step of its own,
which overtakes exactly if the dispatcher's does. -/
def Follows (d : Dispatcher) (a : Action) (c c' : PeekConsumer PushPtr.priority) : Prop :=
  (c' = c ∧ ¬d.Overtakes a) ∨ ∃ b, c.step b = some c' ∧ (c.Overtakes b ↔ d.Overtakes a)

theorem not_overtakes_of_posted {a : Action} (h : a.posted = none) : ¬d.Overtakes a := by
  rintro ⟨-, r, -, p, hp, -⟩
  rw [h] at hp
  exact absurd hp (by simp)

theorem Simulates.follows_push (hs : Simulates d c) (hstopped : d.stopped = false)
    {c' : PeekConsumer PushPtr.priority} {p : PushPtr} (h : c.step (.push p) = some c') :
    Follows d (.post (some p)) c c' := by
  refine .inr ⟨.push p, h, ?_⟩
  simp [PeekConsumer.Overtakes, Overtakes, hs.held_eq, hstopped, Action.posted]

/-- The consumer's own steps accept nothing and overtake nothing. -/
theorem follows_work {c' : PeekConsumer PushPtr.priority} {b : PeekConsumer.Act PushPtr}
    (hb : ∀ p, b ≠ .push p) (h : c' = c ∨ c.step b = some c') :
    Follows d .work c c' ∧ c'.accepted = c.accepted := by
  have hwork : ¬d.Overtakes .work := not_overtakes_of_posted rfl
  rcases h with rfl | h
  · exact ⟨.inl ⟨rfl, hwork⟩, rfl⟩
  · refine ⟨.inr ⟨b, h, iff_of_false ?_ hwork⟩, ?_⟩
    · rintro ⟨r, p, -, hp, -⟩
      exact hb p hp
    · rcases PeekConsumer.step_cases h with ⟨p, rfl, -⟩ | ⟨x, -, -, -, rfl⟩ | ⟨p, -, -, rfl⟩
      · exact absurd rfl (hb p)
      · rfl
      · rfl

theorem Simulates.process (hs : Simulates d c) {r : Dispatcher × List Event}
    (h : d.process = some r) :
    ∃ c', Follows d .work c c' ∧ Simulates r.1 c' ∧ c'.accepted = c.accepted ∧
      accepted r.2 = [] := by
  have hpeek : ∀ p : PushPtr, PeekConsumer.Act.peek ≠ .push p := by simp
  have hpop : ∀ p : PushPtr, PeekConsumer.Act.pop ≠ .push p := by simp
  have hidle : c = c ∨ c.step .peek = some c := .inl rfl
  cases hworker : d.worker with
  | selecting =>
    have hnone : d.worker.inFlight = none := by simp [hworker, Worker.inFlight]
    have hserved : ∀ j, d.worker.receivedBy c.served j = c.served := by
      simp [hworker, Worker.receivedBy]
    obtain rfl : d.getPushFromQueue = r := by simpa [Dispatcher.process, hworker] using h
    rw [getPushFromQueue]
    split_ifs with hwait
    · obtain ⟨hfollows, hacc⟩ := follows_work hpeek hidle
      exact ⟨c, hfollows, hs.wait hnone hserved, hacc, rfl⟩
    · obtain ⟨c', hc', hs', hevents⟩ := hs.takeFront hnone hserved (by simpa using hwait)
      obtain ⟨hfollows, hacc⟩ := follows_work hpeek hc'
      exact ⟨c', hfollows, hs', hacc, hevents⟩
  | waiting notified =>
    have hnone : d.worker.inFlight = none := by simp [hworker, Worker.inFlight]
    have hserved : ∀ j, d.worker.receivedBy c.served j = c.served := by
      simp [hworker, Worker.receivedBy]
    obtain rfl : d.wakeUp = r := by simpa [Dispatcher.process, hworker] using h
    rw [wakeUp]
    split_ifs with hwake
    · have hempty : d.pushQueue.empty = true → d.stopped = true := by
        intro hemp
        simpa [hemp] using hwake
      obtain ⟨c', hc', hs', hevents⟩ := hs.takeFront hnone hserved hempty
      obtain ⟨hfollows, hacc⟩ := follows_work hpeek hc'
      exact ⟨c', hfollows, hs', hacc, hevents⟩
    · obtain ⟨hfollows, hacc⟩ := follows_work hpeek hidle
      exact ⟨c, hfollows, hs.wait hnone hserved, hacc, rfl⟩
  | sending p next =>
    obtain rfl : d.sendOrPop p next = r := by simpa [Dispatcher.process, hworker] using h
    obtain ⟨c', hc', hs', hevents⟩ := hs.sendOrPop hworker
    obtain ⟨hfollows, hacc⟩ := follows_work hpop hc'
    exact ⟨c', hfollows, hs', hacc, hevents⟩
  | finished => exact absurd h (by simp [Dispatcher.process, hworker])

theorem step_eq_some {a : Action} {r : Dispatcher × List Event} (h : system.step d a = some r) :
    (∃ push, a = .post push ∧ r = d.post push) ∨ (a = .stop ∧ r = (d.stop, [])) ∨
      (a = .work ∧ d.process = some r) := by
  simp only [system] at h
  split_ifs at h
  cases a with
  | post push => exact .inl ⟨push, rfl, (Option.some_inj.mp h).symm⟩
  | stop => exact .inr (.inl ⟨rfl, (Option.some_inj.mp h).symm⟩)
  | work => exact .inr (.inr ⟨rfl, h⟩)

/-- What a step can do. -/
inductive Steps (d : Dispatcher) : Action → Dispatcher → List Event → Prop
  | null : Steps d (.post none) d []
  | refuse {p} (hstopped : d.stopped = true) : Steps d (.post (some p)) d []
  | accept {p q} (hstopped : d.stopped = false)
    (hpush : d.pushQueue.push PushPtr.priority p = some q) :
    Steps d (.post (some p)) { d with pushQueue := q }.notifyOne [.accepted p]
  | stop : Steps d .stop d.stop []
  | wait (hstopped : d.stopped = false) : Steps d .work { d with worker := .waiting false } []
  | finish (hstopped : d.stopped = true) :
    Steps d .work { d with worker := .finished } [.finished]
  | select {p} (hfront : d.pushQueue.front = some p) :
    Steps d .work { d with worker := .sending p 0 } [.selected p]
  | send {p next client} (hclient : d.clients[next]? = some client) :
    Steps d .work { d with
      clients := d.clients.set next (client.sendPush p), worker := .sending p (next + 1) }
      [.sent next p]
  | pop {q} (hpop : d.pushQueue.pop = some q) :
    Steps d .work { d with pushQueue := q, worker := .selecting } [.popped]
  | fault {a} : Steps d a { d with faulted := true } []

theorem steps_takeFront (d : Dispatcher) : Steps d .work d.takeFront.1 d.takeFront.2 := by
  rw [Dispatcher.takeFront]
  split_ifs with hfin
  · exact .finish (by simpa using (Bool.and_eq_true_iff.mp hfin).1)
  · cases hfront : d.pushQueue.front with
    | none => exact .fault
    | some p => exact .select hfront

theorem steps_of_step {a : Action} {d' : Dispatcher} {es : List Event}
    (h : system.step d a = some (d', es)) : Steps d a d' es := by
  rcases step_eq_some h with ⟨push, rfl, hr⟩ | ⟨rfl, hr⟩ | ⟨rfl, hprocess⟩
  · obtain ⟨rfl, rfl⟩ := Prod.ext_iff.mp hr
    cases push with
    | none => exact .null
    | some p =>
      rw [post, enqueueOrNot]
      split_ifs with hstopped
      · exact .refuse hstopped
      · cases hpush : d.pushQueue.push PushPtr.priority p with
        | none => exact .fault
        | some q => exact .accept (by simpa using hstopped) hpush
  · obtain ⟨rfl, rfl⟩ := Prod.ext_iff.mp hr
    exact .stop
  · cases hworker : d.worker with
    | selecting =>
      rw [Dispatcher.process, hworker] at hprocess
      obtain ⟨rfl, rfl⟩ := Prod.ext_iff.mp (Option.some_inj.mp hprocess)
      rw [getPushFromQueue]
      split_ifs with hwait
      · exact .wait (by simpa using (Bool.and_eq_true_iff.mp hwait).2)
      · exact steps_takeFront d
    | waiting notified =>
      rw [Dispatcher.process, hworker] at hprocess
      obtain ⟨rfl, rfl⟩ := Prod.ext_iff.mp (Option.some_inj.mp hprocess)
      rw [wakeUp]
      split_ifs with hwake
      · exact steps_takeFront d
      · have hidle : d.stopped = false ∧ d.pushQueue.empty = true := by simpa using hwake
        exact .wait hidle.1
    | sending p next =>
      rw [Dispatcher.process, hworker] at hprocess
      obtain ⟨rfl, rfl⟩ := Prod.ext_iff.mp (Option.some_inj.mp hprocess)
      rw [Dispatcher.sendOrPop]
      cases hclient : d.clients[next]? with
      | some client => exact .send hclient
      | none =>
        cases hpop : d.pushQueue.pop with
        | none => exact .fault
        | some q => exact .pop hpop
    | finished => exact absurd hprocess (by simp [Dispatcher.process, hworker])

/-- **The dispatcher refines the consumer that looks first and removes later.** -/
theorem Simulates.step (hs : Simulates d c) {a : Action} {r : Dispatcher × List Event}
    (h : system.step d a = some r) :
    ∃ c', Follows d a c c' ∧ Simulates r.1 c' ∧ c'.accepted = c.accepted ++ accepted r.2 := by
  rcases step_eq_some h with ⟨push, rfl, rfl⟩ | ⟨rfl, rfl⟩ | ⟨rfl, hprocess⟩
  · cases push with
    | none => exact ⟨c, .inl ⟨rfl, not_overtakes_of_posted rfl⟩, hs, (List.append_nil _).symm⟩
    | some p =>
      rw [post]
      cases hstopped : d.stopped with
      | true =>
        rw [enqueueOrNot, if_pos hstopped]
        refine ⟨c, .inl ⟨rfl, fun hover ↦ ?_⟩, hs, (List.append_nil _).symm⟩
        exact absurd hover.1 (by simp [hstopped])
      | false =>
        obtain ⟨c', hc', hs', hevents⟩ := hs.enqueue hstopped p
        refine ⟨c', hs.follows_push hstopped hc', hs', ?_⟩
        rw [hevents, ← Option.some_inj.mp hc']
        rfl
  · exact ⟨c, .inl ⟨rfl, not_overtakes_of_posted rfl⟩, hs.stop, (List.append_nil _).symm⟩
  · obtain ⟨c', hfollows, hs', hacc, hevents⟩ := hs.process hprocess
    exact ⟨c', hfollows, hs', by rw [hacc, hevents, List.append_nil]⟩

@[simp] theorem clients_notifyOne (d : Dispatcher) : d.notifyOne.clients = d.clients := by
  cases d with
  | mk queue stopped clients worker faulted => cases worker <;> rfl

/-- No step changes who the clients are. -/
theorem ids_of_step {a : Action} {r : Dispatcher × List Event} (h : system.step d a = some r) :
    r.1.clients.map Client.id = d.clients.map Client.id := by
  obtain ⟨d', es⟩ := r
  cases steps_of_step h with
  | accept hstopped hpush => rw [clients_notifyOne]
  | stop => rw [stop, clients_notifyOne]
  | @send p next client hclient =>
    obtain ⟨hlt, rfl⟩ := List.getElem?_eq_some_iff.mp hclient
    have hlt' : next < (d.clients.map Client.id).length := by simpa using hlt
    have hid : (d.clients[next].sendPush p).id = (d.clients.map Client.id)[next] :=
      (List.getElem_map Client.id).symm
    rw [List.map_set, hid, List.set_getElem_self]
  | _ => rfl

/-! ## Runs -/

/-- The consumer that the dispatcher has been following has accepted what the history says. -/
def Tracks (d : Dispatcher) (h : List Event) (c : PeekConsumer PushPtr.priority) : Prop :=
  Simulates d c ∧ c.accepted = accepted h

theorem tracks_start (clients : List ℕ) : Tracks (start clients) [] .init :=
  ⟨simulates_start clients, rfl⟩

theorem Tracks.step {h : List Event} (hc : Tracks d h c) {a : Action} {d' : Dispatcher}
    {es : List Event} (hstep : system.step d a = some (d', es)) :
    ∃ c', Follows d a c c' ∧ Tracks d' (h ++ es) c' := by
  obtain ⟨c', hfollows, hs', hacc⟩ := hc.1.step hstep
  exact ⟨c', hfollows, hs', by rw [hacc, hc.2, accepted_append]⟩

/-- The clients at the end of a run are those the dispatcher was constructed with. -/
theorem ids_of_run {clients : List ℕ} {as : List Action} {h : List Event}
    (hrun : system.run (start clients) as = some (d, h)) : d.clients.map Client.id = clients := by
  refine System.run_invariant (I := fun d _ ↦ d.clients.map Client.id = clients) (h := [])
    (fun hids hstep ↦ (ids_of_step hstep).trans hids) ?_ hrun
  rw [start, List.map_map]
  exact List.map_id clients

/-- As long as nothing overtakes, the consumer serves exactly what it accepts. -/
theorem exact_of_obeys {clients : List ℕ} {as : List Action} {h : List Event}
    (hrun : system.run (start clients) as = some (d, h))
    (hobeys : system.Obeys (fun d a ↦ ¬d.Overtakes a) (start clients) as) :
    ∃ c, Tracks d h c ∧ c.Exact := by
  refine System.run_induction (I := fun d h ↦ ∃ c, Tracks d h c ∧ c.Exact) (h := []) ?_
    ⟨_, tracks_start clients, PeekConsumer.exact_init⟩ hobeys hrun
  rintro d h a d' es ⟨c, hc, hexact⟩ hno hstep
  obtain ⟨c', hfollows, hc'⟩ := hc.step hstep
  rcases hfollows with ⟨rfl, -⟩ | ⟨b, hb, hover⟩
  · exact ⟨c', hc', hexact⟩
  · exact ⟨c', hc', hexact.step (fun h ↦ hno (hover.mp h)) hb⟩

/-- After a first overtaking the consumer stays in debt. -/
theorem owes_of_not_obeys {clients : List ℕ} {as : List Action} {h : List Event}
    (hrun : system.run (start clients) as = some (d, h))
    (hnot : ¬system.Obeys (fun d a ↦ ¬d.Overtakes a) (start clients) as) :
    ∃ c, Tracks d h c ∧ c.Owes 1 := by
  obtain ⟨as, a, bs, d₁, h₁, rfl, hrun₁, hobeys, hbreach⟩ := System.exists_first_breach hrun hnot
  obtain ⟨d₁', h₁', h₂, hrun₁', hrun₂, rfl⟩ := System.run_append_eq_some.mp hrun
  obtain ⟨rfl, rfl⟩ : d₁ = d₁' ∧ h₁ = h₁' := by simpa [hrun₁] using hrun₁'
  obtain ⟨d₂, es, fs, hstep, hrest, rfl⟩ := System.run_cons_eq_some.mp hrun₂
  -- everything is exact up to the first overtaking, which leaves a debt
  obtain ⟨c₁, hc₁, hexact⟩ := exact_of_obeys hrun₁ hobeys
  obtain ⟨c₂, hfollows, hc₂⟩ := hc₁.step hstep
  have howes : c₂.Owes 1 := by
    rcases hfollows with ⟨-, hno⟩ | ⟨b, hb, hover⟩
    · exact absurd hno hbreach
    · exact hexact.owes_of_overtakes (hover.mpr (not_not.mp hbreach)) hb
  rw [← List.append_assoc]
  refine System.run_invariant (I := fun d h ↦ ∃ c, Tracks d h c ∧ c.Owes 1) ?_
    ⟨c₂, hc₂, howes⟩ hrest
  rintro d h a d' es ⟨c, hc, howes⟩ hstep
  obtain ⟨c', hfollows, hc'⟩ := hc.step hstep
  rcases hfollows with ⟨rfl, -⟩ | ⟨b, hb, -⟩
  · exact ⟨c', hc', howes⟩
  · exact ⟨c', hc', howes.step hc.1.heldBelowFront hb⟩

/-- A finished dispatcher has nothing in flight and nothing queued, and every client has received
what was served. -/
theorem Simulates.of_finished (hs : Simulates d c) (hfin : d.worker = .finished) :
    c.held = none ∧ c.queue.elems = [] ∧
      ∀ client ∈ d.clients, client.receivedPushes = c.served := by
  refine ⟨?_, StableQueue.front_eq_none.mp (hs.finished hfin).2, fun client hmem ↦ ?_⟩
  · simp [hs.held_eq, hfin, Worker.inFlight]
  · obtain ⟨j, hj⟩ := List.mem_iff_getElem?.mp hmem
    simp [hs.received j client hj, hfin, Worker.receivedBy]

/-! ## Exactly-once delivery -/

/-- Every client has received every accepted push exactly once. -/
def DeliveredExactlyOnce (d : Dispatcher) (h : List Event) : Prop :=
  ∀ client ∈ d.clients, client.receivedPushes.Perm (accepted h)

instance (d : Dispatcher) (h : List Event) : Decidable (d.DeliveredExactlyOnce h) :=
  inferInstanceAs (Decidable (∀ client ∈ d.clients, client.receivedPushes.Perm (accepted h)))

/-- **Exactly-once delivery, and what breaks it.** When `Process` has returned, every client has
received every accepted push exactly once if and only if there are no clients or no push was
accepted while one of lower priority was being sent. -/
theorem deliveredExactlyOnce_iff (clients : List ℕ) (as : List Action) (d : Dispatcher)
    (h : List Event) (hrun : system.run (start clients) as = some (d, h))
    (hfin : d.worker = .finished) :
    d.DeliveredExactlyOnce h ↔
      clients = [] ∨ system.Obeys (fun d a ↦ ¬d.Overtakes a) (start clients) as := by
  constructor
  · intro hexactly
    by_contra hno
    obtain ⟨hne, hnot⟩ := not_or.mp hno
    obtain ⟨c, ⟨hs, hacc⟩, howes⟩ := owes_of_not_obeys hrun hnot
    obtain ⟨hheld, -, hreceived⟩ := hs.of_finished hfin
    have hids := ids_of_run hrun
    obtain ⟨client, hmem⟩ : ∃ client, client ∈ d.clients := by
      refine List.exists_mem_of_ne_nil d.clients fun hnil ↦ hne ?_
      rw [← hids, hnil, List.map_nil]
    apply howes.not_perm hheld
    rw [hacc, ← hreceived client hmem]
    exact hexactly client hmem
  · rintro (rfl | hobeys) client hmem
    · have hnil : d.clients = [] := List.map_eq_nil_iff.mp (ids_of_run hrun)
      exact absurd hmem (by simp [hnil])
    · obtain ⟨c, ⟨hs, hacc⟩, hexact⟩ := exact_of_obeys hrun hobeys
      obtain ⟨-, helems, hreceived⟩ := hs.of_finished hfin
      have hperm := hexact.perm
      rw [helems, List.append_nil, hacc] at hperm
      rw [hreceived client hmem]
      exact hperm.symm

/-! ### Two runs -/

def normalPush : PushPtr := ⟨0, ⟨.notification, .normal, [], []⟩⟩

def highPush : PushPtr := ⟨1, ⟨.warning, .high, [], []⟩⟩

/-- Both pushes are accepted before either is selected. -/
def queuedRun : List Action :=
  [.post (some normalPush), .post (some highPush), .stop, .work, .work, .work, .work, .work, .work,
    .work]

/-- The high push is accepted while the normal one is being sent. -/
def overtakingRun : List Action :=
  [.post (some normalPush), .work, .post (some highPush), .work, .work, .stop, .work, .work, .work,
    .work]

theorem deliveredExactlyOnce_queuedRun :
    ∃ d h, system.run (start [7]) queuedRun = some (d, h) ∧ d.DeliveredExactlyOnce h :=
  ⟨_, _, rfl, (deliveredExactlyOnce_iff [7] queuedRun _ _ rfl rfl).mpr (.inr (by decide))⟩

/-- In `overtakingRun` the high push is removed unsent and the normal one is sent twice. -/
theorem not_deliveredExactlyOnce :
    ¬∀ (clients : List ℕ) (as : List Action) (d : Dispatcher) (h : List Event),
      system.run (start clients) as = some (d, h) → d.worker = .finished →
        d.DeliveredExactlyOnce h := fun hall ↦
  absurd (hall [7] overtakingRun _ _ rfl rfl) (by decide)

end Dispatcher

end PushService
