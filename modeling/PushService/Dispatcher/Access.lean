import PushService.Dispatcher.WakeUps

/-!
# The accesses to the queue

`front` and `pop` dereference `current_deq_` and take the first element of the deque that it names.
They do not ask whether there is one: that is known from a test in another critical section. In
`GetPushFromQueue` the test has just been made. In `Process` it lies before `Send`, and what has not
changed since then is that the queue is not empty, since other threads only push.

The indices into `priority_queues_` are listed beside the operations that use them: what `pop` does
depends on no other deque (`pop_congr`), and changes none (`getElem?_of_pop`). None of the indices
is ever as large as `priority_count_`.
-/

namespace PushService

namespace PushQueue

variable {P : Type*} {priority : P → ℕ}

/-- `current_deq_` has a value, and the deque that it names has a first element. -/
def TopNonempty (q : PushQueue P) : Prop :=
  ∃ c x xs, q.currentDeq = some c ∧ q.priorityQueues[c]? = some (x :: xs)

/-! ## The indices -/

/-- The indices that the loop of `UpdateCurrentDeq` uses. -/
def findBelowIndices (queues : List (List P)) : ℕ → List ℕ
  | 0 => []
  | i + 1 =>
    match queues[i]? with
    | some (_ :: _) => [i]
    | _ => i :: findBelowIndices queues i

def updateCurrentDeqIndices (q : PushQueue P) : List ℕ :=
  match q.currentDeq with
  | none => []
  | some c =>
    match q.priorityQueues[c]? with
    | some (_ :: _) => [c]
    | _ => c :: findBelowIndices q.priorityQueues c

def popIndices (q : PushQueue P) : List ℕ :=
  match q.currentDeq with
  | none => []
  | some c =>
    match q.priorityQueues[c]? with
    | some (_ :: deq) => c :: updateCurrentDeqIndices ⟨q.priorityQueues.set c deq, some c⟩
    | _ => [c]

def frontIndices (q : PushQueue P) : List ℕ := q.currentDeq.toList

/-! ## What is listed is what is used

An operation sees nothing of the deques but those that are listed for it, and changes no others. -/

/-- The two have the same deques at the indices. -/
def AgreeAt (indices : List ℕ) (queues queues' : List (List P)) : Prop :=
  ∀ j ∈ indices, queues'[j]? = queues[j]?

variable {queues queues' : List (List P)} {currentDeq : Option ℕ}

theorem AgreeAt.head {j : ℕ} {indices : List ℕ} (h : AgreeAt (j :: indices) queues queues') :
    queues'[j]? = queues[j]? :=
  h j List.mem_cons_self

theorem AgreeAt.tail {j : ℕ} {indices : List ℕ} (h : AgreeAt (j :: indices) queues queues') :
    AgreeAt indices queues queues' :=
  fun k hk ↦ h k (List.mem_cons_of_mem j hk)

/-- Where the two agree they still do when one deque of both is replaced. -/
theorem AgreeAt.set {c : ℕ} {indices : List ℕ} (h : AgreeAt (c :: indices) queues queues')
    (deq : List P) : AgreeAt (c :: indices) (queues.set c deq) (queues'.set c deq) := by
  intro j hj
  by_cases hcj : c = j
  · subst hcj
    rw [List.getElem?_set_self', List.getElem?_set_self', h.head]
  · rw [List.getElem?_set_ne hcj, List.getElem?_set_ne hcj, h j hj]

theorem front_congr (h : AgreeAt (frontIndices ⟨queues, currentDeq⟩) queues queues') :
    front ⟨queues', currentDeq⟩ = front ⟨queues, currentDeq⟩ := by
  cases currentDeq with
  | none => rfl
  | some c =>
    have hc : queues'[c]? = queues[c]? := h.head
    simp only [front, hc]

theorem findBelow_congr {i : ℕ} (h : AgreeAt (findBelowIndices queues i) queues queues') :
    findBelow queues' i = findBelow queues i := by
  induction i with
  | zero => rfl
  | succ i ih =>
    rw [findBelowIndices] at h
    rw [findBelow, findBelow]
    cases hi : queues[i]? with
    | none =>
      rw [hi] at h
      rw [h.head, hi]
      exact ih h.tail
    | some deq =>
      rw [hi] at h
      cases deq with
      | nil =>
        rw [h.head, hi]
        exact ih h.tail
      | cons x xs => rw [h.head, hi]

theorem updateCurrentDeq_congr
    (h : AgreeAt (updateCurrentDeqIndices ⟨queues, currentDeq⟩) queues queues') :
    updateCurrentDeq ⟨queues', currentDeq⟩
      = ⟨queues', (updateCurrentDeq ⟨queues, currentDeq⟩).currentDeq⟩ := by
  cases currentDeq with
  | none => rfl
  | some c =>
    simp only [updateCurrentDeqIndices] at h
    simp only [updateCurrentDeq]
    cases hc : queues[c]? with
    | none =>
      rw [hc] at h
      rw [h.head, hc, findBelow_congr h.tail]
    | some deq =>
      rw [hc] at h
      cases deq with
      | nil => rw [h.head, hc, findBelow_congr h.tail]
      | cons x xs => rw [h.head, hc]

@[simp] theorem priorityQueues_updateCurrentDeq (q : PushQueue P) :
    q.updateCurrentDeq.priorityQueues = q.priorityQueues := by
  rw [updateCurrentDeq]
  split
  · rfl
  · split <;> rfl

/-- `pop` on two queues that agree at its indices. -/
theorem pop_congr (h : AgreeAt (popIndices ⟨queues, currentDeq⟩) queues queues') :
    (pop ⟨queues', currentDeq⟩).map PushQueue.currentDeq
        = (pop ⟨queues, currentDeq⟩).map PushQueue.currentDeq ∧
      ∀ r ∈ pop ⟨queues, currentDeq⟩, ∀ r' ∈ pop ⟨queues', currentDeq⟩,
        AgreeAt (popIndices ⟨queues, currentDeq⟩) r.priorityQueues r'.priorityQueues := by
  cases currentDeq with
  | none => exact ⟨rfl, by simp [pop]⟩
  | some c =>
    simp only [popIndices] at h ⊢
    simp only [pop]
    cases hc : queues[c]? with
    | none =>
      rw [hc] at h
      rw [h.head, hc]
      exact ⟨rfl, by simp⟩
    | some deq =>
      rw [hc] at h
      cases deq with
      | nil =>
        rw [h.head, hc]
        exact ⟨rfl, by simp⟩
      | cons x xs =>
        have hset := h.set xs
        rw [h.head, hc]
        refine ⟨?_, ?_⟩
        · simp [updateCurrentDeq_congr hset.tail]
        · simpa using hset

/-- `pop` changes no deque that is not listed. -/
theorem getElem?_of_pop {q r : PushQueue P} (h : q.pop = some r) {j : ℕ} (hj : j ∉ q.popIndices) :
    r.priorityQueues[j]? = q.priorityQueues[j]? := by
  obtain ⟨queues, _ | c⟩ := q
  · exact absurd h (by simp [pop])
  · simp only [pop, popIndices] at h hj
    cases hc : queues[c]? with
    | none =>
      rw [hc] at h
      exact absurd h (by simp)
    | some deq =>
      rw [hc] at h hj
      cases deq with
      | nil => exact absurd h (by simp)
      | cons x xs =>
        obtain rfl := Option.some_inj.mp h
        rw [priorityQueues_updateCurrentDeq,
          List.getElem?_set_ne (Ne.symm (List.ne_of_not_mem_cons hj))]

/-! ## How large they are -/

/-- The loop only goes down. -/
theorem lt_of_mem_findBelowIndices {queues : List (List P)} {i j : ℕ}
    (h : j ∈ findBelowIndices queues i) : j < i := by
  induction i with
  | zero => exact absurd h List.not_mem_nil
  | succ i ih =>
    rw [findBelowIndices] at h
    split at h
    · rw [List.mem_singleton.mp h]
      exact Nat.lt_succ_self i
    · rcases List.mem_cons.mp h with rfl | h
      · exact Nat.lt_succ_self j
      · exact Nat.lt_succ_of_lt (ih h)

theorem le_of_mem_updateCurrentDeqIndices {queues : List (List P)} {c j : ℕ}
    (h : j ∈ updateCurrentDeqIndices ⟨queues, some c⟩) : j ≤ c := by
  rw [updateCurrentDeqIndices] at h
  dsimp only at h
  split at h
  · rw [List.mem_singleton.mp h]
  · rcases List.mem_cons.mp h with rfl | h
    · exact Nat.le_refl j
    · exact (lt_of_mem_findBelowIndices h).le

/-- `pop` uses the index of the current deque and others below it. -/
theorem exists_le_of_mem_popIndices {q : PushQueue P} {j : ℕ} (h : j ∈ q.popIndices) :
    ∃ c, q.currentDeq = some c ∧ j ≤ c := by
  rw [popIndices] at h
  split at h
  · exact absurd h List.not_mem_nil
  · rename_i c hc
    refine ⟨c, hc, ?_⟩
    split at h
    · rcases List.mem_cons.mp h with rfl | h
      · exact Nat.le_refl j
      · exact le_of_mem_updateCurrentDeqIndices h
    · rw [List.mem_singleton.mp h]

theorem TopNonempty.lt_length {q : PushQueue P} (h : q.TopNonempty) {c : ℕ}
    (hc : q.currentDeq = some c) : c < q.priorityQueues.length := by
  obtain ⟨d, x, xs, hd, hget⟩ := h
  obtain rfl := Option.some_inj.mp (hd.symm.trans hc)
  exact (List.getElem?_eq_some_iff.mp hget).1

theorem Refines.topNonempty {q : PushQueue P} {s : StableQueue priority} (h : q.Refines s) {x : P}
    (hx : s.front = some x) : q.TopNonempty := by
  obtain ⟨lo, xs, hi, rfl, -, -⟩ := h.split_of_front hx
  exact ⟨lo.length, x, xs, rfl, by simp⟩

theorem Refines.topNonempty_of_empty {q : PushQueue P} {s : StableQueue priority} (h : q.Refines s)
    (hempty : q.empty = false) : q.TopNonempty := by
  cases hx : s.front with
  | none => exact absurd (h.empty_iff.mpr hx) (by simp [hempty])
  | some x => exact h.topNonempty hx

end PushQueue

namespace Dispatcher

namespace Threads

open Monitor

/-! ## What an instruction does to the queue -/

/-- The processing thread is about to evaluate `front()` or `pop()`. -/
def Processing.Removes : Processing → Prop
  | .taking | .popping _ => True
  | _ => False

/-- The indices into `priority_queues_` that the next instruction uses. -/
def Processing.indices : Processing → Shared → List ℕ
  | .taking, s => s.pushQueue.frontIndices
  | .popping _, s => s.pushQueue.popIndices
  | _, _ => []

def Caller.indices : Caller → List ℕ
  | .pushing p => [p.priority]
  | _ => []

def indices : ∀ t, program.Pc t → Shared → List ℕ
  | .processing => Processing.indices
  | .caller _ => fun p _ ↦ Caller.indices p

/-- What the test before `Send` has found is still true. -/
theorem Coarse.topNonempty {c : Config program} {d : Dispatcher} (h : Coarse c d)
    (hremoves : Processing.Removes (c.pc .processing)) : c.data.pushQueue.TopNonempty := by
  obtain ⟨hsound, ⟨q, hq⟩, w, rfl, hw⟩ := h
  have hrefines : c.data.pushQueue.Refines q.queue := hq.refines
  have hasserts := hsound.annotated .processing
  cases hpc : c.pc .processing with
  | taking =>
    rw [hpc] at hasserts
    exact hrefines.topNonempty_of_empty hasserts
  | popping p =>
    rw [hpc] at hw
    obtain ⟨next, rfl, -⟩ := hw
    -- the push that was sent is held until something is popped
    obtain ⟨x, hx, -⟩ := hq.heldBelowFront p hq.held_eq
    exact hrefines.topNonempty hx
  | _ =>
    rw [hpc] at hremoves
    exact hremoves.elim

theorem Coarse.lt_of_mem_indices {c : Config program} {d : Dispatcher} (h : Coarse c d) {t : Thread}
    {i : ℕ} (hi : i ∈ indices t (c.pc t) c.data) : i < priorityCount := by
  have hcount : c.data.pushQueue.priorityQueues.length = priorityCount := by
    obtain ⟨-, ⟨q, hq⟩, w, rfl, -⟩ := h
    exact hq.count
  cases t with
  | caller n =>
    cases hpc : c.pc (.caller n) with
    | pushing p =>
      rw [hpc] at hi
      rw [List.mem_singleton.mp hi]
      exact p.push.priority.toNat_lt
    | _ =>
      rw [hpc] at hi
      exact absurd hi List.not_mem_nil
  | processing =>
    have htop := h.topNonempty
    cases hpc : c.pc .processing with
    | taking =>
      rw [hpc] at hi htop
      rw [← hcount]
      exact (htop trivial).lt_length (Option.mem_toList.mp hi)
    | popping p =>
      rw [hpc] at hi htop
      obtain ⟨j, hj, hle⟩ := PushQueue.exists_le_of_mem_popIndices hi
      rw [← hcount]
      exact hle.trans_lt ((htop trivial).lt_length hj)
    | _ =>
      rw [hpc] at hi
      exact absurd hi List.not_mem_nil

/-- **The queue is never accessed where there is nothing.** In every state that an interleaving
reaches, `front()` and `pop()` are only about to be evaluated where there is a first element, every
index that is about to be used is in range, and nothing undefined has happened. -/
theorem queue_access_safe (clients : List ℕ) (as : List (Move Thread Call)) (c : Config program)
    (h : List Event) (hrun : (Monitor.system program).run (start clients) as = some (c, h)) :
    (Processing.Removes (c.pc .processing) → c.data.pushQueue.TopNonempty) ∧
      (∀ t, ∀ i ∈ indices t (c.pc t) c.data, i < priorityCount) ∧ c.data.faulted = false := by
  obtain ⟨bs, d, -, hcoarse⟩ := exists_run_of_threads hrun
  refine ⟨hcoarse.topNonempty, fun t i hi ↦ hcoarse.lt_of_mem_indices hi, ?_⟩
  obtain ⟨-, ⟨q, hq⟩, w, rfl, -⟩ := hcoarse
  exact hq.not_faulted

/-- A null push and a push are posted; then the processing thread takes the push and sends it, and
`Stop` is called before it pops. -/
def poppingRun : List (Move Thread Call) :=
  [.step (.caller 0) (.post none), .step (.caller 0) (.post (some normalPush)),
    (Thread.caller 0).go, (Thread.caller 0).go, (Thread.caller 0).go, .notify (.caller 0) none,
    (Thread.caller 0).go, Thread.processing.go, Thread.processing.go, Thread.processing.go,
    Thread.processing.go, Thread.processing.go, Thread.processing.go, Thread.processing.go,
    .step (.caller 1) .stop, (Thread.caller 1).go, (Thread.caller 1).go, .notify (.caller 1) none,
    (Thread.caller 1).go, Thread.processing.go]

theorem queue_access_safe_poppingRun : ∃ c h,
    (Monitor.system program).run (start [7]) poppingRun = some (c, h) ∧
      c.data.stopped = true ∧ c.data.pushQueue.TopNonempty := by
  have hrun : (Monitor.system program).run (start [7]) poppingRun = some (_, _) := rfl
  exact ⟨_, _, hrun, rfl, (queue_access_safe [7] poppingRun _ _ hrun).1 trivial⟩

end Threads

end Dispatcher

end PushService
