import PushService.Dispatcher.PushQueue
import PushService.Queue.WaitingList

/-!
# `PushQueue` as a stable priority queue

The container is compared with a waiting list, to which nothing is known but the order of arrival. A
sequence of pushes and pops is legal if the waiting list can go through it: a push has a priority
below the number of deques, and a pop finds something waiting. The container goes through every
legal sequence, pops the same elements, and stands for the same list in the end (`Represents`).

Between the two is the abstract queue: the container refines it, and it is the waiting list, stably
sorted.
-/

namespace PushService

namespace PushQueue

variable {P : Type*} (priority : P → ℕ)

/-- The container. What is popped is emitted; where the C++ code is undefined there is no step. -/
def system : System (PushQueue P) (QueueOp P) P where
  step
    | q, .push p => (q.push priority p).map fun q' ↦ (q', [])
    | q, .pop =>
      match q.front, q.pop with
      | some x, some q' => some (q', [x])
      | _, _ => none

/-- The container stands for the elements of `l`, which are listed in the order in which they were
pushed. -/
structure Represents (q : PushQueue P) (l : List P) : Prop where
  currentDeq_eq_none : q.currentDeq = none ↔ ∀ d ∈ q.priorityQueues, d = []
  currentDeq_eq_some : ∀ c, q.currentDeq = some c ↔ IsTop q.priorityQueues c
  /-- A deque holds the elements of its priority, in the order in which they were pushed. -/
  deque_eq : ∀ i d, q.priorityQueues[i]? = some d → d = l.filter fun p ↦ priority p = i
  empty_iff : q.empty = true ↔ l = []
  /-- The front is the first of the elements of the highest priority. -/
  front_eq_some : ∀ x, q.front = some x ↔ ∃ rest, WaitingList.IsNext priority l x rest
  /-- A pop removes this element from the head of its deque, and nothing else from any. -/
  pop_eq_some : ∀ x rest, WaitingList.IsNext priority l x rest →
    ∃ deq q', q.priorityQueues[priority x]? = some (x :: deq) ∧ q.pop = some q' ∧
      q'.priorityQueues = q.priorityQueues.set (priority x) deq
  isStableSort : WaitingList.IsStableSort priority l q.contents

variable {priority}

/-! ## The deques -/

theorem IsTop.unique {queues : List (List P)} {c c' : ℕ} (h : IsTop queues c)
    (h' : IsTop queues c') : c = c' := by
  obtain ⟨⟨x, xs, hget⟩, habove⟩ := h
  obtain ⟨⟨x', xs', hget'⟩, habove'⟩ := h'
  rcases lt_trichotomy c c' with hlt | heq | hlt
  · exact absurd (habove c' hlt _ hget') (List.cons_ne_nil _ _)
  · exact heq
  · exact absurd (habove' c hlt _ hget) (List.cons_ne_nil _ _)

theorem WellFormed.currentDeq_eq_some {q : PushQueue P} (hq : q.WellFormed priority) (c : ℕ) :
    q.currentDeq = some c ↔ IsTop q.priorityQueues c := by
  refine ⟨hq.isTop c, fun h ↦ ?_⟩
  cases hc : q.currentDeq with
  | none =>
    obtain ⟨⟨x, xs, hget⟩, -⟩ := h
    exact absurd (hq.none_iff hc _ (List.mem_of_getElem? hget)) (List.cons_ne_nil _ _)
  | some c' => rw [(hq.isTop c' hc).unique h]

theorem WellFormed.currentDeq_eq_none {q : PushQueue P} (hq : q.WellFormed priority) :
    q.currentDeq = none ↔ ∀ d ∈ q.priorityQueues, d = [] := by
  refine ⟨hq.none_iff, fun h ↦ ?_⟩
  cases hc : q.currentDeq with
  | none => rfl
  | some c =>
    obtain ⟨⟨x, xs, hget⟩, -⟩ := hq.isTop c hc
    exact absurd (h _ (List.mem_of_getElem? hget)) (List.cons_ne_nil _ _)

/-- A deque is what the container holds of its priority. -/
theorem WellFormed.deque_eq {q : PushQueue P} (hq : q.WellFormed priority) {i : ℕ} {d : List P}
    (hd : q.priorityQueues[i]? = some d) : d = q.contents.filter fun p ↦ priority p = i := by
  obtain ⟨lo, hi, hsplit, rfl⟩ := PushQueue.exists_split hd
  have hhi : hi.reverse.flatten.filter (fun p ↦ priority p = lo.length) = [] :=
    List.filter_eq_nil_iff.mpr fun p hp ↦ by simpa using (hq.priority_hi hsplit hp).ne'
  have hlo : lo.reverse.flatten.filter (fun p ↦ priority p = lo.length) = [] :=
    List.filter_eq_nil_iff.mpr fun p hp ↦ by simpa using (hq.priority_lo hsplit hp).ne
  have hself : d.filter (fun p ↦ priority p = lo.length) = d :=
    List.filter_eq_self.mpr fun p hp ↦ by simpa using hq.priority_at hsplit hp
  have hcontents : q.contents = hi.reverse.flatten ++ d ++ lo.reverse.flatten := by
    rw [← contents_split (c := q.currentDeq), ← hsplit]
  rw [hcontents, List.filter_append, List.filter_append, hhi, hlo, hself, List.nil_append,
    List.append_nil]

/-! ## What a pop removes -/

@[simp] theorem updateCurrentDeq_priorityQueues (q : PushQueue P) :
    q.updateCurrentDeq.priorityQueues = q.priorityQueues := by
  rw [updateCurrentDeq]
  split
  · rfl
  · split <;> rfl

/-- A pop removes the front from the head of the current deque. -/
theorem exists_of_pop_eq_some {q q' : PushQueue P} (h : q.pop = some q') :
    ∃ c x deq, q.priorityQueues[c]? = some (x :: deq) ∧ q.front = some x ∧
      q'.priorityQueues = q.priorityQueues.set c deq := by
  rw [PushQueue.pop] at h
  split at h
  · exact absurd h (by simp)
  · rename_i c hc
    split at h
    · rename_i x deq hget
      refine ⟨c, x, deq, hget, ?_, ?_⟩
      · rw [PushQueue.front, hc]
        simp only [hget, List.head?_cons]
      · rw [← Option.some_inj.mp h, updateCurrentDeq_priorityQueues]
    · exact absurd h (by simp)

/-! ## The simulation -/

variable (priority) in
/-- The container refines an abstract queue, which is the waiting list, sorted. -/
def Sorts (n : ℕ) (l : List P) (q : PushQueue P) : Prop :=
  q.priorityQueues.length = n ∧
    ∃ s : StableQueue priority, q.Refines s ∧ WaitingList.IsStableSort priority l s.elems

variable {n : ℕ} {l l' : List P} {q : PushQueue P}

theorem sorts_ofCount (n : ℕ) : Sorts priority n [] (ofCount n) :=
  ⟨List.length_replicate, StableQueue.nil, refines_ofCount n, WaitingList.isStableSort_nil⟩

theorem Sorts.push (h : Sorts priority n l q) {p : P} (hp : priority p < n) :
    ∃ q', q.push priority p = some q' ∧ Sorts priority n (l ++ [p]) q' := by
  obtain ⟨rfl, s, hs, hsort⟩ := h
  obtain ⟨q', hpush, hq', hlength⟩ := hs.push hp
  exact ⟨q', hpush, hlength, s.push p, hq', hsort.insert p⟩

theorem Sorts.front_eq (h : Sorts priority n l q) {x : P} {rest : List P}
    (hx : WaitingList.IsNext priority l x rest) : q.front = some x := by
  obtain ⟨-, s, hs, hsort⟩ := h
  obtain ⟨t, ht, -⟩ := hsort.eq_cons hx
  rw [hs.front_eq, StableQueue.front, ht, List.head?_cons]

theorem Sorts.pop (h : Sorts priority n l q) {x : P} {rest : List P}
    (hx : WaitingList.IsNext priority l x rest) :
    ∃ q', q.pop = some q' ∧ Sorts priority n rest q' := by
  have hfront := h.front_eq hx
  obtain ⟨rfl, s, hs, hsort⟩ := h
  rw [hs.front_eq] at hfront
  obtain ⟨q', hpop, hq', hlength⟩ := hs.pop hfront
  obtain ⟨t, ht, hrest⟩ := hsort.eq_cons hx
  obtain rfl : s.pop.elems = t :=
    (List.cons.inj ((StableQueue.elems_eq_cons hfront).symm.trans ht)).2
  exact ⟨q', hpop, hlength, s.pop, hq', hrest⟩

theorem Sorts.empty_iff (h : Sorts priority n l q) : q.empty = true ↔ l = [] := by
  obtain ⟨-, s, hs, hsort⟩ := h
  rw [hs.empty_iff, StableQueue.front_eq_none, hsort.eq_nil_iff]

theorem Sorts.represents (h : Sorts priority n l q) : q.Represents priority l := by
  obtain ⟨-, s, hs, hsort⟩ := id h
  have hcontents : WaitingList.IsStableSort priority l q.contents := hs.contents_eq ▸ hsort
  refine ⟨hs.wellFormed.currentDeq_eq_none, hs.wellFormed.currentDeq_eq_some, fun i d hd ↦ ?_,
    h.empty_iff, fun x ↦ ⟨fun hfront ↦ ?_, fun ⟨rest, hx⟩ ↦ h.front_eq hx⟩, fun x rest hx ↦ ?_,
    hcontents⟩
  · rw [hs.wellFormed.deque_eq hd, hcontents.filter_eq]
  · -- something waits, so there is a next element, and it is the front
    have hne : l ≠ [] := by
      intro hnil
      have hnone := hs.empty_iff.mp (h.empty_iff.mpr hnil)
      rw [hs.front_eq, hnone] at hfront
      exact absurd hfront (by simp)
    obtain ⟨y, rest, hnext⟩ := WaitingList.exists_isNext priority hne
    obtain rfl : x = y := Option.some_inj.mp (hfront.symm.trans (h.front_eq hnext))
    exact ⟨rest, hnext⟩
  · obtain ⟨q', hpop, -⟩ := h.pop hx
    obtain ⟨c, y, deq, hget, hfront, hqueues⟩ := exists_of_pop_eq_some hpop
    obtain rfl : y = x := Option.some_inj.mp (hfront.symm.trans (h.front_eq hx))
    obtain rfl : priority y = c := hs.wellFormed.priority_eq c _ hget y List.mem_cons_self
    exact ⟨deq, q', hget, hpop, hqueues⟩

/-- Whatever the waiting list does, the container does. -/
theorem Sorts.step {op : QueueOp P} {popped : List P}
    (h : Sorts priority n l q)
    (hstep : (WaitingList.system priority n).step l op = some (l', popped)) :
    ∃ q', (system priority).step q op = some (q', popped) ∧
      Sorts priority n l' q' := by
  cases op with
  | push p =>
    obtain ⟨hp, hr⟩ := WaitingList.step_push_eq_some.mp hstep
    obtain ⟨rfl, rfl⟩ := Prod.mk.inj hr
    obtain ⟨q', hpush, hq'⟩ := h.push hp
    refine ⟨q', ?_, hq'⟩
    simp only [system, hpush, Option.map_some]
  | pop =>
    obtain ⟨x, rest, hx, hr⟩ := WaitingList.step_pop_eq_some.mp hstep
    obtain ⟨rfl, rfl⟩ := Prod.mk.inj hr
    obtain ⟨q', hpop, hq'⟩ := h.pop hx
    refine ⟨q', ?_, hq'⟩
    simp only [system, h.front_eq hx, hpop]

/-- **The container is a stable priority queue.** It goes through every legal sequence of pushes and
pops; what it pops and what it holds is what the waiting list pops and holds. -/
theorem exists_run_represents {ops : List (QueueOp P)} {popped : List P}
    (hrun : (WaitingList.system priority n).run [] ops = some (l, popped)) :
    (QueueOp.pushed ops).Perm (popped ++ l) ∧ l.Sublist (QueueOp.pushed ops) ∧
      ∃ q, (system priority).run (ofCount n) ops = some (q, popped) ∧ q.Represents priority l ∧
        (q.empty = true ↔ QueueOp.pops ops = (QueueOp.pushed ops).length) := by
  obtain ⟨hperm, hsublist, -⟩ := WaitingList.run_history hrun
  obtain ⟨q, hq, hsorts⟩ := System.run_of_lockstep (R := Sorts priority n)
    (fun h hstep ↦ h.step hstep) (sorts_ofCount n) hrun
  exact ⟨hperm, hsublist, q, hq, hsorts.represents,
    hsorts.empty_iff.trans (WaitingList.eq_nil_iff_of_run hrun)⟩

/-- Two pushes overtake an earlier one of lower priority and leave in the order in which they
came. -/
def overtakingOps : List (QueueOp (ℕ × Char)) :=
  [.push (0, 'a'), .push (2, 'b'), .push (2, 'c'), .pop, .pop]

theorem exists_run_represents_overtakingOps :
    ∃ q : PushQueue (ℕ × Char), (system Prod.fst).run (ofCount 3) overtakingOps
        = some (q, [(2, 'b'), (2, 'c')]) ∧ q.Represents Prod.fst [(0, 'a')] :=
  have hrun : (WaitingList.system Prod.fst 3).run [] overtakingOps
      = some ([(0, 'a')], [(2, 'b'), (2, 'c')]) := by decide
  have hqueue := (exists_run_represents hrun).2.2
  hqueue.imp fun _ h ↦ ⟨h.1, h.2.1⟩

end PushQueue

end PushService
