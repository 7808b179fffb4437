import PushService.Queue.PeekConsumer

/-!
# The order of service

Of one key the queue holds the last elements accepted, in the order of their acceptance; those
before them are gone. An element that the consumer takes up is the first of its key in the queue,
and it stays so until it is gone, whatever arrives meanwhile. So among elements of one key, none is
taken up after one that was accepted later, although what is removed need not be what was worked on
(`InOrder`). Elements are told apart by their place in the order of acceptance, which makes sense
when each is accepted once.
-/

namespace PushService

namespace PeekConsumer

variable {P κ : Type*} [LinearOrder κ] [DecidableEq P] {key : P → κ}

/-! ## Places in a list -/

/-- What comes after a cut in the filtered list comes after what is before the cut. -/
theorem idxOf_le_of_filter {p : P → Bool} {l gone rest : List P} {x y : P} (hnodup : l.Nodup)
    (h : l.filter p = gone ++ rest) (hy : y ∈ gone) (hx : x ∈ rest) : l.idxOf y ≤ l.idxOf x := by
  obtain ⟨l₁, l₂, rfl, rfl, rfl⟩ := List.filter_eq_append_iff.mp h
  have hy₁ := (List.mem_filter.mp hy).1
  have hx₁ : x ∉ l₁ := fun hx₁ ↦
    List.disjoint_of_nodup_append hnodup hx₁ (List.mem_filter.mp hx).1
  have hlt := List.idxOf_lt_length_of_mem hy₁
  rw [List.idxOf_append, if_pos hy₁, List.idxOf_append, if_neg hx₁]
  omega

/-! ## The invariant -/

/-- The elements the consumer has taken up, in this order. -/
def taken (c : PeekConsumer key) : List P := c.served ++ c.held.toList

/-- The consumer takes up the elements of one key in the order of their acceptance. -/
structure InOrder (c : PeekConsumer key) : Prop where
  /-- The elements of a key that are queued are the last ones accepted; those taken up are gone, or
  the first one queued. -/
  queued : ∀ k, ∃ gone,
    c.accepted.filter (fun x ↦ key x = k) = gone ++ c.queue.elems.filter (fun x ↦ key x = k) ∧
      ∀ x ∈ c.taken, key x = k →
        x ∈ gone ∨ (c.queue.elems.filter fun x ↦ key x = k).head? = some x
  taken : c.taken.Pairwise fun x y ↦ key x = key y → c.accepted.idxOf x ≤ c.accepted.idxOf y

theorem inOrder_init : (init : PeekConsumer key).InOrder :=
  ⟨fun _ ↦ ⟨[], rfl, fun _ hx ↦ absurd hx (by simp [PeekConsumer.taken, init])⟩, List.Pairwise.nil⟩

variable {c c' : PeekConsumer key}

theorem InOrder.mem_accepted (hc : c.InOrder) {x : P} (hx : x ∈ c.taken) : x ∈ c.accepted := by
  obtain ⟨gone, hacc, htaken⟩ := hc.queued (key x)
  have hmem : x ∈ c.accepted.filter fun y ↦ key y = key x := by
    rw [hacc]
    rcases htaken x hx rfl with hgone | hhead
    · exact List.mem_append_left _ hgone
    · exact List.mem_append_right _ (List.mem_of_head? hhead)
  exact (List.mem_filter.mp hmem).1

theorem InOrder.mem_accepted_of_queued (hc : c.InOrder) {x : P} (hx : x ∈ c.queue.elems) :
    x ∈ c.accepted := by
  obtain ⟨gone, hacc, -⟩ := hc.queued (key x)
  have hmem : x ∈ c.queue.elems.filter fun y ↦ key y = key x :=
    List.mem_filter.mpr ⟨hx, by simp⟩
  have hmem' := List.mem_append_right gone hmem
  rw [← hacc] at hmem'
  exact (List.mem_filter.mp hmem').1

/-- An element arrives: behind those of its key, in the queue and in the order of acceptance. -/
theorem InOrder.push (hc : c.InOrder) (p : P) :
    InOrder ⟨c.queue.push p, c.held, c.served, c.accepted ++ [p]⟩ := by
  refine ⟨fun k ↦ ?_, ?_⟩
  · obtain ⟨gone, hacc, htaken⟩ := hc.queued k
    have hp : [p].filter (fun x ↦ key x = k) = if key p = k then [p] else [] := by
      simp [List.filter_singleton]
    refine ⟨gone, ?_, fun x hx hk ↦ (htaken x hx hk).imp_right fun hhead ↦ ?_⟩
    · rw [List.filter_append, hacc, hp, StableQueue.push_elems,
        StableQueue.filter_insert c.queue.sorted, List.append_assoc]
    · rw [StableQueue.push_elems, StableQueue.filter_insert c.queue.sorted, List.head?_append,
        hhead]
      rfl
  · refine hc.taken.imp_of_mem fun {x y} hx hy hle hk ↦ ?_
    dsimp only
    rw [List.idxOf_append, if_pos (hc.mem_accepted hx), List.idxOf_append,
      if_pos (hc.mem_accepted hy)]
    exact hle hk

/-- The front is taken up: everything of its key taken up before is gone, or is the front itself. -/
theorem InOrder.peek (hc : c.InOrder) (hnodup : c.accepted.Nodup) (hheld : c.held = none) {x : P}
    (hx : c.queue.front = some x) : InOrder ⟨c.queue, some x, c.served, c.accepted⟩ := by
  have htaken : c.taken = c.served := by
    rw [PeekConsumer.taken, hheld, Option.toList_none, List.append_nil]
  have hold := hc.taken
  rw [htaken] at hold
  have hhead := StableQueue.head?_filter hx
  refine ⟨fun k ↦ ?_, ?_⟩
  · obtain ⟨gone, hacc, hgone⟩ := hc.queued k
    refine ⟨gone, hacc, fun y hy hk ↦ ?_⟩
    rcases List.mem_append.mp hy with hy | hy
    · exact hgone y (htaken ▸ hy) hk
    · obtain rfl := List.mem_singleton.mp hy
      exact .inr (hk ▸ hhead)
  · refine List.pairwise_append.mpr ⟨hold, List.pairwise_singleton _ _, fun y hy x' hx' hk ↦ ?_⟩
    obtain rfl := List.mem_singleton.mp hx'
    obtain ⟨gone, hacc, hgone⟩ := hc.queued (key x')
    rcases hgone y (htaken ▸ hy) hk with hy | hy
    · exact idxOf_le_of_filter hnodup hacc hy (List.mem_of_head? hhead)
    · rw [Option.some_inj.mp (hhead.symm.trans hy)]

/-- The front is removed: it is gone now. -/
theorem InOrder.pop (hc : c.InOrder) {p : P} (hheld : c.held = some p) :
    InOrder ⟨c.queue.pop, none, c.served ++ [p], c.accepted⟩ := by
  have htaken : c.taken = c.served ++ [p] := by rw [PeekConsumer.taken, hheld, Option.toList_some]
  have hsame : PeekConsumer.taken ⟨c.queue.pop, none, c.served ++ [p], c.accepted⟩ = c.taken := by
    rw [htaken]
    exact List.append_nil _
  refine ⟨fun k ↦ ?_, ?_⟩
  · obtain ⟨gone, hacc, hgone⟩ := hc.queued k
    rw [hsame]
    cases hfront : c.queue.front with
    | none =>
      have hnil : c.queue.elems = [] := StableQueue.front_eq_none.mp hfront
      have hpop : c.queue.pop.elems = [] := by
        change c.queue.elems.tail = []
        rw [hnil, List.tail_nil]
      refine ⟨gone, ?_, ?_⟩
      · rw [hacc, hnil, hpop]
      · rw [hpop, ← hnil]
        exact hgone
    | some x =>
      -- what goes is the front, whether or not it is what was worked on
      rw [StableQueue.elems_eq_cons hfront] at hacc hgone
      by_cases hk : key x = k
      · rw [List.filter_cons_of_pos (by simpa using hk)] at hacc hgone
        refine ⟨gone ++ [x], by rw [hacc, List.append_assoc]; rfl, fun y hy hky ↦ .inl ?_⟩
        rcases hgone y hy hky with hy | hy
        · exact List.mem_append_left _ hy
        · obtain rfl := Option.some_inj.mp hy
          exact List.mem_append_right _ (List.mem_singleton_self _)
      · rw [List.filter_cons_of_neg (by simpa using hk)] at hacc hgone
        exact ⟨gone, hacc, hgone⟩
  · rw [hsame]
    exact hc.taken

/-- **The order of acceptance is the order of service**, key by key. -/
theorem InOrder.step {a : Act P} (hc : c.InOrder) (hnodup : c.accepted.Nodup)
    (h : c.step a = some c') : c'.InOrder := by
  rcases step_cases h with ⟨p, rfl, rfl⟩ | ⟨x, rfl, hheld, hx, rfl⟩ | ⟨p, rfl, hheld, rfl⟩
  · exact hc.push p
  · exact hc.peek hnodup hheld hx
  · exact hc.pop hheld

/-- The front is the first of its key to have been accepted. -/
theorem InOrder.idxOf_front_le (hc : c.InOrder) (hnodup : c.accepted.Nodup) {x y : P}
    (hx : c.queue.front = some x) (hy : y ∈ c.queue.elems) (hk : key y = key x) :
    c.accepted.idxOf x ≤ c.accepted.idxOf y := by
  obtain ⟨gone, hacc, -⟩ := hc.queued (key x)
  have hmem : y ∈ c.queue.elems.filter fun z ↦ key z = key x :=
    List.mem_filter.mpr ⟨hy, by simpa using hk⟩
  rw [StableQueue.elems_eq_cons hx, List.filter_cons_of_pos (by simp)] at hacc hmem
  rcases List.mem_cons.mp hmem with rfl | hy
  · exact le_rfl
  · rw [← List.singleton_append, ← List.append_assoc] at hacc
    exact idxOf_le_of_filter hnodup hacc (List.mem_append_right _ (List.mem_singleton_self x)) hy

end PeekConsumer

end PushService
