import Mathlib.Algebra.BigOperators.Group.List.Basic
import Mathlib.Algebra.GroupWithZero.Nat
import PushService.Queue.StableQueue

/-!
# Consumers that look first and remove later

A consumer of a priority queue may look at the front, work on it without holding the queue, and
remove *the front* afterwards. Elements keep arriving in between, so what is removed need not be
what was worked on.

## The law

Every round serves one element and removes one (`Balanced`). The two agree as long as no element of
greater key than the one being worked on arrives in between (`Overtakes`). Then the elements served
are exactly those accepted (`Exact`), each once.

The converse holds as well, and counting cannot show it: every round serves one element and removes
one, so the numbers always agree. What an overtaking changes is the *weight*. The element removed
has a greater key than the one served, the difference can never be made up for, and `Owes` carries
it to the end of the run.
-/

namespace PushService

/-- A priority queue, the element its consumer is working on, the elements it has finished, and
every element ever pushed. -/
structure PeekConsumer {P κ : Type*} [LinearOrder κ] (key : P → κ) where
  queue : StableQueue key
  held : Option P
  served : List P
  accepted : List P

namespace PeekConsumer

variable {P κ : Type*}

/-- What happens to the queue. -/
inductive Act (P : Type*)
  /-- An element arrives. -/
  | push (p : P)
  /-- The consumer looks at the front and starts working on it. -/
  | peek
  /-- The consumer has finished its element and removes the front. -/
  | pop

section LinearOrder

variable [LinearOrder κ] {key : P → κ}

/-- Nothing accepted yet. -/
def init : PeekConsumer key := ⟨.nil, none, [], []⟩

/-- One step. -/
def step (c : PeekConsumer key) : Act P → Option (PeekConsumer key)
  | .push p => some { c with queue := c.queue.push p, accepted := c.accepted ++ [p] }
  | .peek =>
    match c.held, c.queue.front with
    | none, some x => some { c with held := some x }
    | _, _ => none
  | .pop =>
    match c.held with
    | some p => some { c with queue := c.queue.pop, held := none, served := c.served ++ [p] }
    | none => none

/-- What a step can do. -/
theorem step_cases {c c' : PeekConsumer key} {a : Act P} (h : c.step a = some c') :
    (∃ p, a = .push p ∧ c' = ⟨c.queue.push p, c.held, c.served, c.accepted ++ [p]⟩) ∨
      (∃ x, a = .peek ∧ c.held = none ∧ c.queue.front = some x ∧
        c' = ⟨c.queue, some x, c.served, c.accepted⟩) ∨
      (∃ p, a = .pop ∧ c.held = some p ∧
        c' = ⟨c.queue.pop, none, c.served ++ [p], c.accepted⟩) := by
  cases a with
  | push p => exact .inl ⟨p, rfl, (Option.some_inj.mp h).symm⟩
  | peek =>
    simp only [step] at h
    split at h
    · rename_i x hheld hfront
      exact .inr (.inl ⟨x, rfl, hheld, hfront, (Option.some_inj.mp h).symm⟩)
    · exact absurd h (by simp)
  | pop =>
    simp only [step] at h
    split at h
    · rename_i p hheld
      exact .inr (.inr ⟨p, rfl, hheld, (Option.some_inj.mp h).symm⟩)
    · exact absurd h (by simp)

/-- An element of greater key than the one being worked on arrives. -/
def Overtakes (c : PeekConsumer key) (a : Act P) : Prop :=
  ∃ r p, c.held = some r ∧ a = .push p ∧ key r < key p

/-! ## The element held never goes ahead of the front -/

/-- While an element is held the queue is not empty, and its front has at least that key. -/
def HeldBelowFront (c : PeekConsumer key) : Prop :=
  ∀ p, c.held = some p → ∃ x, c.queue.front = some x ∧ key p ≤ key x

theorem heldBelowFront_init : (init : PeekConsumer key).HeldBelowFront :=
  fun _ h ↦ absurd h (by simp [init])

theorem HeldBelowFront.step {c c' : PeekConsumer key} {a : Act P} (hc : c.HeldBelowFront)
    (h : c.step a = some c') : c'.HeldBelowFront := by
  rcases step_cases h with ⟨p, rfl, rfl⟩ | ⟨x, rfl, -, hx, rfl⟩ | ⟨p, rfl, -, rfl⟩
  · intro r hr
    obtain ⟨x, hx, hle⟩ := hc r hr
    rcases le_or_gt (key p) (key x) with hpx | hpx
    · exact ⟨x, StableQueue.front_push_of_le hx hpx, hle⟩
    · exact ⟨p, StableQueue.front_push_of_lt hx hpx, hle.trans hpx.le⟩
  · rintro r hr
    obtain rfl : x = r := by simpa using hr
    exact ⟨x, hx, le_rfl⟩
  · exact fun r hr ↦ absurd hr (by simp)

/-! ## Every round serves one element and removes one -/

/-- As many elements have left the queue as have been served. -/
def Balanced (c : PeekConsumer key) : Prop :=
  c.served.length + c.queue.elems.length = c.accepted.length

theorem balanced_init : (init : PeekConsumer key).Balanced := rfl

theorem Balanced.step {c c' : PeekConsumer key} {a : Act P} (hheld : c.HeldBelowFront)
    (hc : c.Balanced) (h : c.step a = some c') : c'.Balanced := by
  rcases step_cases h with ⟨p, rfl, rfl⟩ | ⟨x, rfl, -, -, rfl⟩ | ⟨p, rfl, hp, rfl⟩
  · have hpush := (c.queue.push_perm p).length_eq
    simp only [Balanced, List.length_append, List.length_cons, List.length_nil] at hc hpush ⊢
    omega
  · exact hc
  · obtain ⟨x, hx, -⟩ := hheld p hp
    have helems := congrArg List.length (StableQueue.elems_eq_cons hx)
    simp only [Balanced, List.length_append, List.length_cons, List.length_nil] at hc helems ⊢
    omega

/-! ## Nothing is served that was not accepted -/

/-- Whatever was served, is held or is queued, was accepted. -/
structure Genuine (c : PeekConsumer key) : Prop where
  served_subset : c.served ⊆ c.accepted
  held_mem : ∀ p, c.held = some p → p ∈ c.accepted
  elems_subset : c.queue.elems ⊆ c.accepted

theorem genuine_init : (init : PeekConsumer key).Genuine :=
  ⟨fun _ h ↦ h, fun _ h ↦ absurd h (by simp [init]), fun _ h ↦ h⟩

theorem Genuine.step {c c' : PeekConsumer key} {a : Act P} (hheld : c.HeldBelowFront)
    (hc : c.Genuine) (h : c.step a = some c') : c'.Genuine := by
  rcases step_cases h with ⟨p, rfl, rfl⟩ | ⟨x, rfl, -, hx, rfl⟩ | ⟨p, rfl, hp, rfl⟩
  · have hmono : c.accepted ⊆ c.accepted ++ [p] := List.subset_append_left _ _
    refine ⟨fun r hr ↦ hmono (hc.served_subset hr), fun r hr ↦ hmono (hc.held_mem r hr),
      fun r hr ↦ ?_⟩
    rcases List.mem_cons.mp ((c.queue.push_perm p).mem_iff.mp hr) with rfl | hr
    · simp
    · exact hmono (hc.elems_subset hr)
  · have hfront : x ∈ c.queue.elems := by
      rw [StableQueue.elems_eq_cons hx]
      exact List.mem_cons_self
    refine ⟨hc.served_subset, fun r hr ↦ ?_, hc.elems_subset⟩
    obtain rfl : x = r := by simpa using hr
    exact hc.elems_subset hfront
  · obtain ⟨x, hx, -⟩ := hheld p hp
    refine ⟨List.append_subset.mpr ⟨hc.served_subset, ?_⟩, fun r hr ↦ absurd hr (by simp),
      fun r hr ↦ ?_⟩
    · simpa using hc.held_mem p hp
    · refine hc.elems_subset ?_
      rw [StableQueue.elems_eq_cons hx]
      exact List.mem_cons_of_mem x hr

/-! ## Without overtaking, served is accepted -/

/-- The element held is the front, and every accepted element was served or is still queued. -/
structure Exact (c : PeekConsumer key) : Prop where
  front_eq : ∀ p, c.held = some p → c.queue.front = some p
  perm : c.accepted.Perm (c.served ++ c.queue.elems)

theorem exact_init : (init : PeekConsumer key).Exact :=
  ⟨fun _ h ↦ absurd h (by simp [init]), List.Perm.nil⟩

theorem Exact.step {c c' : PeekConsumer key} {a : Act P} (hc : c.Exact) (hno : ¬c.Overtakes a)
    (h : c.step a = some c') : c'.Exact := by
  rcases step_cases h with ⟨p, rfl, rfl⟩ | ⟨x, rfl, -, hx, rfl⟩ | ⟨p, rfl, hheld, rfl⟩
  · refine ⟨fun r hr ↦ ?_, ?_⟩
    · have hle : key p ≤ key r := not_lt.mp fun hlt ↦ hno ⟨r, p, hr, rfl, hlt⟩
      exact StableQueue.front_push_of_le (hc.front_eq r hr) hle
    · calc (c.accepted ++ [p]).Perm (p :: c.accepted) := List.perm_append_singleton p _
        _ |>.Perm (p :: (c.served ++ c.queue.elems)) := hc.perm.cons p
        _ |>.Perm (c.served ++ p :: c.queue.elems) := List.perm_middle.symm
        _ |>.Perm (c.served ++ (c.queue.push p).elems) :=
          (c.queue.push_perm p).symm.append_left c.served
  · refine ⟨fun r hr ↦ ?_, hc.perm⟩
    obtain rfl : x = r := by simpa using hr
    exact hx
  · refine ⟨fun r hr ↦ absurd hr (by simp), ?_⟩
    have helems := StableQueue.elems_eq_cons (hc.front_eq p hheld)
    simpa [helems] using hc.perm

end LinearOrder

/-! ## An overtaking is never made up for -/

section Weight

variable {key : P → ℕ}

/-- The total key of a list of elements. -/
def weight (key : P → ℕ) (l : List P) : ℕ := (l.map key).sum

@[simp] theorem weight_nil : weight key [] = 0 := rfl

@[simp] theorem weight_cons (p : P) (l : List P) : weight key (p :: l) = key p + weight key l := by
  simp [weight]

@[simp] theorem weight_append (l r : List P) :
    weight key (l ++ r) = weight key l + weight key r := by
  simp [weight]

variable (key) in
theorem weight_perm {l r : List P} (h : l.Perm r) : weight key l = weight key r :=
  (h.map key).sum_eq

/-- The accepted elements outweigh the served and queued ones by at least `n`, counting the element
held at its own key and the front, which is going to be removed in its place, not at all. -/
def Owes (n : ℕ) (c : PeekConsumer key) : Prop :=
  match c.held with
  | none => weight key c.served + weight key c.queue.elems + n ≤ weight key c.accepted
  | some p => weight key c.served + key p + weight key c.queue.pop.elems + n ≤ weight key c.accepted

theorem weight_push (q : StableQueue key) (p : P) :
    weight key (q.push p).elems = key p + weight key q.elems := by
  rw [weight_perm key (q.push_perm p), weight_cons]

theorem weight_elems {q : StableQueue key} {x : P} (h : q.front = some x) :
    weight key q.elems = key x + weight key q.pop.elems := by
  rw [StableQueue.elems_eq_cons h, weight_cons]

/-- What a push adds to the elements behind the front: its own key, less what the front gains. -/
theorem weight_pop_push {q : StableQueue key} {x y p : P} (hx : q.front = some x)
    (hy : (q.push p).front = some y) :
    key y + weight key (q.push p).pop.elems = key p + key x + weight key q.pop.elems := by
  have hpush := weight_push q p
  rw [weight_elems hy, weight_elems hx] at hpush
  omega

theorem Owes.step {n : ℕ} {c c' : PeekConsumer key} {a : Act P} (hheld : c.HeldBelowFront)
    (hc : c.Owes n) (h : c.step a = some c') : c'.Owes n := by
  rcases step_cases h with ⟨p, rfl, rfl⟩ | ⟨x, rfl, hnone, hx, rfl⟩ | ⟨p, rfl, hsome, rfl⟩
  · cases hr : c.held with
    | none =>
      simp only [Owes, hr] at hc ⊢
      rw [weight_push, weight_append, weight_cons, weight_nil]
      omega
    | some r =>
      obtain ⟨x, hx, -⟩ := hheld r hr
      simp only [Owes, hr] at hc ⊢
      rw [weight_append, weight_cons, weight_nil]
      rcases le_or_gt (key p) (key x) with hpx | hpx
      · have := weight_pop_push hx (StableQueue.front_push_of_le hx hpx)
        omega
      · have := weight_pop_push hx (StableQueue.front_push_of_lt hx hpx)
        omega
  · simp only [Owes, hnone] at hc ⊢
    rw [weight_elems hx] at hc
    omega
  · simp only [Owes, hsome] at hc ⊢
    rw [weight_append, weight_cons, weight_nil]
    omega

/-- **An overtaking leaves a debt**: the front that will be removed outweighs the element served. -/
theorem Exact.owes_of_overtakes {c c' : PeekConsumer key} {a : Act P} (hc : c.Exact)
    (hover : c.Overtakes a) (h : c.step a = some c') : c'.Owes 1 := by
  obtain ⟨r, p, hr, rfl, hlt⟩ := hover
  have hfront := hc.front_eq r hr
  have hperm := weight_perm key hc.perm
  have hpush := weight_pop_push hfront (StableQueue.front_push_of_lt hfront hlt)
  obtain rfl : _ = c' := Option.some_inj.mp h
  rw [weight_append, weight_elems hfront] at hperm
  simp only [Owes, hr]
  rw [weight_append, weight_cons, weight_nil]
  omega

/-- A consumer in debt has not served what was accepted, once the queue is empty. -/
theorem Owes.not_perm {c : PeekConsumer key} (hc : c.Owes 1) (hheld : c.held = none) :
    ¬c.served.Perm c.accepted := by
  intro hperm
  have := weight_perm key hperm
  simp only [Owes, hheld] at hc
  omega

end Weight

end PeekConsumer

end PushService
