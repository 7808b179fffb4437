import PushService.Dispatcher.Numbering
import PushService.Queue.Order

/-!
# The order of delivery

A push that is accepted while another one is being sent can change what `pop` removes, but not the
order in which pushes of one priority are selected. What the processing thread selects is the front
of the queue, so it has the highest priority, and among the queued pushes of that priority it was
accepted first (`SelectsFirst`). What a client has received is what was selected, round by round, so
of two pushes of one priority it never gets the later one first (`ReceivedInOrder`).

"Earlier" is earlier in the history. A pointer can be posted more than once, so the pushes are told
apart by the numbers of their posts.
-/

namespace PushService

namespace Dispatcher

variable {d d' : Dispatcher} {h : List Event} {c : PeekConsumer PushPtr.priority}

/-! ## The two laws -/

/-- The push was accepted before the other one. -/
def Precedes (h : List Event) (p q : PushPtr) : Prop :=
  (accepted h).idxOf p < (accepted h).idxOf q

instance (h : List Event) : DecidableRel (Precedes h) := fun _ _ ↦ Nat.decLt _ _

/-- Whatever is selected next has the highest priority in the queue, and the queue holds no push of
this priority that was accepted before it. -/
def SelectsFirst (d : Dispatcher) (h : List Event) : Prop :=
  ∀ a d' es p, system.step d a = some (d', es) → .selected p ∈ es →
    p ∈ d.pushQueue.contents ∧ p ∈ accepted h ∧
      ∀ q ∈ d.pushQueue.contents, q.priority ≤ p.priority ∧
        (q.priority = p.priority → q = p ∨ Precedes h p q)

/-- No client has received the later of two pushes of one priority before the first copy of the
earlier one. -/
def ReceivedInOrder (d : Dispatcher) (h : List Event) : Prop :=
  ∀ client ∈ d.clients, ∀ p ∈ accepted h, ∀ q ∈ accepted h,
    p.priority = q.priority → Precedes h p q → p ∈ client.receivedPushes →
      ∀ l r, client.receivedPushes = l ++ q :: r → p ∈ l

/-! ## The consumer that is followed -/

/-- If no push is accepted twice, the dispatcher follows a consumer that keeps the order. -/
theorem exists_inOrder {clients : List ℕ} {as : List Action}
    (hrun : system.run (start clients) as = some (d, h)) :
    ∃ c, Tracks d h c ∧ ((accepted h).Nodup → c.InOrder) := by
  refine System.run_invariant
    (I := fun d h ↦ ∃ c, Tracks d h c ∧ ((accepted h).Nodup → c.InOrder)) (h := []) ?_
    ⟨_, tracks_start clients, fun _ ↦ PeekConsumer.inOrder_init⟩ hrun
  rintro d h a d' es ⟨c, hc, horder⟩ hstep
  obtain ⟨c', hfollows, hc'⟩ := hc.step hstep
  refine ⟨c', hc', fun hnodup ↦ ?_⟩
  -- what has been accepted so far is the beginning of what is accepted in the end
  have hnodup₀ : (accepted h).Nodup := by
    rw [accepted_append] at hnodup
    exact (List.sublist_append_left _ _).nodup hnodup
  rcases hfollows with ⟨rfl, -⟩ | ⟨b, hb, -⟩
  · exact horder hnodup₀
  · exact (horder hnodup₀).step (hc.2 ▸ hnodup₀) hb

/-- Clients receive what the consumer takes up, in this order. -/
theorem Simulates.received_sublist (hs : Simulates d c) {client : Client}
    (hmem : client ∈ d.clients) : client.receivedPushes.Sublist c.taken := by
  obtain ⟨j, hj⟩ := List.mem_iff_getElem?.mp hmem
  have hserved : c.served.Sublist c.taken := List.sublist_append_left _ _
  have hreceived := hs.received j client hj
  cases hworker : d.worker with
  | sending p next =>
    have hheld : c.held = some p := by rw [hs.held_eq, hworker, Worker.inFlight]
    rw [hworker, Worker.receivedBy] at hreceived
    rw [hreceived]
    split_ifs
    · rw [PeekConsumer.taken, hheld, Option.toList_some]
    · exact hserved
  | selecting => simpa [hreceived, hworker, Worker.receivedBy] using hserved
  | waiting notified => simpa [hreceived, hworker, Worker.receivedBy] using hserved
  | finished => simpa [hreceived, hworker, Worker.receivedBy] using hserved

/-- Selecting is looking at the front. -/
theorem front_of_selected {a : Action} {es : List Event} {p : PushPtr}
    (hstep : system.step d a = some (d', es)) (hp : .selected p ∈ es) :
    d.pushQueue.front = some p := by
  cases steps_of_step hstep with
  | select hfront =>
    obtain rfl := Event.selected.inj (List.mem_singleton.mp hp)
    exact hfront
  | _ => exact absurd hp (by simp)

theorem Tracks.selectsFirst (hc : Tracks d h c) (hnodup : (accepted h).Nodup) (horder : c.InOrder) :
    SelectsFirst d h := by
  intro a d' es p hstep hp
  have hfront : c.queue.front = some p := by
    rw [← hc.1.refines.front_eq]
    exact front_of_selected hstep hp
  have hmem : p ∈ c.queue.elems := List.mem_of_head? hfront
  rw [hc.1.refines.contents_eq, ← hc.2]
  refine ⟨hmem, horder.mem_accepted_of_queued hmem, fun q hq ↦ ⟨?_, fun hk ↦ ?_⟩⟩
  · exact StableQueue.key_le_of_front hfront hq
  · rw [← hc.2] at hnodup
    have hle := horder.idxOf_front_le hnodup hfront hq hk
    rcases hle.lt_or_eq with hlt | heq
    · exact .inr (by rwa [Precedes, ← hc.2])
    · exact .inl ((List.idxOf_inj (horder.mem_accepted_of_queued hmem)).mp heq).symm

theorem Tracks.receivedInOrder (hc : Tracks d h c) (horder : c.InOrder) : ReceivedInOrder d h := by
  intro client hmem p _ q _ hk hlt hp l r hsplit
  have hpairwise := horder.taken.sublist (hc.1.received_sublist hmem)
  rw [hsplit] at hpairwise hp
  rcases List.mem_append.mp hp with hp | hp
  · exact hp
  · have hafter := (List.pairwise_cons.mp (List.pairwise_append.mp hpairwise).2.1).1
    rw [Precedes] at hlt
    rw [hc.2] at hafter
    rcases List.mem_cons.mp hp with rfl | hp
    · exact absurd hlt (lt_irrefl _)
    · exact absurd (hafter p hp hk.symm) (not_le.mpr hlt)

/-! ## Every interleaving -/

/-- **Delivery order.** Every run is, but for the pointers, one in which every push has the number
of its post. There no push is accepted twice, what is selected is the first of the highest priority,
and clients receive the pushes of one priority in the order of acceptance. -/
theorem delivery_in_order (clients : List ℕ) (as : List Action) (d : Dispatcher) (h : List Event)
    (hrun : system.run (start clients) as = some (d, h)) :
    ∃ d₁ h₁, system.run (start clients) (numbered as) = some (d₁, h₁) ∧
      d₁.relabel (addresses as) = d ∧ h₁.map (Event.relabel (addresses as)) = h ∧
      (accepted h₁).Nodup ∧ SelectsFirst d₁ h₁ ∧ ReceivedInOrder d₁ h₁ := by
  obtain ⟨d₁, h₁, hrun₁, hd, hh⟩ := exists_numbered_run hrun
  have hnodup := nodup_accepted hrun₁
  obtain ⟨c, hc, horder⟩ := exists_inOrder hrun₁
  exact ⟨d₁, h₁, hrun₁, hd, hh, hnodup, hc.selectsFirst hnodup (horder hnodup),
    hc.receivedInOrder (horder hnodup)⟩

/-- One push is posted twice, the second time while it is being sent. -/
def repostedRun : List Action :=
  [.post (some normalPush), .work, .post (some normalPush), .work, .work, .work]

theorem delivery_in_order_repostedRun : ∃ d h,
    system.run (start [7]) repostedRun = some (d, h) ∧ accepted h = [normalPush, normalPush] ∧
      ∃ d₁ h₁, d₁.relabel (addresses repostedRun) = d ∧ (accepted h₁).Nodup ∧
        SelectsFirst d₁ h₁ ∧ ReceivedInOrder d₁ h₁ := by
  obtain ⟨d₁, h₁, -, hd, -, hlaws⟩ := delivery_in_order [7] repostedRun _ _ rfl
  exact ⟨_, _, rfl, rfl, d₁, h₁, hd, hlaws⟩

end Dispatcher

end PushService
