import PushService.Dispatcher.Draining

/-!
# What the clients have in common

`Send` serves the clients one after another with the same push, so their lists never drift apart: at
any moment of any interleaving the clients that come first in `clients_` are at most one push ahead
of those that come later, and between two rounds all lists are the same (`clients_agree`). This does
not depend on which push `pop` removes. Each list holds accepted pushes only, and not more of them
than were accepted.
-/

namespace PushService

namespace Dispatcher

variable {d : Dispatcher} {c : PeekConsumer PushPtr.priority}

/-- The dispatcher follows a consumer that works on accepted elements only. -/
theorem exists_genuine {clients : List ℕ} {as : List Action} {h : List Event}
    (hrun : system.run (start clients) as = some (d, h)) :
    ∃ c, Tracks d h c ∧ c.Balanced ∧ c.Genuine := by
  refine System.run_invariant (I := fun d h ↦ ∃ c, Tracks d h c ∧ c.Balanced ∧ c.Genuine) (h := [])
    ?_
    ⟨_, tracks_start clients, PeekConsumer.balanced_init, PeekConsumer.genuine_init⟩ hrun
  rintro d h a d' es ⟨c, hc, hbalanced, hgenuine⟩ hstep
  obtain ⟨c', hfollows, hc'⟩ := hc.step hstep
  have hheld := hc.1.heldBelowFront
  rcases hfollows with ⟨rfl, -⟩ | ⟨b, hb, -⟩
  · exact ⟨c', hc', hbalanced, hgenuine⟩
  · exact ⟨c', hc', hbalanced.step hheld hb, hgenuine.step hheld hb⟩

/-! ## One list behind the lists of all clients -/

theorem Worker.receivedBy_prefix (w : Worker) (served : List PushPtr) {i j : ℕ} (hij : i ≤ j) :
    w.receivedBy served j <+: w.receivedBy served i := by
  cases w with
  | sending p next =>
    rw [Worker.receivedBy, Worker.receivedBy]
    by_cases hj : j < next
    · rw [if_pos hj, if_pos (hij.trans_lt hj)]
    · rw [if_neg hj]
      split_ifs with hi
      · exact List.prefix_append served [p]
      · exact List.prefix_rfl
  | _ => exact List.prefix_rfl

/-- A client has what was served, and perhaps the push in flight. -/
theorem Worker.receivedBy_eq (w : Worker) (served : List PushPtr) (j : ℕ) :
    w.receivedBy served j = served ∨
      ∃ p, w.inFlight = some p ∧ w.receivedBy served j = served ++ [p] := by
  cases w with
  | sending p next =>
    rw [Worker.receivedBy]
    split_ifs with hj
    · exact .inr ⟨p, rfl, rfl⟩
    · exact .inl rfl
  | _ => exact .inl rfl

theorem Worker.length_receivedBy (w : Worker) (served : List PushPtr) (j : ℕ) :
    served.length ≤ (w.receivedBy served j).length ∧
      (w.receivedBy served j).length ≤ served.length + 1 := by
  obtain heq | ⟨p, -, heq⟩ := w.receivedBy_eq served j <;> simp [heq]

/-- What a client has received was accepted. -/
theorem Simulates.receivedBy_subset (hs : Simulates d c) (hgenuine : c.Genuine) (j : ℕ) :
    d.worker.receivedBy c.served j ⊆ c.accepted := by
  obtain heq | ⟨p, hp, heq⟩ := d.worker.receivedBy_eq c.served j
  · rw [heq]
    exact hgenuine.served_subset
  · rw [heq, List.append_subset]
    exact ⟨hgenuine.served_subset, by simpa using hgenuine.held_mem p (hs.held_eq.trans hp)⟩

/-- A push that is being sent is in the queue until it is popped, or another one in its place. -/
theorem Simulates.length_receivedBy_le (hs : Simulates d c) (hbalanced : c.Balanced) (j : ℕ) :
    (d.worker.receivedBy c.served j).length ≤ c.accepted.length := by
  rw [← hbalanced]
  obtain heq | ⟨p, hp, heq⟩ := d.worker.receivedBy_eq c.served j
  · rw [heq]
    exact Nat.le_add_right ..
  · obtain ⟨x, hx, -⟩ := hs.heldBelowFront p (hs.held_eq.trans hp)
    rw [heq, StableQueue.elems_eq_cons hx, List.length_append, List.length_cons, List.length_cons,
      List.length_nil]
    omega

/-! ## Agreement -/

/-- **The clients agree.** In any interleaving, what a client has received is the beginning of what
an earlier one has, which is at most one push longer, and the same if no push is being sent; all of
it was accepted, and there is no more of it than was accepted. -/
theorem clients_agree (clients : List ℕ) (as : List Action) (d : Dispatcher) (h : List Event)
    (hrun : system.run (start clients) as = some (d, h)) (i j : ℕ) (hij : i ≤ j) (ci cj : Client)
    (hi : d.clients[i]? = some ci) (hj : d.clients[j]? = some cj) :
    cj.receivedPushes <+: ci.receivedPushes ∧
      ci.receivedPushes.length ≤ cj.receivedPushes.length + 1 ∧
      (d.worker.inFlight = none → ci.receivedPushes = cj.receivedPushes) ∧
      ci.receivedPushes ⊆ accepted h ∧ ci.receivedPushes.length ≤ (accepted h).length := by
  obtain ⟨c, ⟨hs, hacc⟩, hbalanced, hgenuine⟩ := exists_genuine hrun
  rw [hs.received i ci hi, hs.received j cj hj, ← hacc]
  have hleni := d.worker.length_receivedBy c.served i
  have hlenj := d.worker.length_receivedBy c.served j
  refine ⟨d.worker.receivedBy_prefix c.served hij, by omega, fun hidle ↦ ?_,
    hs.receivedBy_subset hgenuine i, hs.length_receivedBy_le hbalanced i⟩
  have hall : ∀ k, d.worker.receivedBy c.served k = c.served := by
    intro k
    obtain heq | ⟨p, hp, -⟩ := d.worker.receivedBy_eq c.served k
    · exact heq
    · exact absurd hp (by simp [hidle])
  rw [hall i, hall j]

/-- The second of two pushes has been sent to the first client and not yet to the second one. -/
def halfSentRun : List Action :=
  [.post (some normalPush), .work, .post (some highPush), .work, .work, .work, .work, .work]

theorem clients_agree_halfSentRun : ∃ d h, system.run (start [7, 8]) halfSentRun = some (d, h) ∧
    ∃ ci cj, d.clients[0]? = some ci ∧ d.clients[1]? = some cj ∧
      cj.receivedPushes <+: ci.receivedPushes ∧ ci.receivedPushes ≠ cj.receivedPushes := by
  have hrun : system.run (start [7, 8]) halfSentRun = some (_, _) := rfl
  obtain ⟨hpre, -⟩ := clients_agree [7, 8] halfSentRun _ _ hrun 0 1 (Nat.zero_le 1) _ _ rfl rfl
  exact ⟨_, _, hrun, _, _, rfl, rfl, hpre, by decide⟩

end Dispatcher

end PushService
