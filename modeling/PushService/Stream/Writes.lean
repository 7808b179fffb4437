import Mathlib.Data.List.Basic
import Mathlib.Data.List.Flatten

/-!
# Messages written in parts

Messages are put into a queue. The receiving side takes a non-empty part of the first one; what is
left of it goes to the end of the queue, but not at once: until it is *resumed* it waits outside.
What has been taken is on the wire.

Nothing is ever lost (`WriteChannel.Orderly`). The order is another matter. The rest of a message is
overtaken by every message behind it, and by every message that is sent while it waits; as long as
neither happens, the wire carries the messages in the order in which they were sent.
-/

namespace PushService

/-- The wire, the rests of messages that have not been resumed, and the queue. -/
structure WriteChannel (α : Type*) where
  wire : List α
  waiting : List (List α)
  queue : List (List α)
  deriving DecidableEq, Repr

namespace WriteChannel

variable {α : Type*} {sent : List α} {w : WriteChannel α}

/-- Put a message into the queue. -/
def send (w : WriteChannel α) (m : List α) : WriteChannel α := { w with queue := w.queue ++ [m] }

/-- Take the first `n` of the first message. -/
def accept (w : WriteChannel α) (n : ℕ) : WriteChannel α :=
  match w.queue with
  | [] => w
  | m :: queue =>
    { wire := w.wire ++ m.take n
      waiting := if n < m.length then w.waiting ++ [m.drop n] else w.waiting
      queue := queue }

/-- Put a waiting rest back. -/
def resume (w : WriteChannel α) (m : List α) (waiting : List (List α)) : WriteChannel α :=
  { w with waiting := waiting, queue := w.queue ++ [m] }

/-- Everything sent is on the wire or on its way there, in order; and a message that waits is the
only one under way. -/
structure Orderly (sent : List α) (w : WriteChannel α) : Prop where
  conserved : sent = w.wire ++ w.waiting.flatten ++ w.queue.flatten
  alone : w.waiting = [] ∨ (∃ m, w.waiting = [m]) ∧ w.queue = []

theorem orderly_empty : Orderly [] (⟨[], [], []⟩ : WriteChannel α) := ⟨rfl, .inl rfl⟩

theorem Orderly.isPrefix (h : Orderly sent w) : w.wire <+: sent := by
  rw [h.conserved, List.append_assoc]
  exact List.prefix_append _ _

/-- Sending, when no message waits. -/
theorem Orderly.send (h : Orderly sent w) (hwaiting : w.waiting = []) (m : List α) :
    Orderly (sent ++ m) (w.send m) := by
  refine ⟨?_, .inl hwaiting⟩
  rw [h.conserved]
  simp [WriteChannel.send]

theorem accept_of_lt {m : List α} {queue : List (List α)} (hqueue : w.queue = m :: queue) {n : ℕ}
    (hn : n < m.length) :
    w.accept n = ⟨w.wire ++ m.take n, w.waiting ++ [m.drop n], queue⟩ := by
  rw [accept, hqueue]
  simp [hn]

theorem accept_of_le {m : List α} {queue : List (List α)} (hqueue : w.queue = m :: queue) {n : ℕ}
    (hn : m.length ≤ n) : w.accept n = ⟨w.wire ++ m, w.waiting, queue⟩ := by
  rw [accept, hqueue]
  simp [Nat.not_lt.mpr hn, List.take_of_length_le hn]

/-- Taking a whole message, or a part of the only one. -/
theorem Orderly.accept (h : Orderly sent w) {m : List α} {queue : List (List α)}
    (hqueue : w.queue = m :: queue) {n : ℕ} (hn : n < m.length → queue = []) :
    Orderly sent (w.accept n) := by
  have hwaiting : w.waiting = [] := h.alone.resolve_right fun hw ↦
    absurd (hqueue.symm.trans hw.2) (by simp)
  have hconserved := h.conserved
  rw [hwaiting, hqueue] at hconserved
  by_cases hpart : n < m.length
  · rw [accept_of_lt hqueue hpart, hwaiting, hn hpart]
    refine ⟨?_, .inr ⟨⟨_, rfl⟩, rfl⟩⟩
    rw [hconserved, hn hpart]
    simp
  · rw [accept_of_le hqueue (Nat.le_of_not_lt hpart), hwaiting]
    refine ⟨?_, .inl rfl⟩
    rw [hconserved]
    simp

/-- Putting back what waits. -/
theorem Orderly.resume (h : Orderly sent w) {m : List α} {l₁ l₂ : List (List α)}
    (hwaiting : w.waiting = l₁ ++ m :: l₂) : Orderly sent (w.resume m (l₁ ++ l₂)) := by
  obtain ⟨⟨m', hm'⟩, hqueue⟩ := h.alone.resolve_left (by simp [hwaiting])
  -- the message that waits is the only one
  obtain ⟨rfl, rfl, rfl⟩ : l₁ = [] ∧ m = m' ∧ l₂ = [] := by
    have hlength := congrArg List.length (hwaiting.symm.trans hm')
    simp only [List.length_append, List.length_cons, List.length_nil] at hlength
    obtain rfl : l₁ = [] := List.length_eq_zero_iff.mp (by omega)
    obtain rfl : l₂ = [] := List.length_eq_zero_iff.mp (by omega)
    exact ⟨rfl, (List.cons.inj (hwaiting.symm.trans hm')).1, rfl⟩
  refine ⟨?_, .inl rfl⟩
  rw [h.conserved, hwaiting, hqueue]
  simp [WriteChannel.resume, hqueue]

end WriteChannel

end PushService
