import Mathlib.Data.List.Basic

/-!
# Reading in a loop

Somebody opens an endpoint and reads from it, one piece after the other: the next read is started
when the piece before has been handed over. Pieces arrive by themselves, and what has arrived waits
until its handler runs. Closing aborts the read that is under way, but not what has arrived already.

However the steps are interleaved (`Moves`), at most one read is under way, the pieces are handed
over in the order in which they arrive, and closing is reported once, after which at most one more
piece comes through (`ReadLoop.Sound`).
-/

namespace PushService

namespace ReadLoop

inductive Phase
  | new | opened | closed
  deriving DecidableEq, Repr

/-- What can be seen of the endpoint. -/
inductive Mark (β : Type*)
  | opened
  /-- A piece arrives. -/
  | arrived (piece : β)
  /-- It is handed over. -/
  | delivered (piece : β)
  | closed
  deriving DecidableEq, Repr

end ReadLoop

open ReadLoop

/-- An endpoint. A result is a piece, or nothing if the read has failed. -/
structure ReadLoop (β : Type*) where
  phase : Phase
  /-- The reads under way. -/
  pending : ℕ
  /-- The results whose handlers have not run. -/
  results : List (Option β)

namespace ReadLoop

variable {β : Type*} {v v' : ReadLoop β} {ms : List (Mark β)} {l r : List (Option β)} {n : ℕ}
    {piece : β}

/-- What can happen to an endpoint. -/
inductive Moves : ReadLoop β → List (Mark β) → ReadLoop β → Prop
  | refl (v : ReadLoop β) : Moves v [] v
  | trans {v v' v'' : ReadLoop β} {ms ms' : List (Mark β)} :
    Moves v ms v' → Moves v' ms' v'' → Moves v (ms ++ ms') v''
  | «open» (reads : Bool) : Moves ⟨.new, 0, []⟩ [.opened] ⟨.opened, if reads then 1 else 0, []⟩
  | arrive {p : Phase} {n : ℕ} {l : List (Option β)} (piece : β) :
    Moves ⟨p, n + 1, l⟩ [.arrived piece] ⟨p, n, l ++ [some piece]⟩
  | fail {p : Phase} {n : ℕ} {l : List (Option β)} : Moves ⟨p, n + 1, l⟩ [] ⟨p, n, l ++ [none]⟩
  /-- Hand over a piece, and start the next read. -/
  | deliver {n : ℕ} {l r : List (Option β)} (piece : β) :
    Moves ⟨.opened, n, l ++ some piece :: r⟩ [.delivered piece] ⟨.opened, n + 1, l ++ r⟩
  /-- Hand over a piece that arrived before the endpoint was closed. The next read fails. -/
  | deliverLate {n : ℕ} {l r : List (Option β)} (piece : β) :
    Moves ⟨.closed, n, l ++ some piece :: r⟩ [.delivered piece] ⟨.closed, n, l ++ r ++ [none]⟩
  /-- The handler of a failure. -/
  | drop {p : Phase} {n : ℕ} {l r : List (Option β)} :
    Moves ⟨p, n, l ++ none :: r⟩ [] ⟨p, n, l ++ r⟩
  | close {n : ℕ} {l : List (Option β)} :
    Moves ⟨.opened, n, l⟩ [.closed] ⟨.closed, 0, l ++ List.replicate n none⟩

/-- The pieces that have arrived. -/
@[simp] def Mark.arrival? : Mark β → Option β
  | .arrived piece => some piece
  | _ => none

/-- The pieces that have been handed over. -/
@[simp] def Mark.delivery? : Mark β → Option β
  | .delivered piece => some piece
  | _ => none

/-- Arrivals are not seen from above. -/
@[simp] def Mark.isReport : Mark β → Bool
  | .arrived _ => false
  | _ => true

def arrivals (ms : List (Mark β)) : List β := ms.filterMap Mark.arrival?

def deliveries (ms : List (Mark β)) : List β := ms.filterMap Mark.delivery?

def reports (ms : List (Mark β)) : List (Mark β) := ms.filter Mark.isReport

/-- The pieces among the results. -/
def pieces (v : ReadLoop β) : List β := v.results.filterMap id

/-- Nothing is under way, and nothing waits. -/
def Idle (v : ReadLoop β) : Prop := v.pending = 0 ∧ v.results = []

/-- What has been reported fits the phase. -/
def Fits (v : ReadLoop β) (ms : List (Mark β)) : Prop :=
  match v.phase with
  | .new => reports ms = []
  | .opened => reports ms = .opened :: (deliveries ms).map .delivered
  | .closed => ∃ before late : List β,
      reports ms = .opened :: before.map .delivered ++ .closed :: late.map .delivered ∧
        late.length + v.pieces.length ≤ 1

/-- The endpoint, and everything that has happened to it. -/
structure Sound (v : ReadLoop β) (ms : List (Mark β)) : Prop where
  single : v.pending + v.results.length ≤ 1
  idle : v.phase = .new → v.Idle
  silent : v.phase = .closed → v.pending = 0
  inOrder : arrivals ms = deliveries ms ++ v.pieces
  fits : v.Fits ms

@[simp] theorem arrivals_append (ms ms' : List (Mark β)) :
    arrivals (ms ++ ms') = arrivals ms ++ arrivals ms' := List.filterMap_append

@[simp] theorem deliveries_append (ms ms' : List (Mark β)) :
    deliveries (ms ++ ms') = deliveries ms ++ deliveries ms' := List.filterMap_append

@[simp] theorem reports_append (ms ms' : List (Mark β)) :
    reports (ms ++ ms') = reports ms ++ reports ms' := List.filter_append ms ms'

@[simp] theorem arrivals_singleton (m : Mark β) : arrivals [m] = m.arrival?.toList := by
  cases m <;> rfl

@[simp] theorem deliveries_singleton (m : Mark β) : deliveries [m] = m.delivery?.toList := by
  cases m <;> rfl

@[simp] theorem reports_singleton (m : Mark β) : reports [m] = if m.isReport then [m] else [] := by
  cases m <;> rfl

@[simp] theorem pieces_mk (p : Phase) (n : ℕ) (l : List (Option β)) :
    pieces ⟨p, n, l⟩ = l.filterMap id := rfl

/-- What is handed over is reported. -/
theorem deliveries_reports (ms : List (Mark β)) : deliveries (reports ms) = deliveries ms := by
  rw [deliveries, reports, List.filterMap_filter]
  congr 1
  funext m
  cases m <;> rfl

theorem sound_new : Sound (⟨.new, 0, []⟩ : ReadLoop β) [] where
  single := Nat.zero_le 1
  idle _ := ⟨rfl, rfl⟩
  silent h := nomatch h
  inOrder := rfl
  fits := rfl

/-- The only result there is. -/
theorem eq_nil_of_single {x : Option β} (h : n + (l ++ x :: r).length ≤ 1) :
    n = 0 ∧ l = [] ∧ r = [] := by
  simp only [List.length_append, List.length_cons] at h
  exact ⟨by omega, List.length_eq_zero_iff.mp (by omega), List.length_eq_zero_iff.mp (by omega)⟩

/-- A read is under way only while the endpoint is open, and then nothing else is. -/
theorem Sound.of_pending {p : Phase} {old : List (Mark β)} (hv : Sound ⟨p, n + 1, l⟩ old) :
    p = .opened ∧ n = 0 ∧ l = [] := by
  have hsingle : n + 1 + l.length ≤ 1 := hv.single
  refine ⟨?_, by omega, List.length_eq_zero_iff.mp (by omega)⟩
  cases p with
  | new => exact absurd (hv.idle rfl).1 (Nat.succ_ne_zero n)
  | opened => rfl
  | closed => exact absurd (hv.silent rfl) (Nat.succ_ne_zero n)

/-- **Whatever happens, the endpoint stays sound.** -/
theorem Sound.moves (h : Moves v ms v') {old : List (Mark β)} (hv : v.Sound old) :
    v'.Sound (old ++ ms) := by
  induction h generalizing old with
  | refl v => rwa [List.append_nil]
  | trans _ _ ih ih' =>
    rw [← List.append_assoc]
    exact ih' (ih hv)
  | «open» reads =>
    have hnone : reports old = [] := hv.fits
    have hdeliveries : deliveries old = [] := by rw [← deliveries_reports, hnone]; rfl
    have hin := hv.inOrder
    refine ⟨?_, nofun, nofun, by simpa using hin, by simp [Fits, hnone, hdeliveries]⟩
    cases reads
    · exact Nat.zero_le 1
    · exact Nat.le_refl 1
  | arrive piece =>
    obtain ⟨rfl, rfl, rfl⟩ := hv.of_pending
    have hin := hv.inOrder
    have hfits : reports old = .opened :: (deliveries old).map .delivered := hv.fits
    exact ⟨Nat.le_refl 1, nofun, nofun, by simpa using hin, by simp [Fits, hfits]⟩
  | fail =>
    obtain ⟨rfl, rfl, rfl⟩ := hv.of_pending
    rw [List.append_nil]
    exact ⟨Nat.le_refl 1, nofun, nofun, by simpa using hv.inOrder, hv.fits⟩
  | deliver piece =>
    obtain ⟨rfl, rfl, rfl⟩ := eq_nil_of_single hv.single
    have hin := hv.inOrder
    have hfits : reports old = .opened :: (deliveries old).map .delivered := hv.fits
    exact ⟨Nat.le_refl 1, nofun, nofun, by simpa using hin, by simp [Fits, hfits]⟩
  | deliverLate piece =>
    obtain ⟨rfl, rfl, rfl⟩ := eq_nil_of_single hv.single
    have hin := hv.inOrder
    obtain ⟨before, late, hreports, hlate⟩ := hv.fits
    -- the piece is the first that comes late
    obtain rfl : late = [] := List.length_eq_zero_iff.mp (by simpa using hlate)
    refine ⟨Nat.le_refl 1, nofun, fun _ ↦ rfl, by simpa using hin, before, [piece], ?_, by simp⟩
    simp [hreports]
  | drop =>
    obtain ⟨rfl, rfl, rfl⟩ := eq_nil_of_single hv.single
    rw [List.append_nil old]
    exact ⟨Nat.zero_le 1, fun _ ↦ ⟨rfl, rfl⟩, fun _ ↦ rfl, by simpa using hv.inOrder, hv.fits⟩
  | @close n l =>
    have hsingle : n + l.length ≤ 1 := hv.single
    have hin := hv.inOrder
    have hfits : reports old = .opened :: (deliveries old).map .delivered := hv.fits
    have hpieces : (l.filterMap id).length ≤ 1 :=
      Nat.le_trans (List.length_filterMap_le _ _) (by omega)
    refine ⟨by simpa [Nat.add_comm] using hsingle, nofun, fun _ ↦ rfl, by simpa using hin,
      deliveries old, [], by simp [hfits], by simpa using hpieces⟩

/-- Reports in their order: first that the endpoint is open, then the pieces, then that it is
closed, and after that at most one piece more. -/
def Orderly (rs : List (Mark β)) : Prop :=
  rs = [] ∨ ∃ before : List β, rs = .opened :: before.map .delivered ∨
    ∃ late : List β, late.length ≤ 1 ∧
      rs = .opened :: before.map .delivered ++ .closed :: late.map .delivered

theorem Sound.orderly (h : v.Sound ms) : Orderly (reports ms) := by
  have hfits := h.fits
  rw [Fits] at hfits
  split at hfits
  · exact .inl hfits
  · exact .inr ⟨_, .inl hfits⟩
  · obtain ⟨before, late, hreports, hlate⟩ := hfits
    exact .inr ⟨before, .inr ⟨late, by omega, hreports⟩⟩

/-- All that has arrived has been handed over, but perhaps for the last piece. -/
theorem Sound.isPrefix (h : v.Sound ms) :
    deliveries ms <+: arrivals ms ∧ (arrivals ms).length ≤ (deliveries ms).length + 1 := by
  have hle : v.pieces.length ≤ v.results.length := List.length_filterMap_le _ _
  have hsingle := h.single
  rw [h.inOrder, List.length_append]
  exact ⟨List.prefix_append _ _, by omega⟩

end ReadLoop

end PushService
