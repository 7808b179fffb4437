import Mathlib.Data.List.Count

/-!
# One slot for handles

A slot is a variable that holds a handle: uninitialised at first, later what the last call that
opens something has stored in it, which may be null. Functions are called with the slot. Its history
is managed well if no call gets anything but what was stored before, none but the functions that
accept it gets a null, and every handle that was stored is closed exactly once.
-/

namespace PushService

namespace Handles

variable {κ φ : Type*}

/-- What a slot holds; `none` is null. -/
inductive Slot (κ : Type*)
  | uninitialised
  | stored (handle : Option κ)
  deriving DecidableEq, Repr

/-- What happens to a slot. -/
inductive Event (κ φ : Type*)
  /-- Something is opened, and the result is stored in the slot. -/
  | opened (handle : Option κ)
  /-- A function is called with the slot. -/
  | call (f : φ) (slot : Slot κ)
  deriving DecidableEq, Repr

section Justified

variable (acceptsNull : φ → Bool)

/-- After the history `h`, the function is called with something that was stored. -/
def Uses (h : List (Event κ φ)) : Event κ φ → Prop
  | .opened _ => True
  | .call f slot =>
    ∃ handle, slot = .stored handle ∧ .opened handle ∈ h ∧ (handle = none → acceptsNull f)

/-- After the history `h`, all calls are called with something that was stored before them. -/
def Justified : List (Event κ φ) → List (Event κ φ) → Prop
  | _, [] => True
  | h, e :: es => Uses acceptsNull h e ∧ Justified (h ++ [e]) es

variable {acceptsNull} {h es fs : List (Event κ φ)}

theorem justified_append :
    Justified acceptsNull h (es ++ fs)
      ↔ Justified acceptsNull h es ∧ Justified acceptsNull (h ++ es) fs := by
  induction es generalizing h with
  | nil => simp [Justified]
  | cons e es ih => simp [Justified, ih, and_assoc]

/-- Calls with what the slot holds, once that has been stored. -/
theorem justified_calls {handle : Option κ} (hopened : .opened handle ∈ h) {calls : List φ}
    (hnull : handle = none → ∀ f ∈ calls, acceptsNull f) :
    Justified acceptsNull h (calls.map fun f ↦ .call f (.stored handle)) := by
  induction calls generalizing h with
  | nil => trivial
  | cons f calls ih =>
    refine ⟨⟨handle, rfl, hopened, fun hnone ↦ hnull hnone f List.mem_cons_self⟩, ?_⟩
    exact ih (List.mem_append_left _ hopened) fun hnone g hg ↦
      hnull hnone g (List.mem_cons_of_mem f hg)

end Justified

/-- The whole history of a slot is managed well. -/
structure Managed [DecidableEq κ] [DecidableEq φ] (acceptsNull : φ → Bool) (close : φ)
    (t : List (Event κ φ)) : Prop where
  justified : Justified acceptsNull [] t
  closed_once : ∀ k, .opened (some k) ∈ t → t.count (.call close (.stored (some k))) = 1

end Handles

end PushService
