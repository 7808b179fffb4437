import Mathlib.Data.List.Basic
import Mathlib.Data.Option.Basic

/-!
# Asynchronous operations

An I/O context holds operations that have been started and not completed (`pending`), and
completions whose handlers have not run yet (`ready`). Completing an operation moves it from the one
list to the other; closing the object it runs on *aborts* it, which does the same with a fixed
result, but leaves alone what has completed already.

`Forall P Q` says `P` of all pending operations and `Q` of all completions, and `count p q` is the
number of those with `p` and `q`. Each of the ways the two lists change has its rule for both.
-/

namespace PushService

/-- The operations `ι` in flight and the completions `κ` waiting for their handlers. -/
structure Operations (ι κ : Type*) where
  pending : List ι
  ready : List κ
  deriving DecidableEq, Repr

namespace Operations

variable {ι κ : Type*}

def empty : Operations ι κ := ⟨[], []⟩

/-- Start an operation. -/
def start (o : Operations ι κ) (op : ι) : Operations ι κ := { o with pending := o.pending ++ [op] }

/-- Queue a completion without an operation in flight. -/
def post (o : Operations ι κ) (c : κ) : Operations ι κ := { o with ready := o.ready ++ [c] }

/-- Complete the selected pending operations with `aborted`. -/
def abort (o : Operations ι κ) (selected : ι → Bool) (aborted : ι → κ) : Operations ι κ where
  pending := o.pending.filter fun op ↦ !selected op
  ready := o.ready ++ (o.pending.filter selected).map aborted

/-- Complete the pending operation number `i`. -/
def complete (o : Operations ι κ) (i : ℕ) (c : κ) : Operations ι κ :=
  ⟨o.pending.eraseIdx i, o.ready ++ [c]⟩

/-- Take completion number `i` out, to run its handler. -/
def take (o : Operations ι κ) (i : ℕ) : Operations ι κ := { o with ready := o.ready.eraseIdx i }

@[simp] theorem mem_pending_start (o : Operations ι κ) (op : ι) : op ∈ (o.start op).pending := by
  simp [start]

@[simp] theorem mem_ready_post (o : Operations ι κ) (c : κ) : c ∈ (o.post c).ready := by
  simp [post]

@[simp] theorem mem_ready_complete (o : Operations ι κ) (i : ℕ) (c : κ) :
    c ∈ (o.complete i c).ready := by
  simp [complete]

/-- Aborting keeps what has completed. -/
theorem mem_ready_abort {o : Operations ι κ} {c : κ} (h : c ∈ o.ready) (selected : ι → Bool)
    (aborted : ι → κ) : c ∈ (o.abort selected aborted).ready :=
  List.mem_append_left _ h

theorem mem_pending_abort {o : Operations ι κ} {op : ι} (h : op ∈ o.pending) {selected : ι → Bool}
    (hsel : selected op = false) (aborted : ι → κ) : op ∈ (o.abort selected aborted).pending :=
  List.mem_filter.mpr ⟨h, by simp [hsel]⟩

/-- Aborting twice is aborting once. -/
@[simp] theorem abort_abort (o : Operations ι κ) (selected : ι → Bool) (aborted : ι → κ) :
    (o.abort selected aborted).abort selected aborted = o.abort selected aborted := by
  have hnone : (o.pending.filter fun op ↦ !selected op).filter selected = [] := by
    simp
  simp [abort, hnone]

/-- A list around one of its elements. -/
theorem exists_split {l : List ι} {i : ℕ} {x : ι} (h : l[i]? = some x) :
    ∃ l₁ l₂, l = l₁ ++ x :: l₂ ∧ l.take i = l₁ ∧ l.eraseIdx i = l₁ ++ l₂ := by
  obtain ⟨hlt, rfl⟩ := List.getElem?_eq_some_iff.mp h
  refine ⟨l.take i, l.drop (i + 1), ?_, rfl, List.eraseIdx_eq_take_drop_succ l i⟩
  rw [← List.drop_eq_getElem_cons hlt, List.take_append_drop]

/-! ## Properties of all operations -/

/-- `P` holds of every pending operation and `Q` of every completion. -/
structure Forall (P : ι → Prop) (Q : κ → Prop) (o : Operations ι κ) : Prop where
  pending : ∀ op ∈ o.pending, P op
  ready : ∀ c ∈ o.ready, Q c

variable {P : ι → Prop} {Q : κ → Prop} {o : Operations ι κ}

theorem forall_empty : (empty : Operations ι κ).Forall P Q :=
  ⟨fun _ h ↦ absurd h (by simp [empty]), fun _ h ↦ absurd h (by simp [empty])⟩

theorem Forall.start (h : o.Forall P Q) {op : ι} (hop : P op) : (o.start op).Forall P Q := by
  refine ⟨fun op' hop' ↦ ?_, h.ready⟩
  rcases List.mem_append.mp hop' with hop' | hop'
  · exact h.pending op' hop'
  · rwa [List.mem_singleton.mp hop']

theorem Forall.post (h : o.Forall P Q) {c : κ} (hc : Q c) : (o.post c).Forall P Q := by
  refine ⟨h.pending, fun c' hc' ↦ ?_⟩
  rcases List.mem_append.mp hc' with hc' | hc'
  · exact h.ready c' hc'
  · rwa [List.mem_singleton.mp hc']

/-- Aborting is the way to lose an operation: of the selected ones nothing need be known but that
their completions satisfy `Q`. -/
theorem Forall.abort {R : ι → Prop} (h : o.Forall R Q) {selected : ι → Bool} {aborted : ι → κ}
    (hP : ∀ op, selected op = false → R op → P op)
    (hQ : ∀ op, selected op = true → R op → Q (aborted op)) :
    (o.abort selected aborted).Forall P Q := by
  refine ⟨fun op hop ↦ ?_, fun c hc ↦ ?_⟩
  · obtain ⟨hmem, hsel⟩ := List.mem_filter.mp hop
    exact hP op (by simpa using hsel) (h.pending op hmem)
  · rcases List.mem_append.mp hc with hc | hc
    · exact h.ready c hc
    · obtain ⟨op, hop, rfl⟩ := List.mem_map.mp hc
      obtain ⟨hmem, hsel⟩ := List.mem_filter.mp hop
      exact hQ op hsel (h.pending op hmem)

theorem Forall.complete (h : o.Forall P Q) (i : ℕ) {c : κ} (hc : Q c) :
    (o.complete i c).Forall P Q := by
  refine ⟨fun op hop ↦ h.pending op (List.eraseIdx_subset hop), fun c' hc' ↦ ?_⟩
  rcases List.mem_append.mp hc' with hc' | hc'
  · exact h.ready c' hc'
  · rwa [List.mem_singleton.mp hc']

theorem Forall.take (h : o.Forall P Q) (i : ℕ) : (o.take i).Forall P Q :=
  ⟨h.pending, fun c hc ↦ h.ready c (List.eraseIdx_subset hc)⟩

/-! ## Counting operations -/

/-- The number of pending operations with `p` and of completions with `q`. -/
def count (p : ι → Bool) (q : κ → Bool) (o : Operations ι κ) : ℕ :=
  o.pending.countP p + o.ready.countP q

variable {p : ι → Bool} {q : κ → Bool}

theorem countP_eraseIdx {l : List ι} {i : ℕ} {x : ι} (h : l[i]? = some x) :
    (l.eraseIdx i).countP p + (if p x then 1 else 0) = l.countP p := by
  obtain ⟨l₁, l₂, rfl, -, herase⟩ := exists_split h
  rw [herase, List.countP_append, List.countP_append, List.countP_cons]
  omega

theorem countP_set {l : List ι} {i : ℕ} {x : ι} (h : l[i]? = some x) (y : ι) :
    (l.set i y).countP p + (if p x then 1 else 0) = l.countP p + if p y then 1 else 0 := by
  obtain ⟨hlt, -⟩ := List.getElem?_eq_some_iff.mp h
  obtain ⟨l₁, l₂, rfl, htake, -⟩ := exists_split h
  have hlength : l₁.length = i := by
    rw [← htake, List.length_take, Nat.min_eq_left (Nat.le_of_lt hlt)]
  rw [List.set_append_right _ _ (Nat.le_of_eq hlength), hlength, Nat.sub_self, List.set_cons_zero]
  simp only [List.countP_append, List.countP_cons]
  omega

@[simp] theorem count_empty : (empty : Operations ι κ).count p q = 0 := rfl

@[simp] theorem count_start (o : Operations ι κ) (op : ι) :
    (o.start op).count p q = o.count p q + if p op then 1 else 0 := by
  simp only [count, start, List.countP_append, List.countP_singleton]
  omega

@[simp] theorem count_post (o : Operations ι κ) (c : κ) :
    (o.post c).count p q = o.count p q + if q c then 1 else 0 := by
  simp only [count, post, List.countP_append, List.countP_singleton]
  omega

/-- Operations that are aborted go on being counted as completions, if `q` says so. -/
theorem count_abort (o : Operations ι κ) {selected : ι → Bool} {aborted : ι → κ}
    (h : ∀ op, selected op = true → q (aborted op) = p op) :
    (o.abort selected aborted).count p q = o.count p q := by
  have hselected : ((o.pending.filter selected).map aborted).countP q
      = (o.pending.filter selected).countP p := by
    rw [List.countP_map]
    refine List.countP_congr fun op hop ↦ ?_
    rw [Function.comp_apply, h op (List.mem_filter.mp hop).2]
  have hpending := List.countP_eq_countP_filter_add o.pending p selected
  simp only [count, abort, List.countP_append, hselected]
  omega

/-- Operations that are no longer counted once they have been aborted. -/
theorem count_abort_of_lost (o : Operations ι κ) {selected : ι → Bool} {aborted : ι → κ}
    (hp : ∀ op, p op = true → selected op = true)
    (hq : ∀ op, selected op = true → q (aborted op) = false) :
    (o.abort selected aborted).count p q = o.ready.countP q := by
  have hpending : (o.pending.filter fun op ↦ !selected op).countP p = 0 := by
    refine List.countP_eq_zero.mpr fun op hop hpop ↦ ?_
    simpa [hp op hpop] using (List.mem_filter.mp hop).2
  have hready : ((o.pending.filter selected).map aborted).countP q = 0 := by
    refine List.countP_eq_zero.mpr fun c hc hqc ↦ ?_
    obtain ⟨op, hop, rfl⟩ := List.mem_map.mp hc
    rw [hq op (List.mem_filter.mp hop).2] at hqc
    exact absurd hqc (by simp)
  simp only [count, abort, List.countP_append, hpending, hready]
  omega

theorem count_complete {i : ℕ} {op : ι} {c : κ} (hop : o.pending[i]? = some op) (h : q c = p op) :
    (o.complete i c).count p q = o.count p q := by
  have hpending := countP_eraseIdx (p := p) hop
  simp only [count, complete, List.countP_append, List.countP_singleton, h]
  omega

theorem count_take {i : ℕ} {c : κ} (hc : o.ready[i]? = some c) :
    (o.take i).count p q + (if q c then 1 else 0) = o.count p q := by
  have hready := countP_eraseIdx (p := q) hc
  simp only [count, take]
  omega

end Operations

end PushService
