import Mathlib.Data.List.Sort

/-!
# Stable priority queues

The abstract priority queue: a list kept sorted by descending key, in which elements of one key
stay in the order they were pushed. Sortedness is a field, so a queue out of order cannot be built.

Pushing inserts behind every element whose key is at least as great. That single rule gives both
halves of the law that users of the queue rely on: an element of no greater key than the front
leaves the front alone, and an element of greater key becomes the front.
-/

namespace PushService

/-- A list sorted by descending key. -/
structure StableQueue {P κ : Type*} [LinearOrder κ] (key : P → κ) where
  /-- The elements, the next one to leave first. -/
  elems : List P
  /-- No element stands before one of greater key. -/
  sorted : elems.Pairwise fun a b ↦ key b ≤ key a

namespace StableQueue

variable {P κ : Type*} [LinearOrder κ] {key : P → κ}

/-- The empty queue. -/
def nil : StableQueue key := ⟨[], List.Pairwise.nil⟩

variable (key) in
/-- Insert behind every element of at least the same key. -/
def insert (p : P) (l : List P) : List P := l.orderedInsert (fun a b ↦ key b < key a) p

@[simp] theorem insert_nil (p : P) : insert key p [] = [p] := rfl

theorem insert_cons (p b : P) (l : List P) :
    insert key p (b :: l) = if key b < key p then p :: b :: l else b :: insert key p l :=
  List.orderedInsert_cons ..

theorem insert_perm (p : P) (l : List P) : (insert key p l).Perm (p :: l) :=
  List.perm_orderedInsert _ p l

theorem pairwise_insert {l : List P} (p : P) (h : l.Pairwise fun a b ↦ key b ≤ key a) :
    (insert key p l).Pairwise fun a b ↦ key b ≤ key a := by
  induction l with
  | nil => simp
  | cons b l ih =>
    rw [List.pairwise_cons] at h
    rw [insert_cons]
    split_ifs with hlt
    · refine List.pairwise_cons.mpr ⟨fun c hc ↦ ?_, List.pairwise_cons.mpr h⟩
      rcases List.mem_cons.mp hc with rfl | hc
      · exact hlt.le
      · exact (h.1 c hc).trans hlt.le
    · refine List.pairwise_cons.mpr ⟨fun c hc ↦ ?_, ih h.2⟩
      rcases List.mem_cons.mp ((insert_perm p l).mem_iff.mp hc) with rfl | hc
      · exact not_lt.mp hlt
      · exact h.1 c hc

/-- Where an insertion lands, when the list is cut at that place. -/
theorem insert_append {p : P} {l r : List P} (hl : ∀ a ∈ l, key p ≤ key a)
    (hr : ∀ b ∈ r, key b < key p) : insert key p (l ++ r) = l ++ p :: r := by
  induction l with
  | nil =>
    cases r with
    | nil => rfl
    | cons b r =>
      rw [List.nil_append, insert_cons, if_pos (hr b List.mem_cons_self), List.nil_append]
  | cons a l ih =>
    have ha : ¬key a < key p := not_lt.mpr (hl a List.mem_cons_self)
    rw [List.cons_append, insert_cons, if_neg ha,
      ih fun b hb ↦ hl b (List.mem_cons_of_mem a hb), List.cons_append]

/-- **Within its key, an element goes to the end.** -/
theorem filter_insert {l : List P} (h : l.Pairwise fun a b ↦ key b ≤ key a) (p : P) (k : κ) :
    (insert key p l).filter (fun x ↦ key x = k)
      = l.filter (fun x ↦ key x = k) ++ if key p = k then [p] else [] := by
  induction l with
  | nil =>
    rw [insert_nil, List.filter_singleton]
    simp
  | cons b l ih =>
    rw [List.pairwise_cons] at h
    rw [insert_cons]
    split_ifs with hlt hk hk
    · -- everything from here on has a smaller key
      have hnone : (b :: l).filter (fun x ↦ key x = k) = [] := by
        refine List.filter_eq_nil_iff.mpr fun x hx hkx ↦ ?_
        have hle : key x ≤ key b := by
          rcases List.mem_cons.mp hx with rfl | hx
          · exact le_rfl
          · exact h.1 x hx
        rw [of_decide_eq_true hkx, ← hk] at hle
        exact absurd hle (not_le.mpr hlt)
      rw [List.filter_cons_of_pos (by simpa using hk), hnone, List.nil_append]
    · rw [List.filter_cons_of_neg (by simpa using hk), List.append_nil]
    · rw [List.filter_cons, List.filter_cons, ih h.2, if_pos hk]
      split_ifs <;> rfl
    · rw [List.filter_cons, List.filter_cons, ih h.2, if_neg hk]
      split_ifs <;> rfl

/-- Add an element. -/
def push (q : StableQueue key) (p : P) : StableQueue key :=
  ⟨insert key p q.elems, pairwise_insert p q.sorted⟩

/-- The element that leaves next. -/
def front (q : StableQueue key) : Option P := q.elems.head?

/-- Remove the element that leaves next. -/
def pop (q : StableQueue key) : StableQueue key := ⟨q.elems.tail, q.sorted.tail⟩

@[simp] theorem push_elems (q : StableQueue key) (p : P) :
    (q.push p).elems = insert key p q.elems := rfl

theorem push_perm (q : StableQueue key) (p : P) : (q.push p).elems.Perm (p :: q.elems) :=
  insert_perm p q.elems

theorem elems_eq_cons {q : StableQueue key} {x : P} (h : q.front = some x) :
    q.elems = x :: q.pop.elems :=
  List.eq_cons_of_mem_head? (Option.mem_def.mpr h)

theorem front_eq_none {q : StableQueue key} : q.front = none ↔ q.elems = [] :=
  List.head?_eq_none_iff

/-- **The front has the greatest key.** -/
theorem key_le_of_front {q : StableQueue key} {x y : P} (h : q.front = some x)
    (hy : y ∈ q.elems) : key y ≤ key x := by
  have hsorted := q.sorted
  rw [elems_eq_cons h] at hsorted hy
  rcases List.mem_cons.mp hy with rfl | hy
  · exact le_rfl
  · exact (List.pairwise_cons.mp hsorted).1 y hy

/-- The front is the first element of its key. -/
theorem head?_filter {q : StableQueue key} {x : P} (h : q.front = some x) :
    (q.elems.filter fun y ↦ key y = key x).head? = some x := by
  rw [elems_eq_cons h, List.filter_cons_of_pos (by simp), List.head?_cons]

/-- **An element of no greater key than the front leaves the front alone.** -/
theorem front_push_of_le {q : StableQueue key} {x p : P} (h : q.front = some x)
    (hle : key p ≤ key x) : (q.push p).front = some x := by
  simp only [front, push, elems_eq_cons h, insert_cons, if_neg (not_lt.mpr hle),
    List.head?_cons]

/-- **An element of greater key than the front becomes the front.** -/
theorem front_push_of_lt {q : StableQueue key} {x p : P} (h : q.front = some x)
    (hlt : key x < key p) : (q.push p).front = some p := by
  simp only [front, push, elems_eq_cons h, insert_cons, if_pos hlt, List.head?_cons]

end StableQueue

end PushService
