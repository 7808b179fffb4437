import PushService.Queue.StableQueue
import PushService.System.Run

/-!
# Waiting lists

The other view of a priority queue: a list in the order of arrival, from which the first element of
the greatest key is taken. Nothing is sorted here, so this is what a priority queue is to be
compared with.

A list stably sorted by descending key is the same thing, kept ready: adding an element is `insert`,
taking one is taking the head (`IsStableSort.insert`, `IsStableSort.isNext`).
-/

namespace PushService

/-- What is done to a queue. -/
inductive QueueOp (P : Type*)
  | push (p : P)
  | pop
  deriving DecidableEq, Repr

namespace QueueOp

variable {P : Type*}

/-- The elements pushed, in order. -/
def pushed (ops : List (QueueOp P)) : List P :=
  ops.filterMap fun
    | push p => some p
    | pop => none

/-- How often something was popped. -/
def pops (ops : List (QueueOp P)) : ℕ :=
  ops.countP fun
    | push _ => false
    | pop => true

@[simp] theorem pops_cons_pop (ops : List (QueueOp P)) : pops (pop :: ops) = pops ops + 1 :=
  List.countP_cons_of_pos rfl

end QueueOp

namespace WaitingList

variable {P κ : Type*} [LinearOrder κ] (key : P → κ)

/-! ## The next element -/

/-- `x` is the first element of the greatest key, and `rest` is the list without it. -/
def IsNext (l : List P) (x : P) (rest : List P) : Prop :=
  ∃ l₁ l₂, l = l₁ ++ x :: l₂ ∧ rest = l₁ ++ l₂ ∧ (∀ y ∈ l₁, key y < key x) ∧
    ∀ y ∈ l₂, key y ≤ key x

/-- Take the next element out of the list. -/
def takeNext : List P → Option (P × List P)
  | [] => none
  | x :: l =>
    match takeNext l with
    | none => some (x, l)
    | some (y, rest) => if key x < key y then some (y, x :: rest) else some (x, l)

variable {key} {l rest : List P} {x : P}

theorem IsNext.key_le (h : IsNext key l x rest) {y : P} (hy : y ∈ l) : key y ≤ key x := by
  obtain ⟨l₁, l₂, rfl, -, hbefore, hafter⟩ := h
  rcases List.mem_append.mp hy with hy | hy
  · exact (hbefore y hy).le
  · rcases List.mem_cons.mp hy with rfl | hy
    · exact le_rfl
    · exact hafter y hy

theorem IsNext.mem (h : IsNext key l x rest) : x ∈ l := by
  obtain ⟨l₁, l₂, rfl, -, -, -⟩ := h
  exact List.mem_append_right l₁ List.mem_cons_self

theorem IsNext.perm (h : IsNext key l x rest) : l.Perm (x :: rest) := by
  obtain ⟨l₁, l₂, rfl, rfl, -, -⟩ := h
  exact List.perm_middle

theorem IsNext.sublist (h : IsNext key l x rest) : rest.Sublist l := by
  obtain ⟨l₁, l₂, rfl, rfl, -, -⟩ := h
  exact (List.sublist_cons_self x l₂).append_left l₁

theorem IsNext.cons_of_lt {a : P} (h : IsNext key l x rest) (hlt : key a < key x) :
    IsNext key (a :: l) x (a :: rest) := by
  obtain ⟨l₁, l₂, rfl, rfl, hbefore, hafter⟩ := h
  exact ⟨a :: l₁, l₂, rfl, rfl, List.forall_mem_cons.mpr ⟨hlt, hbefore⟩, hafter⟩

theorem isNext_cons {a : P} (h : ∀ y ∈ l, key y ≤ key a) : IsNext key (a :: l) a l :=
  ⟨[], l, rfl, rfl, by simp, h⟩

theorem takeNext_eq_none : takeNext key l = none ↔ l = [] := by
  cases l with
  | nil => simp [takeNext]
  | cons a l =>
    have hsome : takeNext key (a :: l) ≠ none := by
      rw [takeNext]
      split
      · simp
      · split_ifs <;> simp
    simp [hsome]

theorem isNext_of_takeNext (h : takeNext key l = some (x, rest)) : IsNext key l x rest := by
  induction l generalizing x rest with
  | nil => exact absurd h (by simp [takeNext])
  | cons a l ih =>
    rw [takeNext] at h
    cases hnext : takeNext key l with
    | none =>
      simp only [hnext, Option.some.injEq, Prod.mk.injEq] at h
      obtain ⟨rfl, rfl⟩ := h
      rw [takeNext_eq_none.mp hnext]
      exact isNext_cons (by simp)
    | some r =>
      obtain ⟨y, rest'⟩ := r
      have hy := ih hnext
      simp only [hnext] at h
      split_ifs at h with hlt
      · obtain ⟨rfl, rfl⟩ := Prod.mk.inj (Option.some_inj.mp h)
        exact hy.cons_of_lt hlt
      · obtain ⟨rfl, rfl⟩ := Prod.mk.inj (Option.some_inj.mp h)
        exact isNext_cons fun z hz ↦ (hy.key_le hz).trans (not_lt.mp hlt)

/-- **`takeNext` takes the first element of the greatest key.** -/
theorem takeNext_eq_some : takeNext key l = some (x, rest) ↔ IsNext key l x rest := by
  refine ⟨isNext_of_takeNext, ?_⟩
  rintro ⟨l₁, l₂, rfl, rfl, hbefore, hafter⟩
  induction l₁ with
  | nil =>
    rw [List.nil_append, takeNext]
    cases hnext : takeNext key l₂ with
    | none => rfl
    | some r =>
      obtain ⟨y, rest⟩ := r
      exact if_neg (not_lt.mpr (hafter y (isNext_of_takeNext hnext).mem))
  | cons a l₁ ih =>
    obtain ⟨ha, hbefore⟩ := List.forall_mem_cons.mp hbefore
    rw [List.cons_append, takeNext, ih hbefore]
    exact if_pos ha

variable (key) in
theorem exists_isNext (h : l ≠ []) : ∃ x rest, IsNext key l x rest := by
  have hne : takeNext key l ≠ none := fun hnone ↦ h (takeNext_eq_none.mp hnone)
  obtain ⟨⟨x, rest⟩, hnext⟩ := Option.ne_none_iff_exists'.mp hne
  exact ⟨x, rest, takeNext_eq_some.mp hnext⟩

theorem IsNext.unique {x' : P} {rest' : List P} (h : IsNext key l x rest)
    (h' : IsNext key l x' rest') : x = x' ∧ rest = rest' := by
  have hsame := (takeNext_eq_some.mpr h).symm.trans (takeNext_eq_some.mpr h')
  exact Prod.mk.inj (Option.some_inj.mp hsame)

/-! ## Stable sorting -/

variable (key) in
/-- `s` is `l`, stably sorted by descending key. -/
structure IsStableSort (l s : List P) : Prop where
  sorted : s.Pairwise fun a b ↦ key b ≤ key a
  /-- Elements of one key stand in the order in which they arrived. -/
  filter_eq : ∀ k, s.filter (fun y ↦ key y = k) = l.filter fun y ↦ key y = k

theorem isStableSort_nil : IsStableSort key ([] : List P) [] :=
  ⟨List.Pairwise.nil, fun _ ↦ rfl⟩

variable {s : List P}

theorem IsStableSort.mem_iff (h : IsStableSort key l s) {y : P} : y ∈ s ↔ y ∈ l := by
  have hfilter := congrArg (y ∈ ·) (h.filter_eq (key y))
  simpa using hfilter

theorem IsStableSort.eq_nil_iff (h : IsStableSort key l s) : s = [] ↔ l = [] := by
  simp only [List.eq_nil_iff_forall_not_mem, h.mem_iff]

/-- An element that arrives goes behind those of at least its key. -/
theorem IsStableSort.insert (h : IsStableSort key l s) (p : P) :
    IsStableSort key (l ++ [p]) (StableQueue.insert key p s) := by
  refine ⟨StableQueue.pairwise_insert p h.sorted, fun k ↦ ?_⟩
  rw [StableQueue.filter_insert h.sorted, h.filter_eq, List.filter_append, List.filter_singleton]
  simp

/-- **The head of the sorted list is the next element**, and its tail is what is left, sorted. -/
theorem IsStableSort.isNext (h : IsStableSort key l (x :: s)) :
    ∃ rest, IsNext key l x rest ∧ IsStableSort key rest s := by
  obtain ⟨hle, hsorted⟩ := List.pairwise_cons.mp h.sorted
  have hmax : ∀ y ∈ l, key y ≤ key x := by
    intro y hy
    rcases List.mem_cons.mp (h.mem_iff.mpr hy) with rfl | hy
    · exact le_rfl
    · exact hle y hy
  have hfilter := h.filter_eq (key x)
  rw [List.filter_cons_of_pos (by simp)] at hfilter
  obtain ⟨l₁, l₂, rfl, hne, -, hl₂⟩ := List.filter_eq_cons_iff.mp hfilter.symm
  refine ⟨l₁ ++ l₂, ⟨l₁, l₂, rfl, rfl, fun y hy ↦ ?_, fun y hy ↦ hmax y (by simp [hy])⟩, hsorted,
    fun k ↦ ?_⟩
  · exact lt_of_le_of_ne (hmax y (by simp [hy])) (by simpa using hne y hy)
  · by_cases hk : key x = k
    · -- before `x` there is no element of its key
      subst hk
      have hnone : l₁.filter (fun y ↦ key y = key x) = [] := List.filter_eq_nil_iff.mpr hne
      rw [List.filter_append, hnone, List.nil_append, hl₂]
    · have hall := h.filter_eq k
      rw [List.filter_cons_of_neg (by simpa using hk), List.filter_append,
        List.filter_cons_of_neg (by simpa using hk)] at hall
      rw [hall, List.filter_append]

theorem IsStableSort.eq_cons (h : IsStableSort key l s) (hx : IsNext key l x rest) :
    ∃ t, s = x :: t ∧ IsStableSort key rest t := by
  cases s with
  | nil => exact absurd hx.mem (by simp [h.eq_nil_iff.mp rfl])
  | cons y t =>
    obtain ⟨rest', hy, ht⟩ := h.isNext
    obtain ⟨rfl, rfl⟩ := hx.unique hy
    exact ⟨t, rfl, ht⟩

/-! ## The system -/

section System

variable {P : Type*} (priority : P → ℕ) (n : ℕ)

/-- The waiting list of elements with priorities below `n`. What is popped is emitted. -/
def system : System (List P) (QueueOp P) P where
  step
    | l, .push p => if priority p < n then some (l ++ [p], []) else none
    | l, .pop => (takeNext priority l).map fun r ↦ (r.2, [r.1])

variable {priority n} {l l' popped : List P} {ops : List (QueueOp P)}

theorem step_push_eq_some {p : P} {r : List P × List P} :
    (system priority n).step l (.push p) = some r ↔ priority p < n ∧ r = (l ++ [p], []) := by
  simp only [system]
  split_ifs with hp
  · simp [hp, eq_comm]
  · simp [hp]

theorem step_pop_eq_some {r : List P × List P} :
    (system priority n).step l .pop = some r ↔
      ∃ x rest, IsNext priority l x rest ∧ r = (rest, [x]) := by
  simp only [system, Option.map_eq_some_iff, Prod.exists, takeNext_eq_some, eq_comm (a := r)]

/-- What was pushed has been popped or waits, what waits stands in the order of arrival, and every
pop takes one element. -/
theorem run_history (hrun : (system priority n).run l ops = some (l', popped)) :
    (l ++ QueueOp.pushed ops).Perm (popped ++ l') ∧ l'.Sublist (l ++ QueueOp.pushed ops) ∧
      popped.length = QueueOp.pops ops := by
  induction ops generalizing l popped with
  | nil =>
    obtain ⟨rfl, rfl⟩ : l = l' ∧ [] = popped := by simpa using hrun
    simp [QueueOp.pushed, QueueOp.pops]
  | cons op ops ih =>
    obtain ⟨t, es, fs, hstep, hrest, rfl⟩ := System.run_cons_eq_some.mp hrun
    obtain ⟨hperm, hsublist, hlength⟩ := ih hrest
    cases op with
    | push p =>
      obtain ⟨rfl, rfl⟩ := Prod.mk.inj (step_push_eq_some.mp hstep).2
      rw [List.append_assoc] at hperm hsublist
      exact ⟨hperm, hsublist, hlength⟩
    | pop =>
      obtain ⟨x, rest, hnext, hr⟩ := step_pop_eq_some.mp hstep
      obtain ⟨rfl, rfl⟩ := Prod.mk.inj hr
      refine ⟨(hnext.perm.append_right _).trans (hperm.cons x),
        hsublist.trans (hnext.sublist.append_right _), ?_⟩
      rw [QueueOp.pops_cons_pop, ← hlength]
      rfl

/-- Nothing waits exactly if as many elements were popped as pushed. -/
theorem eq_nil_iff_of_run (hrun : (system priority n).run [] ops = some (l, popped)) :
    l = [] ↔ QueueOp.pops ops = (QueueOp.pushed ops).length := by
  obtain ⟨hperm, -, hpops⟩ := run_history hrun
  have hlength := hperm.length_eq
  rw [List.nil_append, List.length_append, hpops] at hlength
  rw [← List.length_eq_zero_iff]
  omega

end System

end WaitingList

end PushService
