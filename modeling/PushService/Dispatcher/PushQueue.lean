import PushService.Queue.StableQueue

/-!
# `PushQueue`

The container of `dispatcher.cpp`: one deque per priority and, in `current_deq_`, the number of the
non-empty deque of highest priority. `priority` stands for `static_cast<int>(push->priority)`.

Where the C++ code has undefined behaviour (an index out of range, `*current_deq_` of an empty
optional, `front` or `pop_front` of an empty deque) the model returns `none`.

## Refinement

`Refines q s` says that the container is well formed and that its deques, read from the highest
priority down, are the abstract queue `s`. Every operation refines its abstract counterpart, and on
a non-empty queue none of them reaches undefined behaviour.
-/

namespace PushService

/-- `PushQueue`. -/
structure PushQueue (P : Type*) where
  /-- `priority_queues_` -/
  priorityQueues : List (List P)
  /-- `current_deq_` -/
  currentDeq : Option ℕ
  deriving DecidableEq, Repr

namespace PushQueue

variable {P : Type*} (priority : P → ℕ)

/-- The constructor `PushQueue(priority_count)`. -/
def ofCount (priorityCount : ℕ) : PushQueue P := ⟨List.replicate priorityCount [], none⟩

def push (q : PushQueue P) (p : P) : Option (PushQueue P) :=
  let deqIndex := priority p
  match q.priorityQueues[deqIndex]? with
  | none => none
  | some deq =>
    let queues := q.priorityQueues.set deqIndex (deq ++ [p])
    match q.currentDeq with
    | some c => if c > deqIndex then some ⟨queues, some c⟩ else some ⟨queues, some deqIndex⟩
    | none => some ⟨queues, some deqIndex⟩

def front (q : PushQueue P) : Option P :=
  match q.currentDeq with
  | none => none
  | some c =>
    match q.priorityQueues[c]? with
    | none => none
    | some deq => deq.head?

/-- The loop of `UpdateCurrentDeq`: the first non-empty deque below `i`. The indices visited are
below one that was in range. -/
def findBelow (queues : List (List P)) : ℕ → Option ℕ
  | 0 => none
  | i + 1 =>
    match queues[i]? with
    | some (_ :: _) => some i
    | _ => findBelow queues i

def updateCurrentDeq (q : PushQueue P) : PushQueue P :=
  match q.currentDeq with
  | none => q
  | some c =>
    match q.priorityQueues[c]? with
    | some (_ :: _) => q
    | _ => ⟨q.priorityQueues, findBelow q.priorityQueues c⟩

def pop (q : PushQueue P) : Option (PushQueue P) :=
  match q.currentDeq with
  | none => none
  | some c =>
    match q.priorityQueues[c]? with
    | some (_ :: deq) => some (updateCurrentDeq ⟨q.priorityQueues.set c deq, some c⟩)
    | _ => none

def empty (q : PushQueue P) : Bool := q.currentDeq.isNone

theorem pop_of_empty {q : PushQueue P} (h : q.empty = true) : q.pop = none := by
  rw [pop, Option.isNone_iff_eq_none.mp h]

/-! ## Cutting the deques at an index -/

theorem exists_split {α : Type*} {l : List α} {i : ℕ} {x : α} (h : l[i]? = some x) :
    ∃ lo hi, l = lo ++ x :: hi ∧ lo.length = i := by
  obtain ⟨hlt, rfl⟩ := List.getElem?_eq_some_iff.mp h
  refine ⟨l.take i, l.drop (i + 1), ?_, List.length_take_of_le hlt.le⟩
  rw [List.getElem_cons_drop, List.take_append_drop]

private theorem getElem?_split {α : Type*} (lo hi : List α) (x : α) :
    (lo ++ x :: hi)[lo.length]? = some x := by
  rw [List.getElem?_append_right le_rfl, Nat.sub_self, List.getElem?_cons_zero]

private theorem set_split {α : Type*} (lo hi : List α) (x y : α) :
    (lo ++ x :: hi).set lo.length y = lo ++ y :: hi := by
  rw [List.set_append_right _ _ le_rfl, Nat.sub_self, List.set_cons_zero]

/-! ## Well-formedness -/

/-- The elements, highest priority first and within a priority in the order of their deque. -/
def contents (q : PushQueue P) : List P := q.priorityQueues.reverse.flatten

/-- `i` is the largest index of a non-empty deque. -/
def IsTop (queues : List (List P)) (i : ℕ) : Prop :=
  (∃ x xs, queues[i]? = some (x :: xs)) ∧ ∀ j, i < j → ∀ d, queues[j]? = some d → d = []

/-- The invariant of the container. -/
structure WellFormed (q : PushQueue P) : Prop where
  /-- Deque `i` holds pushes of priority `i`. -/
  priority_eq : ∀ i d, q.priorityQueues[i]? = some d → ∀ p ∈ d, priority p = i
  /-- Without a current deque all deques are empty. -/
  none_iff : q.currentDeq = none → ∀ d ∈ q.priorityQueues, d = []
  /-- The current deque is the largest non-empty one. -/
  isTop : ∀ c, q.currentDeq = some c → IsTop q.priorityQueues c

variable {priority}

theorem flatten_eq_nil_of_all {l : List (List P)} (h : ∀ d ∈ l, d = []) : l.flatten = [] :=
  List.flatten_eq_nil_iff.mpr h

theorem contents_split {lo hi : List (List P)} {d : List P} {c : Option ℕ} :
    contents ⟨lo ++ d :: hi, c⟩ = hi.reverse.flatten ++ d ++ lo.reverse.flatten := by
  simp [contents]

theorem contents_of_isTop {lo hi : List (List P)} {d : List P} {c : Option ℕ}
    (h : ∀ e ∈ hi, e = []) : contents ⟨lo ++ d :: hi, c⟩ = d ++ lo.reverse.flatten := by
  rw [contents_split, flatten_eq_nil_of_all (by simpa using h), List.nil_append]

/-- Elements of the deques above and below a cut have priorities above and below it. -/
theorem WellFormed.priority_hi {q : PushQueue P} (hq : q.WellFormed priority)
    {lo hi : List (List P)} {d : List P} (h : q.priorityQueues = lo ++ d :: hi) {p : P}
    (hp : p ∈ hi.reverse.flatten) : lo.length < priority p := by
  obtain ⟨e, he, hpe⟩ := List.mem_flatten.mp hp
  obtain ⟨j, hj⟩ := List.mem_iff_getElem?.mp (List.mem_reverse.mp he)
  have hget : q.priorityQueues[lo.length + (j + 1)]? = some e := by
    rw [h, List.getElem?_append_right (by omega)]
    simpa using hj
  have := hq.priority_eq _ e hget p hpe
  omega

theorem WellFormed.priority_lo {q : PushQueue P} (hq : q.WellFormed priority)
    {lo hi : List (List P)} {d : List P} (h : q.priorityQueues = lo ++ d :: hi) {p : P}
    (hp : p ∈ lo.reverse.flatten) : priority p < lo.length := by
  obtain ⟨e, he, hpe⟩ := List.mem_flatten.mp hp
  obtain ⟨j, hj⟩ := List.mem_iff_getElem?.mp (List.mem_reverse.mp he)
  have hlt : j < lo.length := (List.getElem?_eq_some_iff.mp hj).1
  have hget : q.priorityQueues[j]? = some e := by
    rw [h, List.getElem?_append_left hlt, hj]
  rwa [hq.priority_eq _ e hget p hpe]

theorem WellFormed.priority_at {q : PushQueue P} (hq : q.WellFormed priority)
    {lo hi : List (List P)} {d : List P} (h : q.priorityQueues = lo ++ d :: hi) {p : P}
    (hp : p ∈ d) : priority p = lo.length :=
  hq.priority_eq _ d (by rw [h, getElem?_split]) p hp

/-- Replacing one deque keeps every deque on its own priority. -/
theorem WellFormed.priority_set {q : PushQueue P} (hq : q.WellFormed priority)
    {lo hi : List (List P)} {d e : List P} (h : q.priorityQueues = lo ++ d :: hi)
    (he : ∀ p ∈ e, priority p = lo.length) :
    ∀ i f, (lo ++ e :: hi)[i]? = some f → ∀ p ∈ f, priority p = i := by
  intro i f hf p hp
  by_cases hi : i = lo.length
  · subst hi
    rw [getElem?_split, Option.some_inj] at hf
    subst hf
    exact he p hp
  · refine hq.priority_eq i f ?_ p hp
    rw [h, ← hf, ← set_split lo _ d e, List.getElem?_set_ne (Ne.symm hi)]

/-! ## The loop of `UpdateCurrentDeq` -/

theorem findBelow_eq_none {queues : List (List P)} {i : ℕ} (h : findBelow queues i = none) :
    ∀ j < i, ∀ d, queues[j]? = some d → d = [] := by
  induction i with
  | zero => intro j hj; omega
  | succ i ih =>
    intro j hj d hd
    rw [findBelow] at h
    split at h
    · exact absurd h (by simp)
    · rename_i hne
      rcases Nat.lt_succ_iff_lt_or_eq.mp hj with hlt | rfl
      · exact ih h j hlt d hd
      · cases d with
        | nil => rfl
        | cons x xs => exact absurd hd (hne x xs)

theorem findBelow_eq_some {queues : List (List P)} {i k : ℕ} (h : findBelow queues i = some k) :
    k < i ∧ (∃ x xs, queues[k]? = some (x :: xs)) ∧
      ∀ j, k < j → j < i → ∀ d, queues[j]? = some d → d = [] := by
  induction i with
  | zero => exact absurd h (by simp [findBelow])
  | succ i ih =>
    rw [findBelow] at h
    split at h
    · rename_i x xs hget
      obtain rfl : i = k := by simpa using h
      exact ⟨Nat.lt_succ_self i, ⟨x, xs, hget⟩, fun j hj hj' ↦ by omega⟩
    · rename_i hne
      obtain ⟨hlt, hex, hrest⟩ := ih h
      refine ⟨by omega, hex, fun j hj hj' d hd ↦ ?_⟩
      rcases Nat.lt_succ_iff_lt_or_eq.mp hj' with hji | rfl
      · exact hrest j hj hji d hd
      · cases d with
        | nil => rfl
        | cons x xs => exact absurd hd (hne x xs)

/-- The loop, started at an index from which all deques are empty, finds the largest non-empty
one. -/
theorem findBelow_spec {queues : List (List P)} {i : ℕ}
    (habove : ∀ j, i ≤ j → ∀ d, queues[j]? = some d → d = []) :
    (findBelow queues i = none → ∀ d ∈ queues, d = []) ∧
      ∀ k, findBelow queues i = some k → IsTop queues k := by
  refine ⟨fun h d hd ↦ ?_, fun k h ↦ ?_⟩
  · obtain ⟨j, hj⟩ := List.mem_iff_getElem?.mp hd
    rcases Nat.lt_or_ge j i with hlt | hge
    · exact findBelow_eq_none h j hlt d hj
    · exact habove j hge d hj
  · obtain ⟨hlt, hex, hrest⟩ := findBelow_eq_some h
    refine ⟨hex, fun j hj d hd ↦ ?_⟩
    rcases Nat.lt_or_ge j i with hji | hji
    · exact hrest j hj hji d hd
    · exact habove j hji d hd

/-! ## Refinement of the abstract queue -/

/-- The container is well formed and holds what the abstract queue holds, in its order. -/
structure Refines (q : PushQueue P) (s : StableQueue priority) : Prop where
  wellFormed : q.WellFormed priority
  contents_eq : q.contents = s.elems

theorem IsTop.exists_split {queues : List (List P)} {c : ℕ} (h : IsTop queues c) :
    ∃ lo x xs hi, queues = lo ++ (x :: xs) :: hi ∧ lo.length = c ∧ ∀ d ∈ hi, d = [] := by
  obtain ⟨⟨x, xs, hget⟩, habove⟩ := h
  obtain ⟨lo, hi, rfl, rfl⟩ := PushQueue.exists_split hget
  refine ⟨lo, x, xs, hi, rfl, rfl, fun d hd ↦ ?_⟩
  obtain ⟨j, hj⟩ := List.mem_iff_getElem?.mp hd
  apply habove (lo.length + (j + 1)) (by omega) d
  rw [List.getElem?_append_right (by omega)]
  simpa using hj

theorem refines_ofCount (n : ℕ) : Refines (ofCount n) (StableQueue.nil : StableQueue priority) where
  wellFormed :=
    { priority_eq := fun i d hd p hp ↦ by
        obtain rfl : d = [] := List.eq_of_mem_replicate (List.mem_of_getElem? hd)
        exact absurd hp (by simp)
      none_iff := fun _ d hd ↦ List.eq_of_mem_replicate hd
      isTop := fun c hc ↦ absurd hc (by simp [ofCount]) }
  contents_eq := by
    rw [contents, ofCount, List.reverse_replicate]
    exact flatten_eq_nil_of_all fun d hd ↦ List.eq_of_mem_replicate hd

theorem Refines.empty_iff {q : PushQueue P} {s : StableQueue priority} (h : q.Refines s) :
    q.empty = true ↔ s.front = none := by
  rw [empty, Option.isNone_iff_eq_none, StableQueue.front_eq_none, ← h.contents_eq]
  constructor
  · intro hnone
    exact flatten_eq_nil_of_all fun d hd ↦ h.wellFormed.none_iff hnone d (List.mem_reverse.mp hd)
  · intro hnil
    cases hc : q.currentDeq with
    | none => rfl
    | some c =>
      obtain ⟨⟨x, xs, hget⟩, -⟩ := h.wellFormed.isTop c hc
      have hmem : x :: xs ∈ q.priorityQueues.reverse :=
        List.mem_reverse.mpr (List.mem_of_getElem? hget)
      exact absurd (List.flatten_eq_nil_iff.mp hnil _ hmem) (List.cons_ne_nil x xs)

theorem Refines.empty_iff_contents {q : PushQueue P} {s : StableQueue priority} (h : q.Refines s) :
    q.empty = true ↔ q.contents = [] := by
  rw [h.empty_iff, StableQueue.front_eq_none, h.contents_eq]

/-- What a non-empty container looks like around its current deque. -/
theorem Refines.split_of_front {q : PushQueue P} {s : StableQueue priority} (h : q.Refines s)
    {x : P} (hx : s.front = some x) :
    ∃ lo xs hi, q = ⟨lo ++ (x :: xs) :: hi, some lo.length⟩ ∧ (∀ d ∈ hi, d = []) ∧
      s.pop.elems = xs ++ lo.reverse.flatten := by
  obtain ⟨queues, c?⟩ := q
  cases c? with
  | none =>
    have hnone : s.front = none := h.empty_iff.mp rfl
    exact absurd (hnone.symm.trans hx) (by simp)
  | some c =>
    obtain ⟨lo, y, ys, hi, rfl, rfl, hhi⟩ := (h.wellFormed.isTop c rfl).exists_split
    have hcontents := h.contents_eq
    rw [contents_of_isTop hhi, StableQueue.elems_eq_cons hx, List.cons_append,
      List.cons.injEq] at hcontents
    obtain ⟨rfl, htail⟩ := hcontents
    exact ⟨lo, ys, hi, rfl, hhi, htail.symm⟩

/-- **`front` refines the abstract front**; on an empty container it is undefined. -/
theorem Refines.front_eq {q : PushQueue P} {s : StableQueue priority} (h : q.Refines s) :
    q.front = s.front := by
  cases hx : s.front with
  | none =>
    have hempty := h.empty_iff.mpr hx
    rw [empty, Option.isNone_iff_eq_none] at hempty
    rw [front, hempty]
  | some x =>
    obtain ⟨lo, xs, hi, rfl, -, -⟩ := h.split_of_front hx
    simp only [front, getElem?_split, List.head?_cons]

/-- **`push` refines the abstract push.** -/
theorem Refines.push {q : PushQueue P} {s : StableQueue priority} (h : q.Refines s) {p : P}
    (hp : priority p < q.priorityQueues.length) :
    ∃ q', q.push priority p = some q' ∧ q'.Refines (s.push p) ∧
      q'.priorityQueues.length = q.priorityQueues.length := by
  obtain ⟨lo, hi, hsplit, hlen⟩ := PushQueue.exists_split (List.getElem?_eq_getElem hp)
  set d := q.priorityQueues[priority p]
  have hget : q.priorityQueues[priority p]? = some d := List.getElem?_eq_getElem hp
  have hset : q.priorityQueues.set (priority p) (d ++ [p]) = lo ++ (d ++ [p]) :: hi := by
    rw [hsplit, ← hlen, set_split]
  have hcontents : ∀ c, contents ⟨lo ++ (d ++ [p]) :: hi, c⟩ = (s.push p).elems := by
    intro c
    have hold : q.contents = hi.reverse.flatten ++ d ++ lo.reverse.flatten := by
      rw [contents, hsplit]
      simp
    rw [contents_split, StableQueue.push_elems, ← h.contents_eq, hold, StableQueue.insert_append]
    · simp
    · intro a ha
      rcases List.mem_append.mp ha with ha | ha
      · exact hlen ▸ (h.wellFormed.priority_hi hsplit ha).le
      · exact (hlen ▸ h.wellFormed.priority_at hsplit ha).ge
    · exact fun b hb ↦ hlen ▸ h.wellFormed.priority_lo hsplit hb
  have hprio : ∀ i f, (lo ++ (d ++ [p]) :: hi)[i]? = some f → ∀ r ∈ f, priority r = i := by
    refine h.wellFormed.priority_set hsplit fun r hr ↦ ?_
    rcases List.mem_append.mp hr with hr | hr
    · exact h.wellFormed.priority_at hsplit hr
    · rw [List.mem_singleton.mp hr, hlen]
  -- the deque pushed to is the top one as soon as nothing lies above it
  have htop : (∀ j, priority p < j → ∀ e, q.priorityQueues[j]? = some e → e = []) →
      IsTop (lo ++ (d ++ [p]) :: hi) (priority p) := by
    intro habove
    refine ⟨?_, fun j hj e he ↦ habove j hj e ?_⟩
    · rw [← hlen, getElem?_split]
      cases d with
      | nil => exact ⟨p, [], rfl⟩
      | cons y ys => exact ⟨y, ys ++ [p], rfl⟩
    · rw [← he, ← hset, List.getElem?_set_ne (by omega)]
  have hlength : (lo ++ (d ++ [p]) :: hi).length = q.priorityQueues.length := by
    rw [hsplit]
    simp
  rw [PushQueue.push, hget]
  simp only [hset]
  cases hc : q.currentDeq with
  | none =>
    refine ⟨_, rfl, ⟨⟨hprio, by simp, fun c hc' ↦ ?_⟩, hcontents _⟩, hlength⟩
    obtain rfl : priority p = c := by simpa using hc'
    exact htop fun j _ e he ↦ h.wellFormed.none_iff hc e (List.mem_of_getElem? he)
  | some c =>
    obtain ⟨⟨x, xs, hgetc⟩, habove⟩ := h.wellFormed.isTop c hc
    dsimp only
    split_ifs with hgt
    · refine ⟨_, rfl, ⟨⟨hprio, by simp, fun c' hc' ↦ ?_⟩, hcontents _⟩, hlength⟩
      obtain rfl : c = c' := by simpa using hc'
      refine ⟨⟨x, xs, ?_⟩, fun j hj e he ↦ habove j hj e ?_⟩
      · rw [← hset, List.getElem?_set_ne (by omega), hgetc]
      · rw [← he, ← hset, List.getElem?_set_ne (by omega)]
    · refine ⟨_, rfl, ⟨⟨hprio, by simp, fun c' hc' ↦ ?_⟩, hcontents _⟩, hlength⟩
      obtain rfl : priority p = c' := by simpa using hc'
      exact htop fun j hj e he ↦ habove j (by omega) e he

/-- **`pop` refines the abstract pop** on a non-empty container. -/
theorem Refines.pop {q : PushQueue P} {s : StableQueue priority} (h : q.Refines s) {x : P}
    (hx : s.front = some x) :
    ∃ q', q.pop = some q' ∧ q'.Refines s.pop ∧
      q'.priorityQueues.length = q.priorityQueues.length := by
  obtain ⟨lo, xs, hi, rfl, hhi, hpop⟩ := h.split_of_front hx
  have hprio : ∀ i f, (lo ++ xs :: hi)[i]? = some f → ∀ r ∈ f, priority r = i :=
    h.wellFormed.priority_set rfl fun r hr ↦
      h.wellFormed.priority_at rfl (List.mem_cons_of_mem x hr)
  have hcontents : ∀ c, contents ⟨lo ++ xs :: hi, c⟩ = s.pop.elems := by
    intro c
    rw [contents_of_isTop hhi, hpop]
  have habove : ∀ j, lo.length < j → ∀ e, (lo ++ xs :: hi)[j]? = some e → e = [] := by
    intro j hj e he
    obtain ⟨k, rfl⟩ : ∃ k, j = lo.length + (k + 1) := ⟨j - lo.length - 1, by omega⟩
    rw [List.getElem?_append_right (by omega),
      show lo.length + (k + 1) - lo.length = k + 1 by omega, List.getElem?_cons_succ] at he
    exact hhi e (List.mem_of_getElem? he)
  rw [PushQueue.pop]
  simp only [getElem?_split, set_split, updateCurrentDeq]
  cases xs with
  | cons y ys =>
    refine ⟨_, rfl, ⟨⟨hprio, by simp, fun c hc ↦ ?_⟩, hcontents _⟩, by simp⟩
    obtain rfl : lo.length = c := by simpa using hc
    exact ⟨⟨y, ys, getElem?_split lo hi (y :: ys)⟩, habove⟩
  | nil =>
    have hempty : ∀ j, lo.length ≤ j → ∀ e, (lo ++ [] :: hi)[j]? = some e → e = [] := by
      intro j hj e he
      rcases Nat.eq_or_lt_of_le hj with rfl | hj
      · rw [getElem?_split] at he
        exact (Option.some_inj.mp he).symm
      · exact habove j hj e he
    have hspec := findBelow_spec hempty
    exact ⟨_, rfl, ⟨⟨hprio, hspec.1, hspec.2⟩, hcontents _⟩, by simp⟩

/-! ## Opaque elements -/

section Map

variable {R : Type*} {priority' : R → ℕ} {f : P → R}

/-- The container with every element replaced. -/
def map (f : P → R) (q : PushQueue P) : PushQueue R :=
  ⟨q.priorityQueues.map (List.map f), q.currentDeq⟩

theorem push_map (hf : ∀ p, priority' (f p) = priority p) (q : PushQueue P) (p : P) :
    (q.map f).push priority' (f p) = (q.push priority p).map (map f) := by
  rw [PushQueue.push, PushQueue.push, hf]
  simp only [map, List.getElem?_map]
  cases q.priorityQueues[priority p]? with
  | none => rfl
  | some deq =>
    have hset : (q.priorityQueues.map (List.map f)).set (priority p) (deq.map f ++ [f p])
        = (q.priorityQueues.set (priority p) (deq ++ [p])).map (List.map f) := by
      rw [List.map_set, List.map_append]
      rfl
    simp only [Option.map_some, hset]
    cases q.currentDeq with
    | none => rfl
    | some c =>
      dsimp only
      split_ifs <;> rfl

theorem front_map (f : P → R) (q : PushQueue P) : (q.map f).front = q.front.map f := by
  rw [front, front]
  simp only [map, List.getElem?_map]
  cases q.currentDeq with
  | none => rfl
  | some c =>
    dsimp only
    cases q.priorityQueues[c]? with
    | none => rfl
    | some deq => exact List.head?_map ..

theorem findBelow_map (f : P → R) (queues : List (List P)) (i : ℕ) :
    findBelow (queues.map (List.map f)) i = findBelow queues i := by
  induction i with
  | zero => rfl
  | succ i ih =>
    rw [findBelow, findBelow, List.getElem?_map, ih]
    rcases queues[i]? with _ | _ | ⟨x, xs⟩ <;> rfl

theorem updateCurrentDeq_map (f : P → R) (q : PushQueue P) :
    (q.map f).updateCurrentDeq = q.updateCurrentDeq.map f := by
  obtain ⟨queues, current⟩ := q
  rw [updateCurrentDeq, updateCurrentDeq]
  simp only [map, List.getElem?_map, findBelow_map]
  cases current with
  | none => rfl
  | some c =>
    dsimp only
    rcases queues[c]? with _ | _ | ⟨x, xs⟩ <;> rfl

theorem pop_map (f : P → R) (q : PushQueue P) : (q.map f).pop = q.pop.map (map f) := by
  rw [pop, pop]
  simp only [map, List.getElem?_map]
  cases q.currentDeq with
  | none => rfl
  | some c =>
    dsimp only
    rcases q.priorityQueues[c]? with _ | _ | ⟨x, xs⟩
    · rfl
    · rfl
    · rw [Option.map_some, Option.map_some, ← updateCurrentDeq_map, map, List.map_set]
      rfl

end Map

end PushQueue

end PushService
