import Mathlib.Data.List.Basic
import Mathlib.Data.Option.Basic

/-!
# Systems with outputs, and their runs

A *system* is a partial step function with outputs: in state `s` the action `a` is either not
enabled, or it leads to one next state and emits finitely many outputs. All nondeterminism (which
thread moves, what the network answers) sits in the action, so a run is determined by its list of
actions and quantifying over runs is quantifying over lists.

## Histories and conditions

The outputs of a run are its history. `run_induction` is the one induction over runs: an invariant
may speak about the state *and* the history so far, and it may use that every step meets a
condition `C` on the state before the step and the action. A plain safety invariant is the case
where `C` is trivial; a law that only holds on well-behaved runs is the case where it is not. What a
run changes and what it emits meanwhile is the subject of `run_relates`.

## Silence

"From here on nothing bad is ever emitted" is `Silent`. Its negation is a reachability statement,
and `Emits` is the form in which a bad run is put together one step at a time, from its end.
-/

namespace PushService

/-- A labelled system with states `σ`, actions `α` and outputs `ω`. -/
structure System (σ α ω : Type*) where
  /-- The next state and the outputs, or `none` where the action is not enabled. -/
  step : σ → α → Option (σ × List ω)

namespace System

variable {σ α ω : Type*} (M : System σ α ω)

/-! ## Runs -/

/-- Perform the actions in order, collecting the outputs. -/
def run : σ → List α → Option (σ × List ω)
  | s, [] => some (s, [])
  | s, a :: as =>
    match M.step s a with
    | none => none
    | some (t, es) => (run t as).map fun r ↦ (r.1, es ++ r.2)

@[simp] theorem run_nil (s : σ) : M.run s [] = some (s, []) := rfl

variable {M}

theorem run_cons_eq_some {s u : σ} {a : α} {as : List α} {hs : List ω} :
    M.run s (a :: as) = some (u, hs) ↔
      ∃ t es fs, M.step s a = some (t, es) ∧ M.run t as = some (u, fs) ∧ hs = es ++ fs := by
  rw [run]
  cases hstep : M.step s a with
  | none => simp
  | some r =>
    obtain ⟨t, es⟩ := r
    simp only [Option.map_eq_some_iff, Prod.mk.injEq, Prod.exists, Option.some.injEq]
    constructor
    · rintro ⟨v, fs, hrun, rfl, rfl⟩
      exact ⟨t, es, fs, ⟨rfl, rfl⟩, hrun, rfl⟩
    · rintro ⟨t', es', fs, ⟨rfl, rfl⟩, hrun, rfl⟩
      exact ⟨u, fs, hrun, rfl, rfl⟩

theorem run_singleton {s t : σ} {a : α} {es : List ω} (h : M.step s a = some (t, es)) :
    M.run s [a] = some (t, es) :=
  run_cons_eq_some.mpr ⟨t, es, [], h, rfl, (List.append_nil es).symm⟩

/-- A system in which every action is always enabled has a run over every list of actions. -/
theorem exists_run (h : ∀ s a, ∃ r, M.step s a = some r) (s : σ) (as : List α) :
    ∃ t es, M.run s as = some (t, es) := by
  induction as generalizing s with
  | nil => exact ⟨s, [], rfl⟩
  | cons a as ih =>
    obtain ⟨⟨t, es⟩, hstep⟩ := h s a
    obtain ⟨u, fs, hrun⟩ := ih t
    exact ⟨u, es ++ fs, run_cons_eq_some.mpr ⟨t, es, fs, hstep, hrun, rfl⟩⟩

/-- A run over `as ++ bs` is a run over `as` continued by one over `bs`. -/
theorem run_append_eq_some {s u : σ} {as bs : List α} {hs : List ω} :
    M.run s (as ++ bs) = some (u, hs) ↔
      ∃ t es fs, M.run s as = some (t, es) ∧ M.run t bs = some (u, fs) ∧ hs = es ++ fs := by
  induction as generalizing s hs with
  | nil => simp
  | cons a as ih =>
    simp only [List.cons_append, run_cons_eq_some, ih]
    constructor
    · rintro ⟨v, es, gs, hstep, ⟨t, fs, ks, hrun, hrest, rfl⟩, rfl⟩
      exact ⟨t, es ++ fs, ks, ⟨v, es, fs, hstep, hrun, rfl⟩, hrest, (List.append_assoc ..).symm⟩
    · rintro ⟨t, gs, ks, ⟨v, es, fs, hstep, hrun, rfl⟩, hrest, rfl⟩
      exact ⟨v, es, fs ++ ks, hstep, ⟨t, fs, ks, hrun, hrest, rfl⟩, List.append_assoc ..⟩

/-! ## Conditions on the steps of a run -/

variable (M) in
/-- Every step of the run meets `C`, a condition on the state before the step and the action. -/
def Obeys (C : σ → α → Prop) : σ → List α → Prop
  | _, [] => True
  | s, a :: as => C s a ∧ ∀ r ∈ M.step s a, Obeys C r.1 as

instance instDecidableObeys (C : σ → α → Prop) [∀ s a, Decidable (C s a)] :
    ∀ s as, Decidable (M.Obeys C s as)
  | _, [] => isTrue trivial
  | s, a :: as =>
    haveI : ∀ t, Decidable (M.Obeys C t as) := fun t ↦ instDecidableObeys C t as
    inferInstanceAs (Decidable (C s a ∧ ∀ r ∈ M.step s a, M.Obeys C r.1 as))

@[simp] theorem obeys_nil {C : σ → α → Prop} {s : σ} : M.Obeys C s [] := trivial

theorem obeys_cons {C : σ → α → Prop} {s : σ} {a : α} {as : List α} :
    M.Obeys C s (a :: as) ↔ C s a ∧ ∀ r ∈ M.step s a, M.Obeys C r.1 as := Iff.rfl

/-- A condition on a run over `as ++ bs` is one on the run over `as` and one on what continues
it. -/
theorem obeys_append {C : σ → α → Prop} {s : σ} {as bs : List α} :
    M.Obeys C s (as ++ bs) ↔ M.Obeys C s as ∧ ∀ r ∈ M.run s as, M.Obeys C r.1 bs := by
  induction as generalizing s with
  | nil => simp
  | cons a as ih =>
    simp only [List.cons_append, obeys_cons, ih]
    constructor
    · rintro ⟨hC, hrest⟩
      refine ⟨⟨hC, fun r hr ↦ (hrest r hr).1⟩, fun ⟨u, hs⟩ hr ↦ ?_⟩
      obtain ⟨t, es, fs, hstep, hrun, -⟩ := run_cons_eq_some.mp hr
      exact (hrest (t, es) hstep).2 (u, fs) hrun
    · rintro ⟨⟨hC, hrest⟩, hbs⟩
      refine ⟨hC, fun r hr ↦ ⟨hrest r hr, fun q hq ↦ ?_⟩⟩
      exact hbs (q.1, r.2 ++ q.2) (run_cons_eq_some.mpr ⟨r.1, r.2, q.2, hr, hq, rfl⟩)

/-- A condition that only looks at the action is one on the list of actions. -/
theorem obeys_of_forall {A : α → Prop} {s : σ} {as : List α} (h : ∀ a ∈ as, A a) :
    M.Obeys (fun _ a ↦ A a) s as := by
  induction as generalizing s with
  | nil => trivial
  | cons a as ih =>
    exact ⟨h a List.mem_cons_self, fun r _ ↦ ih fun b hb ↦ h b (List.mem_cons_of_mem a hb)⟩

theorem obeys_of_all {C : σ → α → Prop} (h : ∀ s a, C s a) (s : σ) (as : List α) :
    M.Obeys C s as := by
  induction as generalizing s with
  | nil => trivial
  | cons a as ih => exact ⟨h s a, fun r _ ↦ ih r.1⟩

theorem Obeys.mono {C D : σ → α → Prop} (hCD : ∀ s a, C s a → D s a) {s : σ} {as : List α}
    (h : M.Obeys C s as) : M.Obeys D s as := by
  induction as generalizing s with
  | nil => trivial
  | cons a as ih => exact ⟨hCD s a h.1, fun r hr ↦ ih (h.2 r hr)⟩

theorem Obeys.and {C D : σ → α → Prop} {s : σ} {as : List α} (hC : M.Obeys C s as)
    (hD : M.Obeys D s as) : M.Obeys (fun s a ↦ C s a ∧ D s a) s as := by
  induction as generalizing s with
  | nil => trivial
  | cons a as ih => exact ⟨⟨hC.1, hD.1⟩, fun r hr ↦ ih (hC.2 r hr) (hD.2 r hr)⟩

/-- A run that does not meet its condition has a first step that breaks it. -/
theorem exists_first_breach {C : σ → α → Prop} {s t : σ} {as : List α} {es : List ω}
    (hrun : M.run s as = some (t, es)) (h : ¬M.Obeys C s as) :
    ∃ bs a cs u fs, as = bs ++ a :: cs ∧ M.run s bs = some (u, fs) ∧ M.Obeys C s bs ∧ ¬C u a := by
  induction as generalizing s es with
  | nil => exact absurd trivial h
  | cons a as ih =>
    by_cases hC : C s a
    · obtain ⟨v, gs, ks, hstep, hrest, -⟩ := run_cons_eq_some.mp hrun
      have hbreak : ¬M.Obeys C v as := fun hobeys ↦ h ⟨hC, fun r hr ↦ by
        rw [Option.mem_def, hstep, Option.some_inj] at hr
        rwa [← hr]⟩
      -- the breach comes later
      obtain ⟨bs, b, cs, u, fs, rfl, hbs, hobeys, hbreach⟩ := ih hrest hbreak
      refine ⟨a :: bs, b, cs, u, gs ++ fs, rfl,
        run_cons_eq_some.mpr ⟨v, gs, fs, hstep, hbs, rfl⟩, ⟨hC, fun r hr ↦ ?_⟩, hbreach⟩
      rw [Option.mem_def, hstep, Option.some_inj] at hr
      rwa [← hr]
    · exact ⟨[], a, as, s, [], rfl, rfl, trivial, hC⟩

/-! ## Induction over runs -/

/-- **Invariants over state and history.** What holds at the start and is preserved by every step
that meets `C` holds at the end of every run whose steps meet `C`. -/
theorem run_induction {C : σ → α → Prop} {I : σ → List ω → Prop}
    (hstep : ∀ {s h a t es}, I s h → C s a → M.step s a = some (t, es) → I t (h ++ es))
    {s t : σ} {h es : List ω} {as : List α} (hI : I s h) (hC : M.Obeys C s as)
    (hrun : M.run s as = some (t, es)) : I t (h ++ es) := by
  induction as generalizing s h es with
  | nil =>
    obtain ⟨rfl, rfl⟩ : s = t ∧ [] = es := by simpa using hrun
    rwa [List.append_nil]
  | cons a as ih =>
    obtain ⟨u, fs, gs, ha, hrest, rfl⟩ := run_cons_eq_some.mp hrun
    rw [← List.append_assoc]
    exact ih (hstep hI hC.1 ha) (hC.2 _ ha) hrest

/-- Invariants over every run, with no condition on the steps. -/
theorem run_invariant {I : σ → List ω → Prop}
    (hstep : ∀ {s h a t es}, I s h → M.step s a = some (t, es) → I t (h ++ es))
    {s t : σ} {h es : List ω} {as : List α} (hI : I s h)
    (hrun : M.run s as = some (t, es)) : I t (h ++ es) :=
  run_induction (C := fun _ _ ↦ True) (fun hI _ ↦ hstep hI) hI
    (obeys_of_all (fun _ _ ↦ trivial) s as) hrun

/-- A state invariant that also bounds what each step emits bounds what a run emits. -/
theorem run_outputs {C : σ → α → Prop} {I : σ → Prop} {P : ω → Prop}
    (hstep : ∀ {s a t es}, I s → C s a → M.step s a = some (t, es) → I t ∧ ∀ e ∈ es, P e)
    {s t : σ} {es : List ω} {as : List α} (hI : I s) (hC : M.Obeys C s as)
    (hrun : M.run s as = some (t, es)) : I t ∧ ∀ e ∈ es, P e := by
  have hind := run_induction (I := fun s h ↦ I s ∧ ∀ e ∈ h, P e) (h := [])
    (fun {s h a t es} hs ha hst ↦ ?_) ⟨hI, by simp⟩ hC hrun
  · simpa using hind
  · obtain ⟨ht, hes⟩ := hstep hs.1 ha hst
    refine ⟨ht, fun e he ↦ ?_⟩
    rcases List.mem_append.mp he with he | he
    · exact hs.2 e he
    · exact hes e he

/-- Where an invariant makes each step emit good outputs exactly if it meets `C`, a run emits good
outputs exactly if all its steps meet `C`. -/
theorem forall_outputs_iff_obeys {I : σ → Prop} {C : σ → α → Prop} {P : ω → Prop}
    (hstep : ∀ {s a t es}, I s → M.step s a = some (t, es) → I t ∧ ((∀ e ∈ es, P e) ↔ C s a))
    {s t : σ} {es : List ω} {as : List α} (hI : I s) (hrun : M.run s as = some (t, es)) :
    (∀ e ∈ es, P e) ↔ M.Obeys C s as := by
  induction as generalizing s es with
  | nil =>
    obtain ⟨rfl, rfl⟩ : s = t ∧ [] = es := by simpa using hrun
    simp
  | cons a as ih =>
    obtain ⟨u, fs, gs, ha, hrest, rfl⟩ := run_cons_eq_some.mp hrun
    obtain ⟨hu, hfs⟩ := hstep hI ha
    have htail : (∀ r ∈ M.step s a, M.Obeys C r.1 as) ↔ M.Obeys C u as := by simp [ha]
    rw [obeys_cons, htail, ← ih hu hrest, ← hfs]
    exact List.forall_mem_append

/-! ## Relations that compose -/

/-- A relation between the state before, what is emitted, and the state after, which holds of a
sequence of pieces if it holds of each. -/
structure Composes (R : σ → List ω → σ → Prop) : Prop where
  nil : ∀ s, R s [] s
  append : ∀ {s t u es fs}, R s es t → R t fs u → R s (es ++ fs) u

/-- What relates the two ends of every step relates the two ends of a run. -/
theorem run_relates {R : σ → List ω → σ → Prop} (hR : Composes R) {C : σ → α → Prop}
    (hstep : ∀ {s a t es}, C s a → M.step s a = some (t, es) → R s es t)
    {s t : σ} {es : List ω} {as : List α} (hC : M.Obeys C s as) (hrun : M.run s as = some (t, es)) :
    R s es t :=
  run_induction (I := fun t es ↦ R s es t) (h := [])
    (fun h ha hst ↦ hR.append h (hstep ha hst)) (hR.nil s) hC hrun

/-- What is open at the end has been open before or has been started, and has not been finished:
`opens` says which outputs start something, `closes` which finish it, and `load` counts what is
open. -/
def Balanced (load : σ → ℕ) (opens closes : ω → Bool) (s : σ) (es : List ω) (t : σ) : Prop :=
  load s + es.countP opens = es.countP closes + load t

theorem composes_balanced (load : σ → ℕ) (opens closes : ω → Bool) :
    Composes (Balanced load opens closes) where
  nil s := by simp [Balanced]
  append {s t u es fs} h h' := by
    rw [Balanced] at h h' ⊢
    rw [List.countP_append, List.countP_append]
    omega

/-- Outputs that neither start nor finish anything, with as much open as before. -/
theorem Balanced.of_silent {load : σ → ℕ} {opens closes : ω → Bool} {s t : σ} {es : List ω}
    (h : load t = load s) (hes : ∀ e ∈ es, opens e = false ∧ closes e = false) :
    Balanced load opens closes s es t := by
  have hopens : es.countP opens = 0 := List.countP_eq_zero.mpr fun e he ↦ by simp [hes e he]
  have hcloses : es.countP closes = 0 := List.countP_eq_zero.mpr fun e he ↦ by simp [hes e he]
  rw [Balanced, hopens, hcloses, h]
  omega

/-! ## Histories, output by output -/

/-- Every output stands in the relation `P` to what was emitted before it. -/
def EachOutput (P : List ω → ω → Prop) (h : List ω) : Prop :=
  ∀ h₁ e h₂, h = h₁ ++ e :: h₂ → P h₁ e

theorem eachOutput_nil {P : List ω → ω → Prop} : EachOutput P [] := by
  intro h₁ e h₂ h
  exact absurd h (by simp)

theorem EachOutput.append {P : List ω → ω → Prop} {h es : List ω} (hh : EachOutput P h)
    (hes : ∀ es₁ e es₂, es = es₁ ++ e :: es₂ → P (h ++ es₁) e) : EachOutput P (h ++ es) := by
  intro h₁ e h₂ heq
  -- the output is one of the new ones, or it was there before
  rcases List.append_eq_append_iff.mp heq with ⟨t, rfl, ht⟩ | ⟨t, rfl, ht⟩
  · exact hes t e h₂ ht
  · cases t with
    | nil =>
      have hnow := hes [] e h₂ ht.symm
      simpa using hnow
    | cons e' t =>
      obtain ⟨rfl, -⟩ := List.cons.inj ht
      exact hh h₁ e t rfl

theorem EachOutput.concat {P : List ω → ω → Prop} {h : List ω} {e : ω} (hh : EachOutput P h)
    (he : P h e) : EachOutput P (h ++ [e]) := by
  refine hh.append fun es₁ e' es₂ heq ↦ ?_
  cases es₁ with
  | nil =>
    obtain ⟨rfl, -⟩ := List.cons.inj heq
    rwa [List.append_nil]
  | cons e₁ es₁ => exact absurd (List.cons.inj heq).2 (by simp)

/-! ## Silence and its refutation -/

variable (M) in
/-- No run from `s` over actions in `A` ever emits an output in `B`. -/
def Silent (A : α → Prop) (B : ω → Prop) (s : σ) : Prop :=
  ∀ as t es, (∀ a ∈ as, A a) → M.run s as = some (t, es) → ∀ e ∈ es, ¬B e

variable (M) in
/-- Some run from `s` over actions in `A` emits an output in `B`. -/
def Emits (A : α → Prop) (B : ω → Prop) (s : σ) : Prop :=
  ∃ as t es, (∀ a ∈ as, A a) ∧ M.run s as = some (t, es) ∧ ∃ e ∈ es, B e

variable {A : α → Prop} {B : ω → Prop}

theorem emits_now {s t : σ} {a : α} {es : List ω} (ha : A a) (h : M.step s a = some (t, es))
    {e : ω} (he : e ∈ es) (hB : B e) : M.Emits A B s :=
  ⟨[a], t, es, by simpa using ha, run_singleton h, e, he, hB⟩

/-- A step towards a state that emits. -/
theorem Emits.of_step {s t : σ} {a : α} {es : List ω} (ha : A a)
    (h : M.step s a = some (t, es)) (ht : M.Emits A B t) : M.Emits A B s := by
  obtain ⟨as, u, fs, hA, hrun, e, he, hB⟩ := ht
  refine ⟨a :: as, u, es ++ fs, ?_, run_cons_eq_some.mpr ⟨t, es, fs, h, hrun, rfl⟩, e,
    List.mem_append_right es he, hB⟩
  intro b hb
  rcases List.mem_cons.mp hb with rfl | hb
  · exact ha
  · exact hA b hb

/-- Silence from an invariant that forbids the outputs. -/
theorem silent_of_invariant {I : σ → Prop}
    (hstep : ∀ {s a t es}, I s → A a → M.step s a = some (t, es) → I t ∧ ∀ e ∈ es, ¬B e)
    {s : σ} (hI : I s) : M.Silent A B s := fun _ _ _ hA hrun ↦
  (run_outputs (C := fun _ a ↦ A a) hstep hI (obeys_of_forall hA) hrun).2

/-! ## History variables -/

variable (M) in
/-- The system together with a summary of its history: `upd` folds each output into the summary.
The steps are those of `M`; conditions and invariants may look at the summary. -/
def observed {τ : Type*} (upd : τ → ω → τ) : System (σ × τ) α ω where
  step p a := (M.step p.1 a).map fun r ↦ ((r.1, r.2.foldl upd p.2), r.2)

theorem observed_step_eq_some {τ : Type*} {upd : τ → ω → τ} {p q : σ × τ} {a : α} {es : List ω} :
    (M.observed upd).step p a = some (q, es) ↔
      M.step p.1 a = some (q.1, es) ∧ q.2 = es.foldl upd p.2 := by
  obtain ⟨t, y⟩ := q
  simp only [observed, Option.map_eq_some_iff, Prod.mk.injEq, Prod.exists]
  constructor
  · rintro ⟨u, fs, hstep, ⟨rfl, rfl⟩, rfl⟩
    exact ⟨hstep, rfl⟩
  · rintro ⟨hstep, rfl⟩
    exact ⟨t, es, hstep, ⟨rfl, rfl⟩, rfl⟩

/-- Observing a system changes none of its runs: the summary is the fold over the history. -/
theorem run_observed {τ : Type*} {upd : τ → ω → τ} {s : σ} {x : τ} {as : List α} :
    (M.observed upd).run (s, x) as
      = (M.run s as).map fun r ↦ ((r.1, r.2.foldl upd x), r.2) := by
  induction as generalizing s x with
  | nil => rfl
  | cons a as ih =>
    cases hstep : M.step s a with
    | none => simp [run, observed, hstep]
    | some r =>
      obtain ⟨t, es⟩ := r
      have hobs : (M.observed upd).step (s, x) a = some ((t, es.foldl upd x), es) :=
        observed_step_eq_some.mpr ⟨hstep, rfl⟩
      simp only [run, hobs, hstep, ih, Option.map_map]
      congr 1
      funext r
      simp

theorem run_observed_of_run {τ : Type*} (upd : τ → ω → τ) {s t : σ} (x : τ) {as : List α}
    {h : List ω} (hrun : M.run s as = some (t, h)) :
    (M.observed upd).run (s, x) as = some ((t, h.foldl upd x), h) := by
  rw [run_observed, hrun, Option.map_some]

variable (M) in
/-- The system together with a record of its run: `upd` sees each step, with the state before it,
the action and the state after it. The steps are those of `M`. -/
def recorded {τ : Type*} (upd : τ → σ → α → σ → τ) : System (σ × τ) α ω where
  step p a := (M.step p.1 a).map fun r ↦ ((r.1, upd p.2 p.1 a r.1), r.2)

theorem recorded_step_eq_some {τ : Type*} {upd : τ → σ → α → σ → τ} {p q : σ × τ} {a : α}
    {es : List ω} : (M.recorded upd).step p a = some (q, es) ↔
      M.step p.1 a = some (q.1, es) ∧ q.2 = upd p.2 p.1 a q.1 := by
  obtain ⟨t, y⟩ := q
  simp only [recorded, Option.map_eq_some_iff, Prod.mk.injEq, Prod.exists]
  constructor
  · rintro ⟨u, fs, hstep, ⟨rfl, rfl⟩, rfl⟩
    exact ⟨hstep, rfl⟩
  · rintro ⟨hstep, rfl⟩
    exact ⟨t, es, hstep, ⟨rfl, rfl⟩, rfl⟩

/-! ## Views of a system -/

/-- `f` is a view of `M` in `N`: the steps of `M`, seen through `f`, are those of `N`. -/
def IsView {τ : Type*} (M : System σ α ω) (N : System τ α ω) (f : σ → τ) : Prop :=
  ∀ s a, N.step (f s) a = (M.step s a).map fun r ↦ (f r.1, r.2)

variable {τ : Type*} {N : System τ α ω} {f : σ → τ}

theorem IsView.run (hf : IsView M N f) (s : σ) (as : List α) :
    N.run (f s) as = (M.run s as).map fun r ↦ (f r.1, r.2) := by
  induction as generalizing s with
  | nil => rfl
  | cons a as ih =>
    rw [System.run, System.run, hf s a]
    cases M.step s a with
    | none => rfl
    | some r =>
      simp only [Option.map_some, ih, Option.map_map]
      rfl

/-- A condition on what is seen holds along a run if and only if it holds of what is seen. -/
theorem IsView.obeys (hf : IsView M N f) {C : τ → α → Prop} {s : σ} {as : List α} :
    N.Obeys C (f s) as ↔ M.Obeys (fun s a ↦ C (f s) a) s as := by
  induction as generalizing s with
  | nil => simp
  | cons a as ih =>
    rw [obeys_cons, obeys_cons, hf s a]
    cases M.step s a with
    | none => simp
    | some r => simp [ih]

/-- `N` is an image of `M`: the steps of `M`, with states, actions and outputs translated, are
those of `N`. -/
def IsImage {β υ : Type*} (M : System σ α ω) (N : System τ β υ) (f : σ → τ) (g : α → β)
    (k : ω → υ) : Prop :=
  ∀ s a, N.step (f s) (g a) = (M.step s a).map fun r ↦ (f r.1, r.2.map k)

theorem IsImage.run {β υ : Type*} {N : System τ β υ} {g : α → β} {k : ω → υ}
    (h : IsImage M N f g k) (s : σ) (as : List α) :
    N.run (f s) (as.map g) = (M.run s as).map fun r ↦ (f r.1, r.2.map k) := by
  induction as generalizing s with
  | nil => rfl
  | cons a as ih =>
    rw [List.map_cons, System.run, System.run, h s a]
    cases M.step s a with
    | none => rfl
    | some r =>
      simp only [Option.map_some, ih, Option.map_map]
      congr 1
      funext q
      simp

/-- `N` can do whatever `M` does: for every step of `M` it has a run with the same outputs. -/
def IsSimulation {β : Type*} (M : System σ α ω) (N : System τ β ω) (R : σ → τ → Prop) : Prop :=
  ∀ {s t a s' es}, R s t → M.step s a = some (s', es) →
    ∃ bs t', N.run t bs = some (t', es) ∧ R s' t'

/-- `N` can do whatever `M` does, as far as it is seen: for every step of `M` it has a run in which
`l` sees what `k` sees of the step. -/
def IsSimulationUpTo {β υ γ : Type*} (M : System σ α ω) (N : System τ β υ) (k : List ω → List γ)
    (l : List υ → List γ) (R : σ → τ → Prop) : Prop :=
  ∀ {s t a s' es}, R s t → M.step s a = some (s', es) →
    ∃ bs t' fs, N.run t bs = some (t', fs) ∧ l fs = k es ∧ R s' t'

/-- What is seen of a history has to be seen piece by piece. -/
theorem IsSimulationUpTo.run {β υ γ : Type*} {N : System τ β υ} {k : List ω → List γ}
    {l : List υ → List γ} {R : σ → τ → Prop} (h : IsSimulationUpTo M N k l R)
    (hk : ∀ es es', k (es ++ es') = k es ++ k es') (hl : ∀ fs fs', l (fs ++ fs') = l fs ++ l fs')
    {s s' : σ} {t : τ} {as : List α} {es : List ω} (hR : R s t)
    (hrun : M.run s as = some (s', es)) :
    ∃ bs t' fs, N.run t bs = some (t', fs) ∧ l fs = k es ∧ R s' t' := by
  induction as generalizing s t es with
  | nil =>
    obtain ⟨rfl, rfl⟩ : s = s' ∧ [] = es := by simpa using hrun
    have hnil : l [] = k [] := by
      rw [List.self_eq_append_left.mp (hl [] []), List.self_eq_append_left.mp (hk [] [])]
    exact ⟨[], t, [], rfl, hnil, hR⟩
  | cons a as ih =>
    obtain ⟨u, es₁, es₂, hstep, hrest, rfl⟩ := run_cons_eq_some.mp hrun
    obtain ⟨bs, v, fs₁, hbs, hseen, hRv⟩ := h hR hstep
    obtain ⟨cs, t', fs₂, hcs, hseen', hR'⟩ := ih hRv hrest
    refine ⟨bs ++ cs, t', fs₁ ++ fs₂, run_append_eq_some.mpr ⟨v, fs₁, fs₂, hbs, hcs, rfl⟩, ?_, hR'⟩
    rw [hl, hk, hseen, hseen']

theorem IsSimulation.run {β : Type*} {N : System τ β ω} {R : σ → τ → Prop}
    (h : IsSimulation M N R) {s s' : σ} {t : τ} {as : List α} {es : List ω} (hR : R s t)
    (hrun : M.run s as = some (s', es)) : ∃ bs t', N.run t bs = some (t', es) ∧ R s' t' := by
  have hup : IsSimulationUpTo M N id id R := by
    intro s t a s' es hR hstep
    obtain ⟨bs, t', hbs, hR'⟩ := h hR hstep
    exact ⟨bs, t', es, hbs, rfl, hR'⟩
  obtain ⟨bs, t', fs, hbs, rfl, hR'⟩ := hup.run (fun _ _ ↦ rfl) (fun _ _ ↦ rfl) hR hrun
  exact ⟨bs, t', hbs, hR'⟩

/-- Where `N` answers every step of `M` with a step for the same action, it answers every run of `M`
with a run for the same actions. -/
theorem run_of_lockstep {N : System τ α ω} {R : σ → τ → Prop}
    (h : ∀ {s t a s' es}, R s t → M.step s a = some (s', es) →
      ∃ t', N.step t a = some (t', es) ∧ R s' t')
    {s s' : σ} {t : τ} {as : List α} {es : List ω} (hR : R s t)
    (hrun : M.run s as = some (s', es)) : ∃ t', N.run t as = some (t', es) ∧ R s' t' := by
  induction as generalizing s t es with
  | nil =>
    obtain ⟨rfl, rfl⟩ : s = s' ∧ [] = es := by simpa using hrun
    exact ⟨t, rfl, hR⟩
  | cons a as ih =>
    obtain ⟨u, fs, gs, hstep, hrest, rfl⟩ := run_cons_eq_some.mp hrun
    obtain ⟨v, hv, hRv⟩ := h hR hstep
    obtain ⟨t', ht', hR'⟩ := ih hRv hrest
    exact ⟨t', run_cons_eq_some.mpr ⟨v, fs, gs, hv, ht', rfl⟩, hR'⟩

/-- A system is a view of itself with a summary of its history. -/
theorem isView_observed (M : System σ α ω) (upd : τ → ω → τ) :
    IsView (M.observed upd) M Prod.fst := by
  intro p a
  rw [observed, Option.map_map]
  exact Option.map_id'.symm

/-- A system is a view of itself with a record of its run. -/
theorem isView_recorded (M : System σ α ω) (upd : τ → σ → α → σ → τ) :
    IsView (M.recorded upd) M Prod.fst := by
  intro p a
  rw [recorded, Option.map_map]
  exact Option.map_id'.symm

end System

end PushService
