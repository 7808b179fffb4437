import PushService.System.Run

/-!
# Outcomes of handlers

A handler changes a state, emits outputs, and may be left by an exception. `Outcome` records the
three, and `andThen` is sequencing: once an exception has been thrown the rest is skipped, while
the state and the outputs up to that point stay.

`Satisfies P Q` is the partial-correctness rule used for handlers: the state reached satisfies `P`
and every output satisfies `Q`, whether or not the handler was left by an exception. `Relates R`
ties the two to each other and to the state before.
-/

namespace PushService

/-- What a handler, or a part of one, does. -/
structure Outcome (σ ω : Type*) where
  /-- The state reached. -/
  state : σ
  /-- The outputs emitted, in order. -/
  outputs : List ω
  /-- Whether an exception left the handler at this point. -/
  thrown : Bool

namespace Outcome

variable {σ ω : Type*}

/-- Nothing more to do. -/
def done (s : σ) : Outcome σ ω := ⟨s, [], false⟩

/-- Emit one output. -/
def emit (e : ω) (s : σ) : Outcome σ ω := ⟨s, [e], false⟩

/-- Throw an exception. -/
def throw (s : σ) : Outcome σ ω := ⟨s, [], true⟩

/-- Sequencing; an exception skips what follows. -/
def andThen (o : Outcome σ ω) (f : σ → Outcome σ ω) : Outcome σ ω :=
  if o.thrown then o
  else ⟨(f o.state).state, o.outputs ++ (f o.state).outputs, (f o.state).thrown⟩

@[simp] theorem done_andThen (s : σ) (f : σ → Outcome σ ω) : (done s).andThen f = f s := rfl

@[simp] theorem throw_andThen (s : σ) (f : σ → Outcome σ ω) : (throw s).andThen f = throw s := rfl

@[simp] theorem emit_andThen (e : ω) (s : σ) (f : σ → Outcome σ ω) :
    (emit e s).andThen f = ⟨(f s).state, e :: (f s).outputs, (f s).thrown⟩ := rfl

@[simp] theorem thrown_throw (s : σ) : (throw s : Outcome σ ω).thrown = true := rfl

theorem andThen_of_not_thrown {o : Outcome σ ω} (h : o.thrown = false) (f : σ → Outcome σ ω) :
    o.andThen f = ⟨(f o.state).state, o.outputs ++ (f o.state).outputs, (f o.state).thrown⟩ := by
  rw [andThen, if_neg (by simp [h])]

theorem andThen_of_thrown {o : Outcome σ ω} (h : o.thrown = true) (f : σ → Outcome σ ω) :
    o.andThen f = o := by
  rw [andThen, if_pos h]

/-! ## Partial correctness -/

/-- The state reached satisfies `P` and every output satisfies `Q`. -/
def Satisfies (P : σ → Prop) (Q : ω → Prop) (o : Outcome σ ω) : Prop :=
  P o.state ∧ ∀ e ∈ o.outputs, Q e

variable {P : σ → Prop} {Q : ω → Prop}

theorem satisfies_done {s : σ} (h : P s) : (done s : Outcome σ ω).Satisfies P Q :=
  ⟨h, by simp [done]⟩

theorem satisfies_throw {s : σ} (h : P s) : (throw s : Outcome σ ω).Satisfies P Q :=
  ⟨h, by simp [throw]⟩

theorem satisfies_emit {e : ω} {s : σ} (h : P s) (he : Q e) : (emit e s).Satisfies P Q :=
  ⟨h, by simpa [emit] using he⟩

/-- An output that is emitted or not. -/
theorem satisfies_ite {b : Bool} {e : ω} {s : σ} (h : P s) (he : Q e) :
    (if b then emit e s else done s).Satisfies P Q := by
  split_ifs
  · exact satisfies_emit h he
  · exact satisfies_done h

/-- The outputs together with one that reports the exception. -/
theorem Satisfies.reported {o : Outcome σ ω} (h : o.Satisfies P Q) {threw : ω} (hthrew : Q threw) :
    ∀ e ∈ if o.thrown then o.outputs ++ [threw] else o.outputs, Q e := by
  intro e he
  split_ifs at he
  · rcases List.mem_append.mp he with he | he
    · exact h.2 e he
    · rwa [List.mem_singleton.mp he]
  · exact h.2 e he

/-- The rule for sequencing: `P` carries over from the first part to the second. -/
theorem Satisfies.andThen {o : Outcome σ ω} {f : σ → Outcome σ ω} (ho : o.Satisfies P Q)
    (hf : ∀ s, P s → (f s).Satisfies P Q) : (o.andThen f).Satisfies P Q := by
  cases hthrown : o.thrown with
  | true => rwa [andThen_of_thrown hthrown]
  | false =>
    rw [andThen_of_not_thrown hthrown]
    refine ⟨(hf _ ho.1).1, fun e he ↦ ?_⟩
    rcases List.mem_append.mp he with he | he
    · exact ho.2 e he
    · exact (hf _ ho.1).2 e he

theorem Satisfies.mono {P' : σ → Prop} {Q' : ω → Prop} {o : Outcome σ ω} (ho : o.Satisfies P Q)
    (hP : ∀ s, P s → P' s) (hQ : ∀ e, Q e → Q' e) : o.Satisfies P' Q' :=
  ⟨hP _ ho.1, fun e he ↦ hQ e (ho.2 e he)⟩

/-! ## Total correctness -/

/-- No exception is thrown, and every output satisfies `Q`. -/
def Returns (Q : ω → Prop) (o : Outcome σ ω) : Prop :=
  o.thrown = false ∧ ∀ e ∈ o.outputs, Q e

theorem returns_done (s : σ) : (done s : Outcome σ ω).Returns Q :=
  ⟨rfl, by simp [done]⟩

theorem returns_emit {e : ω} (s : σ) (he : Q e) : (emit e s).Returns Q :=
  ⟨rfl, by simpa [emit] using he⟩

theorem Returns.andThen {o : Outcome σ ω} {f : σ → Outcome σ ω} (ho : o.Returns Q)
    (hf : ∀ s, (f s).Returns Q) : (o.andThen f).Returns Q := by
  rw [andThen_of_not_thrown ho.1]
  refine ⟨(hf _).1, fun e he ↦ ?_⟩
  rcases List.mem_append.mp he with he | he
  · exact ho.2 e he
  · exact (hf _).2 e he

/-- Where the second part throws, the whole does. -/
theorem andThen_thrown {o : Outcome σ ω} {f : σ → Outcome σ ω} (hf : ∀ s, (f s).thrown = true) :
    (o.andThen f).thrown = true := by
  cases hthrown : o.thrown with
  | true => rw [andThen_of_thrown hthrown, hthrown]
  | false =>
    rw [andThen_of_not_thrown hthrown]
    exact hf o.state

/-! ## Relations -/

/-- The state before, the outputs and the state reached are related. -/
def Relates (R : σ → List ω → σ → Prop) (s : σ) (o : Outcome σ ω) : Prop := R s o.outputs o.state

variable {R : σ → List ω → σ → Prop}

/-- The rule for sequencing, for a relation that composes. -/
theorem Relates.andThen (hR : System.Composes R) {s : σ} {o : Outcome σ ω} {f : σ → Outcome σ ω}
    (ho : o.Relates R s) (hf : (f o.state).Relates R o.state) : (o.andThen f).Relates R s := by
  cases hthrown : o.thrown with
  | true => rwa [andThen_of_thrown hthrown]
  | false =>
    rw [andThen_of_not_thrown hthrown]
    exact hR.append ho hf

/-- The outputs together with one that reports the exception. -/
theorem Relates.reported (hR : System.Composes R) {s : σ} {o : Outcome σ ω} (ho : o.Relates R s)
    {threw : ω} (hthrew : ∀ s, R s [threw] s) :
    R s (if o.thrown then o.outputs ++ [threw] else o.outputs) o.state := by
  split_ifs
  · exact hR.append ho (hthrew o.state)
  · exact ho

end Outcome

end PushService
