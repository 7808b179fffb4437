import Mathlib.Data.List.Nodup
import Mathlib.Logic.Function.Basic

/-!
# SQL statements that may be cut off

Tables with a primary key, the statements that create and fill them, and the execution of a list of
statements that stops at the first one that does not go through. A statement is atomic: it is
executed or leaves the tables as they are. It may fail for a reason of its own (the table exists,
the table does not exist, a key is taken) or for one that lies outside the tables, and the program
may crash before it.

Executions only add. So what a cut-off execution leaves behind is told by the tables it reached, and
`exec_createTables_isSome_iff` says which these are.
-/

namespace PushService

namespace Database

variable {ν ρ κ : Type*}

/-- The tables, by name, with their rows in order. -/
abbrev Tables (ν ρ : Type*) := ν → Option (List ρ)

inductive Statement (ν ρ : Type*)
  | createTable (t : ν)
  | insert (t : ν) (rows : List ρ)

/-- What becomes of a statement, as far as it is not up to the tables. -/
inductive Fate
  | executed
  | failed
  /-- The program crashes before the statement. -/
  | crashed
  deriving DecidableEq, Repr

/-- Create the tables of `l` in order. -/
def createTables (l : List ν) (f : ν → Fate) : List (Statement ν ρ × Fate) :=
  l.map fun t ↦ (.createTable t, f t)

theorem createTables_cons (t : ν) (l : List ν) (f : ν → Fate) :
    (createTables (t :: l) f : List (Statement ν ρ × Fate))
      = (.createTable t, f t) :: createTables l f := rfl

/-- Fill the tables of `l` in order. -/
def insertRows (l : List ν) (rows : ν → List ρ) (f : ν → Fate) : List (Statement ν ρ × Fate) :=
  l.map fun t ↦ (.insert t (rows t), f t)

theorem insertRows_cons (t : ν) (l : List ν) (rows : ν → List ρ) (f : ν → Fate) :
    insertRows (t :: l) rows f = (.insert t (rows t), f t) :: insertRows l rows f := rfl

section Semantics

variable [DecidableEq ν] [DecidableEq κ] (key : ρ → κ)

/-- The effect of a statement, if the tables allow it. -/
def Statement.apply : Statement ν ρ → Tables ν ρ → Option (Tables ν ρ)
  | .createTable t, db =>
    match db t with
    | none => some (Function.update db t (some []))
    | some _ => none
  | .insert t rows, db =>
    match db t with
    | none => none
    | some old =>
      if ((old ++ rows).map key).Nodup then some (Function.update db t (some (old ++ rows)))
      else none

/-- Execute the statements in order. The result is whether all went through, or none after a
crash. -/
def exec : List (Statement ν ρ × Fate) → Tables ν ρ → Option Bool × Tables ν ρ
  | [], db => (some true, db)
  | (_, .crashed) :: _, db => (none, db)
  | (_, .failed) :: _, db => (some false, db)
  | (s, .executed) :: l, db =>
    match s.apply key db with
    | none => (some false, db)
    | some db' => exec l db'

variable {key} {db db' : Tables ν ρ} {t u : ν} {l : List ν} {f : ν → Fate}

theorem Statement.createTable_apply_eq_some :
    (createTable t : Statement ν ρ).apply key db = some db' ↔
      db t = none ∧ db' = Function.update db t (some []) := by
  rw [apply]
  cases db t with
  | none => simp [eq_comm]
  | some old => simp

theorem Statement.insert_apply_eq_some {rows : List ρ} :
    (insert t rows).apply key db = some db' ↔
      ∃ old, db t = some old ∧ ((old ++ rows).map key).Nodup ∧
        db' = Function.update db t (some (old ++ rows)) := by
  rw [apply]
  cases db t with
  | none => simp
  | some old => simp [eq_comm]

/-! ## Executions only add -/

/-- Statements never drop a table. -/
theorem Statement.isSome_of_apply {s : Statement ν ρ} (h : s.apply key db = some db')
    (ht : (db t).isSome) : (db' t).isSome := by
  have hupdate : ∀ {x : ν} {rows : List ρ}, (Function.update db x (some rows) t).isSome := by
    intro x rows
    by_cases hx : t = x
    · rw [hx, Function.update_self]
      rfl
    · rwa [Function.update_of_ne hx]
  cases s with
  | createTable x =>
    obtain ⟨-, rfl⟩ := createTable_apply_eq_some.mp h
    exact hupdate
  | insert x rows =>
    obtain ⟨old, -, -, rfl⟩ := insert_apply_eq_some.mp h
    exact hupdate

/-- A cut-off list of statements has done what a beginning of it does. -/
theorem exec_cons_of_not_executed {s : Statement ν ρ} {fate : Fate} (h : fate ≠ .executed)
    (m : List (Statement ν ρ × Fate)) (db : Tables ν ρ) :
    (exec key ((s, fate) :: m) db).2 = db ∧ (exec key ((s, fate) :: m) db).1 ≠ some true := by
  cases fate with
  | executed => exact absurd rfl h
  | failed | crashed => exact ⟨rfl, by simp [exec]⟩

theorem exec_cons_of_apply_eq_none {s : Statement ν ρ} (h : s.apply key db = none)
    (m : List (Statement ν ρ × Fate)) : exec key ((s, .executed) :: m) db = (some false, db) := by
  rw [exec, h]

theorem exec_cons_of_apply {s : Statement ν ρ} (h : s.apply key db = some db')
    (m : List (Statement ν ρ × Fate)) :
    exec key ((s, .executed) :: m) db = exec key m db' := by
  rw [exec, h]

theorem isSome_exec (m : List (Statement ν ρ × Fate)) (ht : (db t).isSome) :
    ((exec key m db).2 t).isSome := by
  induction m generalizing db with
  | nil => exact ht
  | cons p m ih =>
    obtain ⟨s, fate⟩ := p
    by_cases hfate : fate = .executed
    · subst hfate
      cases h : s.apply key db with
      | none =>
        rw [exec_cons_of_apply_eq_none h]
        exact ht
      | some db₁ =>
        rw [exec_cons_of_apply h]
        exact ih (Statement.isSome_of_apply h ht)
    · rw [(exec_cons_of_not_executed hfate m db).1]
      exact ht

/-! ## Creating tables -/

/-- The `CREATE` of `t` goes through, as far as `t` is concerned. -/
def Creatable (f : ν → Fate) (db : Tables ν ρ) (t : ν) : Prop :=
  f t = .executed ∧ db t = none

instance (f : ν → Fate) (db : Tables ν ρ) (t : ν) : Decidable (Creatable f db t) :=
  inferInstanceAs (Decidable (_ ∧ db t = none))

/-- A table that cannot be created ends the execution. -/
theorem exec_createTables_of_not_creatable (ht : ¬Creatable f db t) :
    (exec key (createTables (t :: l) f) db).2 = db ∧
      (exec key (createTables (t :: l) f) db).1 ≠ some true := by
  rw [createTables_cons]
  by_cases hfate : f t = .executed
  · have hsome : db t ≠ none := fun hnone ↦ ht ⟨hfate, hnone⟩
    have happly : (Statement.createTable t : Statement ν ρ).apply key db = none := by
      rw [Option.eq_none_iff_forall_ne_some]
      exact fun db' h ↦ hsome (Statement.createTable_apply_eq_some.mp h).1
    rw [hfate, exec_cons_of_apply_eq_none happly]
    exact ⟨rfl, by simp⟩
  · exact exec_cons_of_not_executed hfate _ db

theorem exec_createTables_of_creatable (ht : Creatable f db t) :
    exec key (createTables (t :: l) f) db
      = exec key (createTables l f) (Function.update db t (some [])) := by
  rw [createTables_cons, ht.1]
  exact exec_cons_of_apply (Statement.createTable_apply_eq_some.mpr ⟨ht.2, rfl⟩) _

/-- Creating a table leaves the others as creatable as they were. -/
theorem creatable_update (h : u ≠ t) :
    Creatable f (Function.update db t (some [])) u ↔ Creatable f db u := by
  rw [Creatable, Creatable, Function.update_of_ne h]

/-- **What an execution reaches.** A missing table of the list is there afterwards exactly if it and
all before it could be created. -/
theorem exec_createTables_isSome_iff (hl : l.Nodup) (ht : t ∈ l) (hnone : db t = none) :
    ((exec key (createTables l f) db).2 t).isSome ↔
      f t = .executed ∧ ∀ u ∈ l.takeWhile (· ≠ t), Creatable f db u := by
  induction l generalizing db with
  | nil => exact absurd ht List.not_mem_nil
  | cons u l ih =>
    obtain ⟨hu, hl⟩ := List.nodup_cons.mp hl
    by_cases hcreatable : Creatable f db u
    · rw [exec_createTables_of_creatable hcreatable]
      by_cases hut : u = t
      · subst hut
        have hsome : (Function.update db u (some []) u).isSome := by simp
        simp [isSome_exec _ hsome, hcreatable.1]
      · have htl : t ∈ l := (List.mem_cons.mp ht).resolve_left (Ne.symm hut)
        rw [ih hl htl (by rwa [Function.update_of_ne (Ne.symm hut)]),
          List.takeWhile_cons_of_pos (by simpa using hut), List.forall_mem_cons]
        -- the tables before `t` in the rest of the list are not `u`
        refine and_congr_right fun _ ↦ ⟨fun h ↦ ⟨hcreatable, fun x hx ↦ ?_⟩, fun h x hx ↦ ?_⟩
        · exact (creatable_update (ne_of_mem_of_not_mem (List.takeWhile_subset _ hx) hu)).mp
            (h x hx)
        · exact (creatable_update (ne_of_mem_of_not_mem (List.takeWhile_subset _ hx) hu)).mpr
            (h.2 x hx)
    · rw [(exec_createTables_of_not_creatable hcreatable).1, hnone]
      by_cases hut : u = t
      · subst hut
        simp only [Option.isSome_none, Bool.false_eq_true, false_iff]
        exact fun h ↦ hcreatable ⟨h.1, hnone⟩
      · rw [List.takeWhile_cons_of_pos (by simpa using hut)]
        simp only [Option.isSome_none, Bool.false_eq_true, false_iff]
        exact fun h ↦ hcreatable (h.2 u List.mem_cons_self)

/-- The execution goes through exactly if all tables can be created. -/
theorem exec_createTables_eq_true (hl : l.Nodup) :
    (exec key (createTables l f) db).1 = some true ↔ ∀ t ∈ l, Creatable f db t := by
  induction l generalizing db with
  | nil => simp [createTables, exec]
  | cons u l ih =>
    obtain ⟨hu, hl⟩ := List.nodup_cons.mp hl
    rw [List.forall_mem_cons]
    by_cases hcreatable : Creatable f db u
    · rw [exec_createTables_of_creatable hcreatable, ih hl, and_iff_right hcreatable]
      exact forall₂_congr fun x hx ↦ creatable_update (ne_of_mem_of_not_mem hx hu)
    · exact iff_of_false (exec_createTables_of_not_creatable hcreatable).2 fun h ↦ hcreatable h.1

/-- A table that was not there is empty or still missing. -/
theorem exec_createTables_of_eq_none (ht : db t = none ∨ db t = some []) :
    (exec key (createTables l f) db).2 t = none ∨
      (exec key (createTables l f) db).2 t = some [] := by
  induction l generalizing db with
  | nil => exact ht
  | cons u l ih =>
    by_cases hcreatable : Creatable f db u
    · rw [exec_createTables_of_creatable hcreatable]
      apply ih
      by_cases hut : t = u
      · rw [hut, Function.update_self]
        exact .inr rfl
      · rwa [Function.update_of_ne hut]
    · rwa [(exec_createTables_of_not_creatable hcreatable).1]

/-! ## Filling tables -/

variable {rows : ν → List ρ}

/-- Empty tables take rows with different keys. -/
theorem exec_insertRows_cons (hfate : f t = .executed) (hempty : db t = some [])
    (hkeys : ((rows t).map key).Nodup) :
    exec key (insertRows (t :: l) rows f) db
      = exec key (insertRows l rows f) (Function.update db t (some (rows t))) := by
  rw [insertRows_cons, hfate]
  exact exec_cons_of_apply (Statement.insert_apply_eq_some.mpr ⟨[], hempty, hkeys, rfl⟩) _

/-- Only a statement that is executed changes a table, and only its own. -/
theorem exec_insertRows_of_unreached (ht : t ∈ l → f t ≠ .executed) :
    (exec key (insertRows l rows f) db).2 t = db t := by
  induction l generalizing db with
  | nil => rfl
  | cons u l ih =>
    have htl : t ∈ l → f t ≠ .executed := fun h ↦ ht (List.mem_cons_of_mem u h)
    rw [insertRows_cons]
    by_cases hfate : f u = .executed
    · rw [hfate]
      cases h : (Statement.insert u (rows u)).apply key db with
      | none => rw [exec_cons_of_apply_eq_none h]
      | some db₁ =>
        have htu : t ≠ u := by
          rintro rfl
          exact ht List.mem_cons_self hfate
        obtain ⟨old, -, -, rfl⟩ := Statement.insert_apply_eq_some.mp h
        rw [exec_cons_of_apply h, ih htl, Function.update_of_ne htu]
    · rw [(exec_cons_of_not_executed hfate _ db).1]

/-- With nothing in the way every table of the list is filled. -/
theorem exec_insertRows (hl : l.Nodup) (hfate : ∀ t ∈ l, f t = .executed)
    (hempty : ∀ t ∈ l, db t = some []) (hkeys : ∀ t, ((rows t).map key).Nodup) :
    (exec key (insertRows l rows f) db).1 = some true ∧
      ∀ t ∈ l, (exec key (insertRows l rows f) db).2 t = some (rows t) := by
  induction l generalizing db with
  | nil => exact ⟨rfl, by simp⟩
  | cons u l ih =>
    obtain ⟨hu, hl⟩ := List.nodup_cons.mp hl
    obtain ⟨hfu, hfl⟩ := List.forall_mem_cons.mp hfate
    obtain ⟨heu, hel⟩ := List.forall_mem_cons.mp hempty
    rw [exec_insertRows_cons hfu heu (hkeys u)]
    have hrest : ∀ t ∈ l, Function.update db u (some (rows u)) t = some [] := fun t ht ↦ by
      rw [Function.update_of_ne (ne_of_mem_of_not_mem ht hu), hel t ht]
    obtain ⟨htrue, hrows⟩ := ih hl hfl hrest
    refine ⟨htrue, List.forall_mem_cons.mpr ⟨?_, hrows⟩⟩
    rw [exec_insertRows_of_unreached fun h ↦ absurd h hu, Function.update_self]

end Semantics

end Database

end PushService
