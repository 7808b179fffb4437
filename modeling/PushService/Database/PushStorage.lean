import PushService.Database.Statements
import PushService.System.Run

/-!
# Opening the push storage

`OpenDatabase` creates four tables and fills three of them with their initial rows, unless the table
`PushEvents` is there already. There is no transaction. The statements come in the orders of two
unordered maps, and any of them may fail, or the program may crash before it.

## What the test sees

A later call looks at `PushEvents` alone. So nothing is lost if a call is cut off before it creates
that table: later calls then fail, or find nothing and begin anew. But a call that is cut off after
it has created `PushEvents` leaves a database that every later call takes for complete, and so does
a call that creates `PushEvents` and then meets a table that an earlier call has left. `Finishes`
excludes the two.
-/

namespace PushService

namespace Database

/-- The tables of the push storage. -/
inductive TableName
  | pushEvents
  | typeId
  | priorityId
  | senderId
  deriving DecidableEq, Repr

/-- A row of `TypeId`, `PriorityId` or `SenderId`: its primary key and its description. -/
abbrev DescriptionRow := ℕ × String

/-- The rows of `GetSqlFillTabQueries`. The first key of `SenderId` is a quoted `0`, which a column
of type `INTEGER` stores as a number. -/
def initialRows : TableName → List DescriptionRow
  | .pushEvents => []
  | .typeId => [(0, "Push type 1"), (1, "Push type 2")]
  | .priorityId => [(0, "Push that notificate"), (1, "Push that warning"), (2, "Push that alert")]
  | .senderId => [(0, "Test"), (1, "Admin")]

/-- A call of `OpenDatabase`: the iteration orders of the two maps, and what becomes of each
statement. -/
structure OpenCall where
  createOrder : List TableName
  createOrder_perm : createOrder.Perm [.pushEvents, .typeId, .priorityId, .senderId]
  fillOrder : List TableName
  fillOrder_perm : fillOrder.Perm [.typeId, .priorityId, .senderId]
  /-- What becomes of `sqlite3_open`. -/
  openFate : Fate
  /-- What becomes of the query in `IsTableExists`. -/
  selectFate : Fate
  /-- What becomes of the `CREATE TABLE` of a table. -/
  createFate : TableName → Fate
  /-- What becomes of the `INSERT` into a table. -/
  fillFate : TableName → Fate

namespace PushStorage

/-- The database file. -/
abbrev Db := Tables TableName DescriptionRow

/-- A new file. -/
def empty : Db := fun _ ↦ none

variable (c : OpenCall) (db : Db)

def createTabs : Option Bool × Db :=
  exec Prod.fst (createTables c.createOrder c.createFate) db

def fillTabs : Option Bool × Db :=
  exec Prod.fst (insertRows c.fillOrder initialRows c.fillFate) db

def initTabs : Option Bool × Db :=
  match createTabs c db with
  | (some true, db') => fillTabs c db'
  | r => r

/-- `IsTableExists` for `PushEvents`; it is false when its query fails. There is no result after a
crash. -/
def isTableExists : Option Bool :=
  match c.selectFate with
  | .executed => some (db .pushEvents).isSome
  | .failed => some false
  | .crashed => none

/-- `OpenDatabase`: what it returns, if it does, and the database it leaves. -/
def openDatabase : Option Bool × Db :=
  match c.openFate with
  | .crashed => (none, db)
  | .failed => (some false, db)
  | .executed =>
    match isTableExists c db with
    | none => (none, db)
    | some true => (some true, db)
    | some false => initTabs c db

/-- One call after the other on one file; what is observed is what a call returned and the database
at that moment. -/
def storage : System Db OpenCall (Option Bool × Db) where
  step db c := some ((openDatabase c db).2, [openDatabase c db])

/-! ## Complete databases -/

/-- All four tables exist, and the three that are filled hold exactly their initial rows. -/
def Complete (db : Db) : Prop :=
  (db .pushEvents).isSome ∧ ∀ t, t ≠ .pushEvents → db t = some (initialRows t)

/-- No call that returns true leaves an incomplete database. -/
def Honest (r : Option Bool × Db) : Prop :=
  r.1 = some true → Complete r.2

/-! ## The condition -/

/-- The call comes to the creation of `PushEvents`, which is missing, and performs it. -/
def CreatesPushEvents : Prop :=
  c.openFate = .executed ∧ c.selectFate ≠ .crashed ∧ db .pushEvents = none ∧
    c.createFate .pushEvents = .executed ∧
    ∀ t ∈ c.createOrder.takeWhile (· ≠ .pushEvents), Creatable c.createFate db t

/-- Nothing cuts the call off once it has begun to create tables, and none of them exists. -/
def Undisturbed : Prop :=
  (∀ t ∈ c.createOrder, Creatable c.createFate db t) ∧ ∀ t ∈ c.fillOrder, c.fillFate t = .executed

/-- A call that creates `PushEvents` does all the rest as well. -/
def Finishes (db : Db) (c : OpenCall) : Prop :=
  CreatesPushEvents c db → Undisturbed c db

instance (db : Db) (c : OpenCall) : Decidable (CreatesPushEvents c db) :=
  inferInstanceAs (Decidable (_ ∧ _ ∧ db .pushEvents = none ∧ _ ∧ _))

instance (db : Db) (c : OpenCall) : Decidable (Undisturbed c db) :=
  inferInstanceAs (Decidable (_ ∧ _))

instance (db : Db) (c : OpenCall) : Decidable (Finishes db c) :=
  inferInstanceAs (Decidable (_ → _))

/-! ## What a call does -/

variable {c : OpenCall} {db : Db}

theorem mem_createOrder (c : OpenCall) (t : TableName) : t ∈ c.createOrder := by
  rw [c.createOrder_perm.mem_iff]
  cases t <;> simp

theorem mem_fillOrder (c : OpenCall) {t : TableName} : t ∈ c.fillOrder ↔ t ≠ .pushEvents := by
  rw [c.fillOrder_perm.mem_iff]
  cases t <;> simp

theorem nodup_createOrder (c : OpenCall) : c.createOrder.Nodup :=
  c.createOrder_perm.nodup_iff.mpr (by decide)

theorem nodup_fillOrder (c : OpenCall) : c.fillOrder.Nodup :=
  c.fillOrder_perm.nodup_iff.mpr (by decide)

theorem nodup_initialRows (t : TableName) : ((initialRows t).map Prod.fst).Nodup := by
  cases t <;> decide

/-- All tables are created exactly if all of them can be. -/
theorem createTabs_eq_true :
    (createTabs c db).1 = some true ↔ ∀ t ∈ c.createOrder, Creatable c.createFate db t :=
  exec_createTables_eq_true (nodup_createOrder c)

theorem initTabs_of_ne_true (h : (createTabs c db).1 ≠ some true) :
    initTabs c db = createTabs c db := by
  rw [initTabs]
  split
  · rename_i db' heq
    exact absurd (congrArg Prod.fst heq) h
  · rfl

theorem initTabs_of_eq_true (h : (createTabs c db).1 = some true) :
    initTabs c db = fillTabs c (createTabs c db).2 := by
  rw [initTabs]
  split
  · rename_i db' heq
    rw [heq]
  · rename_i hne
    exact (hne _ (Prod.ext h rfl)).elim

/-- What is created is empty. -/
theorem createTabs_eq_none_or {t : TableName} (ht : db t = none ∨ db t = some []) :
    (createTabs c db).2 t = none ∨ (createTabs c db).2 t = some [] :=
  exec_createTables_of_eq_none ht

/-- Where no table was there, all are there and empty once they are created. -/
theorem createTabs_eq_some_nil (h : ∀ t ∈ c.createOrder, Creatable c.createFate db t)
    (t : TableName) : (createTabs c db).2 t = some [] := by
  obtain ⟨hfate, hnone⟩ := h t (mem_createOrder c t)
  have hsome : ((createTabs c db).2 t).isSome :=
    (exec_createTables_isSome_iff (nodup_createOrder c) (mem_createOrder c t) hnone).mpr
      ⟨hfate, fun u hu ↦ h u (List.takeWhile_subset _ hu)⟩
  rcases createTabs_eq_none_or (.inl hnone) with h | h
  · rw [h] at hsome
    exact absurd hsome (by simp)
  · exact h

/-- A call that nothing disturbs sets the whole database up. -/
theorem Undisturbed.complete (h : Undisturbed c db) :
    (initTabs c db).1 = some true ∧ Complete (initTabs c db).2 := by
  have hempty := createTabs_eq_some_nil h.1
  rw [initTabs_of_eq_true (createTabs_eq_true.mpr h.1)]
  obtain ⟨htrue, hrows⟩ := exec_insertRows (nodup_fillOrder c) h.2 (fun t _ ↦ hempty t)
    nodup_initialRows
  refine ⟨htrue, ?_, fun t ht ↦ hrows t ((mem_fillOrder c).mpr ht)⟩
  exact isSome_exec _ (by rw [hempty]; rfl)

/-- Where the tables are there, no call of `InitTabs` does anything. -/
theorem initTabs_of_complete (h : Complete db) :
    (initTabs c db).2 = db ∧ (initTabs c db).1 ≠ some true := by
  have hnot : ∀ t, ¬Creatable c.createFate db t := by
    intro t ht
    by_cases hp : t = .pushEvents
    · have hsome := h.1
      rw [← hp, ht.2] at hsome
      exact absurd hsome (by simp)
    · exact absurd ht.2 (by simp [h.2 t hp])
  have hcreate : (createTabs c db).2 = db ∧ (createTabs c db).1 ≠ some true := by
    rw [createTabs]
    cases hl : c.createOrder with
    | nil => exact absurd (hl ▸ mem_createOrder c .pushEvents) List.not_mem_nil
    | cons t l => exact exec_createTables_of_not_creatable (hnot t)
  rwa [initTabs_of_ne_true hcreate.2]

/-- A call that does not come to create `PushEvents` leaves it missing and does not return true. -/
theorem initTabs_of_not_creates (hopen : c.openFate = .executed) (hselect : c.selectFate ≠ .crashed)
    (hnone : db .pushEvents = none) (h : ¬CreatesPushEvents c db) :
    (initTabs c db).2 .pushEvents = none ∧ (initTabs c db).1 ≠ some true := by
  have hnot : ¬((createTabs c db).2 .pushEvents).isSome := by
    rw [createTabs, exec_createTables_isSome_iff (nodup_createOrder c) (mem_createOrder c _) hnone]
    exact fun hcreates ↦ h ⟨hopen, hselect, hnone, hcreates⟩
  have hfalse : (createTabs c db).1 ≠ some true := by
    intro htrue
    have hcreatable := createTabs_eq_true.mp htrue
    exact hnot (by rw [createTabs_eq_some_nil hcreatable]; rfl)
  rw [initTabs_of_ne_true hfalse]
  exact ⟨by simpa using hnot, hfalse⟩

/-- A call finds the table and returns true, does not get that far, or creates the tables. -/
theorem openDatabase_cases (c : OpenCall) (db : Db) :
    ((openDatabase c db).2 = db ∧ ((openDatabase c db).1 = some true → (db .pushEvents).isSome)) ∨
      (c.openFate = .executed ∧ c.selectFate ≠ .crashed ∧ openDatabase c db = initTabs c db) := by
  rw [openDatabase]
  cases c.openFate with
  | crashed | failed => exact .inl ⟨rfl, fun h ↦ absurd h (by simp)⟩
  | executed =>
    rw [isTableExists]
    cases c.selectFate with
    | crashed => exact .inl ⟨rfl, fun h ↦ absurd h (by simp)⟩
    | failed => exact .inr ⟨rfl, by simp, rfl⟩
    | executed =>
      cases hp : (db .pushEvents).isSome with
      | true => exact .inl ⟨rfl, fun _ ↦ rfl⟩
      | false => exact .inr ⟨rfl, by simp, rfl⟩

/-! ## Runs -/

/-- `PushEvents` is only there in complete databases. -/
def Inv (db : Db) : Prop :=
  (db .pushEvents).isSome → Complete db

theorem inv_empty : Inv empty :=
  fun h ↦ absurd h (by simp [empty])

/-- One call that finishes what it begins. -/
theorem Inv.openDatabase (hI : Inv db) (hC : Finishes db c) :
    Inv (openDatabase c db).2 ∧ Honest (openDatabase c db) := by
  rcases openDatabase_cases c db with ⟨hdb, htrue⟩ | ⟨hopen, hselect, heq⟩
  · rw [Honest, hdb]
    exact ⟨hI, fun h ↦ hI (htrue h)⟩
  · rw [heq]
    by_cases hp : (db .pushEvents).isSome
    · -- the query failed, and there is nothing to create
      obtain ⟨hdb, hfalse⟩ := initTabs_of_complete (c := c) (hI hp)
      exact ⟨by rwa [hdb], fun h ↦ absurd h hfalse⟩
    · by_cases hcreates : CreatesPushEvents c db
      · have hcomplete := (hC hcreates).complete.2
        exact ⟨fun _ ↦ hcomplete, fun _ ↦ hcomplete⟩
      · obtain ⟨hmissing, hfalse⟩ :=
          initTabs_of_not_creates hopen hselect (by simpa using hp) hcreates
        exact ⟨fun h ↦ absurd h (by simp [hmissing]), fun h ↦ absurd h hfalse⟩

/-- In every run of calls that finish what they begin, a call that returns true leaves a complete
database. -/
theorem honest_of_finishes {calls : List OpenCall} {es : List (Option Bool × Db)}
    (hC : storage.Obeys Finishes empty calls) (hrun : storage.run empty calls = some (db, es)) :
    ∀ r ∈ es, Honest r := by
  refine (System.run_outputs (I := Inv) ?_ inv_empty hC hrun).2
  intro db c db' es hI hC hstep
  obtain ⟨rfl, rfl⟩ := Prod.mk.inj (Option.some_inj.mp hstep)
  obtain ⟨hI', hhonest⟩ := hI.openDatabase hC
  exact ⟨hI', by simpa using hhonest⟩

/-- A call that nothing disturbs. -/
def undisturbedCall : OpenCall where
  createOrder := [.typeId, .pushEvents, .senderId, .priorityId]
  createOrder_perm := by decide
  fillOrder := [.senderId, .typeId, .priorityId]
  fillOrder_perm := by decide
  openFate := .executed
  selectFate := .executed
  createFate _ := .executed
  fillFate _ := .executed

/-- The file cannot be opened at first; then the database is set up, and opened once more. -/
theorem honest_of_finishes_undisturbed :
    ∃ db es, storage.run empty
        [{ undisturbedCall with openFate := .failed }, undisturbedCall, undisturbedCall]
        = some (db, es) ∧ ∀ r ∈ es, Honest r :=
  have hC : storage.Obeys Finishes empty
      [{ undisturbedCall with openFate := .failed }, undisturbedCall, undisturbedCall] := by decide
  ⟨_, _, rfl, honest_of_finishes hC rfl⟩

/-! ## Calls that do not finish -/

/-- Rows come with `PushEvents`: without it there are at most empty tables. -/
def Unfilled (db : Db) : Prop :=
  db .pushEvents = none → ∀ t, db t = none ∨ db t = some []

/-- What is there stays there. -/
theorem isSome_initTabs {t : TableName} (ht : (db t).isSome) : ((initTabs c db).2 t).isSome := by
  have hcreated : ((createTabs c db).2 t).isSome := isSome_exec _ ht
  by_cases htrue : (createTabs c db).1 = some true
  · rw [initTabs_of_eq_true htrue]
    exact isSome_exec _ hcreated
  · rwa [initTabs_of_ne_true htrue]

theorem Unfilled.initTabs (hU : Unfilled db) : Unfilled (initTabs c db).2 := by
  intro hmissing t
  have hnone : db .pushEvents = none := by
    rw [← Option.not_isSome_iff_eq_none]
    exact fun hsome ↦ absurd (isSome_initTabs (c := c) hsome) (by simp [hmissing])
  have hfalse : (createTabs c db).1 ≠ some true := by
    intro htrue
    have hempty := createTabs_eq_some_nil (createTabs_eq_true.mp htrue) .pushEvents
    have hsome : ((PushStorage.initTabs c db).2 .pushEvents).isSome := by
      rw [initTabs_of_eq_true htrue]
      exact isSome_exec _ (by rw [hempty]; rfl)
    exact absurd hsome (by simp [hmissing])
  rw [initTabs_of_ne_true hfalse]
  exact exec_createTables_of_eq_none (hU hnone t)

/-- What is known of every file that calls have made. -/
theorem unfilled_of_run {calls : List OpenCall} {es : List (Option Bool × Db)}
    (hrun : storage.run empty calls = some (db, es)) : Unfilled db := by
  refine System.run_invariant (I := fun db _ ↦ Unfilled db) (h := []) ?_ (fun _ _ ↦ .inl rfl) hrun
  intro db _ c db' es hU hstep
  obtain ⟨rfl, -⟩ := Prod.mk.inj (Option.some_inj.mp hstep)
  rcases openDatabase_cases c db with ⟨hdb, -⟩ | ⟨-, -, heq⟩
  · rwa [hdb]
  · rw [heq]
    exact hU.initTabs

theorem CreatesPushEvents.openDatabase_eq (h : CreatesPushEvents c db) :
    openDatabase c db = initTabs c db := by
  obtain ⟨hopen, hselect, hnone, -⟩ := h
  rw [openDatabase, hopen, isTableExists, hnone]
  cases hs : c.selectFate with
  | executed | failed => rfl
  | crashed => exact absurd hs hselect

/-- **What is left of a call that does not finish.** It leaves `PushEvents` in a database that is
not complete. -/
theorem not_complete_of_breach (hU : Unfilled db) (h : ¬Finishes db c) :
    ((openDatabase c db).2 .pushEvents).isSome ∧ ¬Complete (openDatabase c db).2 := by
  obtain ⟨hcreates, hdisturbed⟩ := Classical.not_imp.mp h
  rw [hcreates.openDatabase_eq]
  obtain ⟨-, -, hnone, hreached⟩ := hcreates
  have hcreated : ((createTabs c db).2 .pushEvents).isSome :=
    (exec_createTables_isSome_iff (nodup_createOrder c) (mem_createOrder c _) hnone).mpr hreached
  by_cases htrue : (createTabs c db).1 = some true
  · -- some table is not filled
    have hcreatable := createTabs_eq_true.mp htrue
    obtain ⟨t, ht⟩ := not_forall.mp fun hall ↦ hdisturbed ⟨hcreatable, hall⟩
    obtain ⟨hmem, hfate⟩ := Classical.not_imp.mp ht
    rw [initTabs_of_eq_true htrue]
    refine ⟨isSome_exec _ hcreated, fun hcomplete ↦ ?_⟩
    have hne := (mem_fillOrder c).mp hmem
    have hrows := hcomplete.2 t hne
    rw [fillTabs, exec_insertRows_of_unreached fun _ ↦ hfate, createTabs_eq_some_nil hcreatable,
      Option.some_inj] at hrows
    cases t with
    | pushEvents => exact hne rfl
    | typeId | priorityId | senderId => exact absurd hrows (by simp [initialRows])
  · rw [initTabs_of_ne_true htrue]
    refine ⟨hcreated, fun hcomplete ↦ ?_⟩
    have hrows := hcomplete.2 .typeId (by simp)
    rcases createTabs_eq_none_or (hU hnone .typeId) with h | h
    · exact absurd (hrows.symm.trans h) (by simp)
    · exact absurd (hrows.symm.trans h) (by simp [initialRows])

/-- Every later call that gets to look takes it for a complete one. -/
theorem not_honest_of_breach {d : OpenCall} (hU : Unfilled db) (h : ¬Finishes db c)
    (hopen : d.openFate = .executed) (hselect : d.selectFate = .executed) :
    ¬Honest (openDatabase d (openDatabase c db).2) := by
  obtain ⟨hsome, hincomplete⟩ := not_complete_of_breach hU h
  have htrue : openDatabase d (openDatabase c db).2 = (some true, (openDatabase c db).2) := by
    rw [openDatabase, hopen, isTableExists, hselect, hsome]
  rw [htrue]
  exact fun hhonest ↦ hincomplete (hhonest rfl)

/-- The database is set up and the first `INSERT` fails; the next call finds nothing to do. -/
theorem not_honest_interrupted :
    ∃ db es, storage.run empty
        [{ undisturbedCall with fillFate := fun _ ↦ .failed }, undisturbedCall] = some (db, es) ∧
      ∃ r ∈ es, r.1 = some true ∧ r.2 .typeId = some [] ∧ ¬Honest r := by
  refine ⟨_, _, rfl, (some true, _), List.mem_cons_of_mem _ List.mem_cons_self, rfl, rfl, ?_⟩
  exact fun hhonest ↦ absurd ((hhonest rfl).2 .typeId (by simp)) (by decide)

end PushStorage

end Database

end PushService
