import Mathlib.Data.List.Nodup
import Mathlib.Logic.Function.Basic
import PushService.Bytes
import PushService.Database.ServerEvents
import PushService.Database.SqlText

/-!
# Values on their way through the database

`ExecuteNonQuery` numbers its arguments from 1 and binds them to the placeholders of a statement;
`ExecuteQuery` does the same and reads each column of each row as a C string. The statements here
are an `INSERT` of one row into a table, and a `SELECT` of some columns of the rows that meet a
condition.

Strings are bound with the length `-1`, so that of a string with a NUL only what stands before it
arrives. Nothing else is lost on the way.
-/

namespace PushService

namespace SqliteDb

open Numerals SqlText
open PushService.Database (EventColumn)

/-! ## Values -/

/-- A value of SQLite. -/
inductive Value
  | null
  | integer (n : ℤ)
  | text (b : Bytes)
  deriving DecidableEq, Repr

inductive ColumnType
  | text
  | integer
  deriving DecidableEq, Repr

/-- What a column stores of a value. An `INTEGER` column turns texts that are numbers into numbers;
`numeric` is what it makes of a text. -/
def ColumnType.store (numeric : Bytes → Value) : ColumnType → Value → Value
  | text, .integer n => .text (ascii (intDigits n))
  | integer, .text b => numeric b
  | _, v => v

/-- `sqlite3_column_text`, without the NUL behind it. -/
def Value.columnText : Value → Option Bytes
  | null => none
  | integer n => some (ascii (intDigits n))
  | text b => some b

/-! ## Statements and their parameters -/

/-- An argument of `ExecuteNonQuery` or `ExecuteQuery`. -/
inductive Param
  | int (n : ℤ)
  | string (s : Bytes)
  deriving DecidableEq, Repr

/-- The string that a parameter should be read back as. -/
def Param.text : Param → Bytes
  | int n => ascii (intDigits n)
  | string s => s

/-- There is no NUL in a string. -/
def Param.NulFree : Param → Prop
  | int _ => True
  | string s => 0 ∉ s

instance : ∀ p : Param, Decidable p.NulFree
  | .int _ => inferInstanceAs (Decidable True)
  | .string s => inferInstanceAs (Decidable (0 ∉ s))

/-- `sqlite3_bind_int`, or `sqlite3_bind_text` with the length `-1`. -/
def Param.bound : Param → Value
  | int n => .integer n
  | string s => .text (cText s)

/-- A prepared statement: how many placeholders it has, and what is bound to them, from 1 on. -/
structure Stmt where
  paramCount : ℕ
  bindings : ℕ → Value

def prepare (paramCount : ℕ) : Stmt where
  paramCount := paramCount
  bindings _ := .null

/-- `BindParam`. There is nothing to bind to outside the numbers of the placeholders. -/
def bindParam (stmt : Stmt) (index : ℕ) (value : Param) : Stmt :=
  if 1 ≤ index ∧ index ≤ stmt.paramCount then
    { stmt with bindings := Function.update stmt.bindings index value.bound }
  else stmt

/-- `BindParams`. -/
def bindParams (stmt : Stmt) (index : ℕ) : List Param → Stmt
  | [] => stmt
  | value :: params => bindParams (bindParam stmt index value) (index + 1) params

/-! ## An `INSERT` and a `SELECT` -/

variable {ν : Type*} [DecidableEq ν]

abbrev Row (ν : Type*) := ν → Value

/-- What stands in a list of `VALUES`. -/
inductive Operand
  /-- A `?`. -/
  | param
  | value (v : Value)
  deriving DecidableEq, Repr

/-- An `INSERT` of one row: its columns, and what stands for each of them. -/
structure InsertQuery (ν : Type*) where
  items : List (ν × Operand)
  nodup : (items.map Prod.fst).Nodup

/-- The columns of the placeholders, in order. -/
def paramColumns : List (ν × Operand) → List ν
  | [] => []
  | (c, .param) :: items => c :: paramColumns items
  | (_, .value _) :: items => paramColumns items

/-- A `SELECT` of columns. The condition may have placeholders, and the rows may be ordered. -/
structure SelectQuery (ν : Type*) where
  columns : List ν
  paramCount : ℕ
  cond : (ℕ → Value) → Row ν → Bool
  order : List (Row ν) → List (Row ν)
  order_perm : ∀ rows, (order rows).Perm rows

/-- The values of a row whose next placeholder has the number `i`. -/
def fillRow (bindings : ℕ → Value) : ℕ → List (ν × Operand) → Row ν → Row ν
  | _, [], row => row
  | i, (c, .param) :: items, row =>
    fillRow bindings (i + 1) items (Function.update row c (bindings i))
  | i, (c, .value v) :: items, row => fillRow bindings i items (Function.update row c v)

/-! ## The class `Database` -/

/-- What becomes of a statement. A failing one has a message, and a `SELECT` may fail after some
rows. -/
inductive Fate
  | notPrepared (errmsg : Bytes)
  | failed (delivered : ℕ) (errmsg : Bytes)
  | done
  deriving DecidableEq, Repr

/-- The table, in the order of insertion, and `last_error_`. -/
structure Database (ν : Type*) where
  rows : List (Row ν)
  lastError : Bytes

/-- `error_msg ? error_msg : "Unknown error"`. -/
def errorText (errmsg : Option Bytes) : Bytes :=
  errmsg.getD (asciiText "Unknown error")

section Table

variable (numeric : Bytes → Value) (type : ν → ColumnType)

/-- The row that an `INSERT` stores. Columns that are not in its list are `NULL`. -/
def insertedRow (query : InsertQuery ν) (params : List Param) : Row ν :=
  let stmt := bindParams (prepare (paramColumns query.items).length) 1 params
  fun c ↦ (type c).store numeric (fillRow stmt.bindings 1 query.items (fun _ ↦ .null) c)

def executeNonQuery (fate : Fate) (query : InsertQuery ν) (params : List Param) (db : Database ν) :
    Bool × Database ν :=
  match fate with
  | .notPrepared errmsg | .failed _ errmsg =>
    (false, { db with lastError := errorText (some errmsg) })
  | .done => (true, { db with rows := db.rows ++ [insertedRow numeric type query params] })

end Table

/-- A result of `sqlite3_step`. -/
inductive StepResult (ν : Type*)
  | row (row : Row ν)
  | done
  | error (errmsg : Bytes)

/-- `text ? reinterpret_cast<const char*>(text) : ""`, as a string. -/
def readColumn (v : Value) : Bytes :=
  match v.columnText with
  | some text => cText (text ++ [0])
  | none => []

def readRow (columns : List ν) (row : Row ν) : List Bytes :=
  columns.map fun c ↦ readColumn (row c)

/-- The loop of `ExecuteQuery`: the rows, or the message of the error that ends it. -/
def fetchRows (columns : List ν) : List (StepResult ν) → List (List Bytes) →
    Except Bytes (List (List Bytes))
  | .row row :: steps, result => fetchRows columns steps (result ++ [readRow columns row])
  | .error errmsg :: _, _ => .error errmsg
  | .done :: _, result | [], result => .ok result

/-- What `sqlite3_step` returns, one call after the other. -/
def selectSteps (fate : Fate) (query : SelectQuery ν) (stmt : Stmt) (db : Database ν) :
    List (StepResult ν) :=
  let rows := query.order (db.rows.filter (query.cond stmt.bindings))
  match fate with
  | .notPrepared _ => []
  | .failed delivered errmsg => (rows.take delivered).map .row ++ [.error errmsg]
  | .done => rows.map .row ++ [.done]

def executeQuery (fate : Fate) (query : SelectQuery ν) (params : List Param) (db : Database ν) :
    Option (List (List Bytes)) × Database ν :=
  match fate with
  | .notPrepared errmsg => (none, { db with lastError := errorText (some errmsg) })
  | fate =>
    let stmt := bindParams (prepare query.paramCount) 1 params
    match fetchRows query.columns (selectSteps fate query stmt db) [] with
    | .ok result => (some result, db)
    | .error errmsg => (none, { db with lastError := errmsg })

/-! ## Binding and filling -/

@[simp] theorem paramCount_bindParam (stmt : Stmt) (i : ℕ) (p : Param) :
    (bindParam stmt i p).paramCount = stmt.paramCount := by
  rw [bindParam]
  split
  · rfl
  · rfl

@[simp] theorem paramCount_bindParams (stmt : Stmt) (i : ℕ) (params : List Param) :
    (bindParams stmt i params).paramCount = stmt.paramCount := by
  induction params generalizing stmt i with
  | nil => rfl
  | cons p params ih =>
    rw [bindParams, ih, paramCount_bindParam]

theorem bindings_bindParams_of_lt {stmt : Stmt} {i j : ℕ} (h : j < i) (params : List Param) :
    (bindParams stmt i params).bindings j = stmt.bindings j := by
  induction params generalizing stmt i with
  | nil => rfl
  | cons p params ih =>
    rw [bindParams, ih (Nat.lt_succ_of_lt h), bindParam]
    split
    · exact Function.update_of_ne (by omega) _ _
    · rfl

/-- The parameters are bound in order, as far as there are placeholders. -/
theorem bindings_bindParams {stmt : Stmt} {i k : ℕ} {params : List Param} {p : Param} (hi : 1 ≤ i)
    (hk : i + k ≤ stmt.paramCount) (hp : params[k]? = some p) :
    (bindParams stmt i params).bindings (i + k) = p.bound := by
  induction params generalizing stmt i k with
  | nil => exact absurd hp (by simp)
  | cons q params ih =>
    rw [bindParams]
    cases k with
    | zero =>
      obtain rfl := Option.some_inj.mp hp
      have hbound : (bindParams (bindParam stmt i q) (i + 1) params).bindings i = q.bound := by
        rw [bindings_bindParams_of_lt (Nat.lt_add_one i), bindParam, if_pos ⟨hi, hk⟩]
        exact Function.update_self ..
      exact hbound
    | succ k =>
      rw [show i + (k + 1) = i + 1 + k by omega]
      exact ih (by omega) (by rw [paramCount_bindParam]; omega) hp

theorem fillRow_of_not_mem {b : ℕ → Value} {i : ℕ} {items : List (ν × Operand)} {row : Row ν}
    {c : ν} (h : c ∉ items.map Prod.fst) : fillRow b i items row c = row c := by
  induction items generalizing i row with
  | nil => rfl
  | cons x items ih =>
    obtain ⟨d, operand⟩ := x
    obtain ⟨hd, hc⟩ := List.ne_and_not_mem_of_not_mem_cons h
    cases operand with
    | param | value v => rw [fillRow, ih hc, Function.update_of_ne hd]

/-- The `k`-th placeholder of a list is filled with the `k`-th value. -/
theorem fillRow_paramColumns {b : ℕ → Value} {i k : ℕ} {items : List (ν × Operand)} {row : Row ν}
    {c : ν} (hnodup : (items.map Prod.fst).Nodup) (hc : (paramColumns items)[k]? = some c) :
    fillRow b i items row c = b (i + k) := by
  induction items generalizing i k row with
  | nil => exact absurd hc (by simp [paramColumns])
  | cons x items ih =>
    obtain ⟨d, operand⟩ := x
    rw [List.map_cons] at hnodup
    obtain ⟨hd, hitems⟩ := List.nodup_cons.mp hnodup
    cases operand with
    | value v => exact ih hitems hc
    | param =>
      cases k with
      | zero =>
        obtain rfl := Option.some_inj.mp hc
        rw [fillRow, fillRow_of_not_mem hd, Function.update_self, Nat.add_zero]
      | succ k =>
        rw [fillRow, ih hitems hc]
        exact congrArg b (by omega)

/-! ## What is read -/

/-- What a column may be given: a text only goes into a `TEXT` column. -/
def Param.Fits : Param → ColumnType → Prop
  | string _, .integer => False
  | _, _ => True

instance : ∀ (p : Param) (t : ColumnType), Decidable (p.Fits t)
  | .string _, .integer => inferInstanceAs (Decidable False)
  | .string _, .text | .int _, .text | .int _, .integer => inferInstanceAs (Decidable True)

/-- A string is read up to its first NUL. -/
theorem readColumn_text (s : Bytes) : readColumn (.text (cText s)) = cText s := by
  have hfree : 0 ∉ cText s := fun hmem ↦ by simpa using List.mem_takeWhile_imp hmem
  rw [readColumn, Value.columnText]
  exact (cText_append_of_not_mem hfree [0]).trans (List.append_nil _)

theorem readColumn_intDigits (n : ℤ) :
    readColumn (.text (ascii (intDigits n))) = ascii (intDigits n) := by
  have hread := readColumn_text (ascii (intDigits n))
  rwa [cText_of_not_mem (zero_not_mem_intDigits n)] at hread

/-- What is left of a parameter. -/
theorem readColumn_store {numeric : Bytes → Value} {t : ColumnType} {p : Param} (h : p.Fits t) :
    readColumn (t.store numeric p.bound) = cText p.text := by
  cases p with
  | int n =>
    rw [Param.text, cText_of_not_mem (zero_not_mem_intDigits n)]
    cases t with
    | text | integer => exact readColumn_intDigits n
  | string s =>
    cases t with
    | text => exact readColumn_text s
    | integer => exact h.elim

theorem Param.cText_text_eq_iff {p : Param} : cText p.text = p.text ↔ p.NulFree := by
  cases p with
  | int n => exact iff_of_true (cText_of_not_mem (zero_not_mem_intDigits n)) trivial
  | string s =>
    refine ⟨fun h hzero ↦ ?_, cText_of_not_mem⟩
    rw [Param.text] at h
    rw [← h] at hzero
    simpa using List.mem_takeWhile_imp hzero

/-! ## The round trip -/

section RoundTrip

variable {numeric : Bytes → Value} {type : ν → ColumnType}

/-- A row of a result holds the parameters in their columns. -/
def Holds (columns : List ν) (bound : List (ν × Param)) (row : List Bytes) : Prop :=
  ∀ x ∈ bound, ∀ k : ℕ, columns[k]? = some x.1 → row[k]? = some x.2.text

/-- The parameters of an `INSERT`, with their columns. -/
def InsertQuery.bound (query : InsertQuery ν) (params : List Param) : List (ν × Param) :=
  (paramColumns query.items).zip params

/-- What is read from the column of a parameter. -/
theorem readColumn_insertedRow {query : InsertQuery ν} {params : List Param} {x : ν × Param}
    (hx : x ∈ query.bound params) (hfits : x.2.Fits (type x.1)) :
    readColumn (insertedRow numeric type query params x.1) = cText x.2.text := by
  obtain ⟨k, hk⟩ := List.mem_iff_getElem?.mp hx
  obtain ⟨hcolumn, hparam⟩ := List.getElem?_zip_eq_some.mp hk
  have hlt := (List.getElem?_eq_some_iff.mp hcolumn).1
  have hle : 1 + k ≤ (prepare (paramColumns query.items).length).paramCount := by
    rw [Nat.add_comm]
    exact hlt
  have hstored : insertedRow numeric type query params x.1
      = (type x.1).store numeric x.2.bound := by
    simp only [insertedRow, fillRow_paramColumns query.nodup hcolumn,
      bindings_bindParams (Nat.le_refl 1) hle hparam]
  rw [hstored]
  exact readColumn_store hfits

omit [DecidableEq ν] in
theorem fetchRows_map_row {columns : List ν} (rows : List (Row ν)) (steps : List (StepResult ν))
    (result : List (List Bytes)) :
    fetchRows columns (rows.map .row ++ steps) result
      = fetchRows columns steps (result ++ rows.map (readRow columns)) := by
  induction rows generalizing result with
  | nil => simp
  | cons row rows ih =>
    rw [List.map_cons, List.cons_append, fetchRows, ih, List.append_assoc]
    rfl

omit [DecidableEq ν] in
/-- What a `SELECT` that goes through returns. -/
theorem executeQuery_eq_some {fate : Fate} {query : SelectQuery ν} {params : List Param}
    {db db' : Database ν} {result : List (List Bytes)}
    (h : executeQuery fate query params db = (some result, db')) :
    result = (query.order (db.rows.filter
      (query.cond (bindParams (prepare query.paramCount) 1 params).bindings))).map
        (readRow query.columns) := by
  cases fate with
  | notPrepared errmsg => exact absurd (congrArg Prod.fst h) (by simp [executeQuery])
  | failed delivered errmsg =>
    simp only [executeQuery, selectSteps, fetchRows_map_row, fetchRows] at h
    exact absurd (congrArg Prod.fst h) (by simp)
  | done =>
    simp only [executeQuery, selectSteps, fetchRows_map_row, fetchRows, List.nil_append,
      Prod.mk.injEq, Option.some.injEq] at h
    exact h.1.symm

/-- An `INSERT` that goes through adds its row at the end. -/
theorem executeNonQuery_eq_true {fate : Fate} {query : InsertQuery ν} {params : List Param}
    {db db' : Database ν} (h : executeNonQuery numeric type fate query params db = (true, db')) :
    db'.rows = db.rows ++ [insertedRow numeric type query params] := by
  cases fate with
  | notPrepared errmsg | failed delivered errmsg =>
    exact absurd (congrArg Prod.fst h) (by simp [executeNonQuery])
  | done => rw [← (Prod.mk.inj h).2]

/-- The row that was inserted last is read, if it is selected. -/
theorem readRow_insertedRow_mem {query : InsertQuery ν} {select : SelectQuery ν}
    {params selectParams : List Param} {db db' db'' : Database ν} {fate fate' : Fate}
    {result : List (List Bytes)}
    (hwrite : executeNonQuery numeric type fate query params db = (true, db'))
    (hselected : ∀ row ∈ db'.rows.getLast?,
      select.cond (bindParams (prepare select.paramCount) 1 selectParams).bindings row)
    (hread : executeQuery fate' select selectParams db' = (some result, db'')) :
    readRow select.columns (insertedRow numeric type query params) ∈ result := by
  have hrows := executeNonQuery_eq_true hwrite
  have hlast : db'.rows.getLast? = some (insertedRow numeric type query params) := by
    rw [hrows, List.getLast?_concat]
  rw [executeQuery_eq_some hread]
  refine List.mem_map_of_mem ((select.order_perm _).mem_iff.mpr (List.mem_filter.mpr ⟨?_, ?_⟩))
  · rw [hrows]
    exact List.mem_append_right _ List.mem_cons_self
  · exact hselected _ hlast

/-- **Text survives without NULs, and only then.** Insert a row with parameters, and select it: the
row of the result holds the parameters in their columns exactly if no string in these has a NUL. -/
theorem holds_iff_nulFree {query : InsertQuery ν} {select : SelectQuery ν}
    {params selectParams : List Param} {db db' db'' : Database ν} {fate fate' : Fate}
    {result : List (List Bytes)} (hfits : ∀ x ∈ query.bound params, x.2.Fits (type x.1))
    (hwrite : executeNonQuery numeric type fate query params db = (true, db'))
    (hselected : ∀ row ∈ db'.rows.getLast?,
      select.cond (bindParams (prepare select.paramCount) 1 selectParams).bindings row)
    (hread : executeQuery fate' select selectParams db' = (some result, db'')) :
    (∃ row ∈ db'.rows.getLast?, readRow select.columns row ∈ result ∧
      Holds select.columns (query.bound params) (readRow select.columns row)) ↔
    ∀ x ∈ query.bound params, x.1 ∈ select.columns → x.2.NulFree := by
  have hlast : db'.rows.getLast? = some (insertedRow numeric type query params) := by
    rw [executeNonQuery_eq_true hwrite, List.getLast?_concat]
  have hmem := readRow_insertedRow_mem hwrite hselected hread
  have hvalue : ∀ x ∈ query.bound params,
      readColumn (insertedRow numeric type query params x.1) = cText x.2.text :=
    fun x hx ↦ readColumn_insertedRow hx (hfits x hx)
  rw [hlast]
  constructor
  · rintro ⟨row, hrow, -, hholds⟩ x hx hselect
    obtain rfl := Option.some_inj.mp hrow
    obtain ⟨k, hk⟩ := List.mem_iff_getElem?.mp hselect
    have hcolumn := hholds x hx k hk
    rw [readRow, List.getElem?_map, hk, Option.map_some, Option.some_inj, hvalue x hx] at hcolumn
    exact Param.cText_text_eq_iff.mp hcolumn
  · intro hfree
    refine ⟨_, rfl, hmem, fun x hx k hk ↦ ?_⟩
    rw [readRow, List.getElem?_map, hk, Option.map_some, hvalue x hx,
      Param.cText_text_eq_iff.mpr (hfree x hx (List.mem_of_getElem? hk))]

end RoundTrip

/-! ## The log of server events -/

/-- The columns of `ServerEvents`. -/
def eventColumnType : EventColumn → ColumnType
  | .description | .timestamp => .text
  | _ => .integer

/-- The `INSERT` of `AddServerEvent`. -/
def addServerEventQuery : InsertQuery EventColumn where
  items :=
    [(.eventType, .param), (.pushId, .value .null), (.ownerType, .param), (.ownerId, .value .null),
      (.description, .param), (.timestamp, .param)]
  nodup := by decide

/-- A `SELECT` of all events in the order of their keys. -/
def selectServerEvents : SelectQuery EventColumn where
  columns := [.eventType, .ownerType, .ownerId, .pushId, .description]
  paramCount := 0
  cond _ _ := true
  order rows := rows
  order_perm _ := List.Perm.refl _

def serverEventParams (description : Bytes) : List Param :=
  [.int 6, .int 0, .string description, .string (asciiText "2026-01-09 08:05:00")]

/-- The log after one server event. -/
def loggedDb (description : Bytes) : Database EventColumn :=
  (executeNonQuery .text eventColumnType .done addServerEventQuery (serverEventParams description)
    ⟨[], []⟩).2

theorem executeNonQuery_loggedDb (description : Bytes) :
    executeNonQuery .text eventColumnType .done addServerEventQuery (serverEventParams description)
      ⟨[], []⟩ = (true, loggedDb description) := rfl

theorem executeQuery_loggedDb (description : Bytes) :
    executeQuery .done selectServerEvents [] (loggedDb description)
      = (some [[asciiText "6", asciiText "0", [], [], cText (cText description ++ [0])]],
          loggedDb description) := rfl

/-- A row of the test. -/
theorem holds_iff_nulFree_serverEvent :
    ∃ row ∈ (loggedDb (asciiText "Server started")).rows.getLast?,
      Holds selectServerEvents.columns
        (addServerEventQuery.bound (serverEventParams (asciiText "Server started")))
        (readRow selectServerEvents.columns row) := by
  have hfits : ∀ x ∈ addServerEventQuery.bound (serverEventParams (asciiText "Server started")),
      x.2.Fits (eventColumnType x.1) := by decide
  obtain ⟨row, hrow, -, hholds⟩ := (holds_iff_nulFree hfits
    (executeNonQuery_loggedDb (asciiText "Server started")) (fun _ _ ↦ rfl)
    (executeQuery_loggedDb (asciiText "Server started"))).mpr (by decide)
  exact ⟨row, hrow, hholds⟩

/-- Of `a`, NUL, `b` only the `a` is read back. -/
theorem not_holds_nul :
    (executeQuery .done selectServerEvents [] (loggedDb [97, 0, 98])).1
        = some [[asciiText "6", asciiText "0", [], [], [97]]] ∧
      ∀ row ∈ (loggedDb [97, 0, 98]).rows.getLast?, ¬Holds selectServerEvents.columns
        (addServerEventQuery.bound (serverEventParams [97, 0, 98]))
        (readRow selectServerEvents.columns row) := by
  refine ⟨rfl, fun row hrow hholds ↦ ?_⟩
  obtain rfl := Option.some_inj.mp hrow
  have hdescription := hholds (.description, .string [97, 0, 98]) (by decide) 4 rfl
  exact absurd hdescription (by decide)

end SqliteDb

end PushService
