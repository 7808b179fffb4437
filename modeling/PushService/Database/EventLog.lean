import PushService.Database.EventBytes

/-!
# Reading the event log

`ServerEvents` is written by the three functions of `ServerEventDAO` and read by `ExecuteQuery`, all
of them on one `Database`. Here the two are mixed in any order, and any of the statements may fail.
A failing one leaves the table as it is, so a `SELECT` that goes through reads a row for each
earlier call that returned true, if it meets the condition, and nothing else (`answers_of_run`).

Of a description with a NUL the part before it is logged, and the call returns true (`cut`).
`GetLastError` does not tell whether the last statement has failed: the message of an earlier one
stays, and an empty message is none.
-/

namespace PushService

namespace Database

theorem nulFree_cStr (s : String) : NulFree (cStr s) := by
  rw [NulFree, cStr, String.toList_ofList]
  exact fun hmem ↦ by simpa using List.mem_takeWhile_imp hmem

namespace EventCall

/-- The call with another description. -/
def withDescription (d : String) : EventCall → EventCall
  | server t _ time => server t d time
  | user t id _ time => user t id d time
  | push t id _ time => push t id d time

/-- The call as it is logged. -/
def cut (c : EventCall) : EventCall := c.withDescription (cStr c.description)

theorem nulFree_cut (c : EventCall) : NulFree c.cut.description := by
  cases c with
  | server | user | push => exact nulFree_cStr _

theorem cut_of_nulFree {c : EventCall} (h : NulFree c.description) : c.cut = c := by
  rw [cut, cStr_of_nulFree h]
  cases c with
  | server | user | push => rfl

end EventCall

end Database

namespace SqliteDb

open Numerals
open PushService.Database (EventColumn EventCall Timestamp NulFree)

variable {ν : Type*}

/-- `GetLastError`. -/
def Database.getLastError (db : Database ν) : Option Bytes :=
  if db.lastError.isEmpty then none else some db.lastError

/-- The message of a statement that fails. -/
def Fate.message : Fate → Option Bytes
  | .notPrepared errmsg | .failed _ errmsg => some errmsg
  | .done => none

/-! ## One statement -/

/-- Only what is bound matters. -/
theorem bindParams_congr {params params' : List Param}
    (h : params.map Param.bound = params'.map Param.bound) (stmt : Stmt) (i : ℕ) :
    bindParams stmt i params = bindParams stmt i params' := by
  induction params generalizing stmt i params' with
  | nil =>
    obtain rfl : params' = [] := by simpa using h.symm
    rfl
  | cons p params ih =>
    cases params' with
    | nil => exact absurd h (by simp)
    | cons p' params' =>
      rw [List.map_cons, List.map_cons, List.cons.injEq] at h
      have hbind : bindParam stmt i p = bindParam stmt i p' := by rw [bindParam, bindParam, h.1]
      rw [bindParams, bindParams, hbind, ih h.2]

/-- The row that is stored for a call. -/
def storedRow (c : EventCall) : Row EventColumn := fun column ↦ Value.ofSql (c.cut.row column)

/-- What is read of a call. -/
def textRow (columns : List EventColumn) (c : EventCall) : List Bytes :=
  columns.map fun column ↦ textOf (c.cut.row column)

example : textRow selectServerEvents.columns (.push .pushSent 3 "a\x00b" .noon)
    = [asciiText "1", asciiText "0", [], asciiText "3", asciiText "a"] := rfl

theorem bound_cut (c : EventCall) :
    (c.params.map Param.ofSql).map Param.bound =
      (c.cut.params.map Param.ofSql).map Param.bound := by
  have htwice : PushService.Database.cStr (PushService.Database.cStr c.description)
      = PushService.Database.cStr c.description :=
    PushService.Database.cStr_of_nulFree (PushService.Database.nulFree_cStr _)
  have hdescription : (Param.ofSql (.string c.description)).bound
      = (Param.ofSql (.string c.cut.description)).bound := by
    have hcut : c.cut.description = PushService.Database.cStr c.description := by
      cases c with
      | server | user | push => rfl
    rw [bound_ofSql, bound_ofSql, hcut, PushService.Database.Param.bound,
      PushService.Database.Param.bound, htwice]
  cases c with
  | server t d time | user t id d time | push t id d time =>
    simpa [EventCall.params, EventCall.cut, EventCall.withDescription, EventCall.description]
      using hdescription

theorem insertedRow_eq_storedRow (numeric : Bytes → Value) (c : EventCall) :
    insertedRow numeric eventColumnType (eventQuery c) (c.params.map Param.ofSql)
      = storedRow c := by
  have hquery : eventQuery c = eventQuery c.cut := by
    cases c with
    | server | user | push => rfl
  funext column
  have hcut : insertedRow numeric eventColumnType (eventQuery c.cut) (c.cut.params.map Param.ofSql)
      column
      = storedRow c column := insertedRow_eventQuery c.nulFree_cut column
  rw [← hcut, ← hquery, insertedRow, insertedRow, bindParams_congr (bound_cut c)]

theorem readRow_storedRow (columns : List EventColumn) (c : EventCall) :
    readRow columns (storedRow c) = textRow columns c := by
  refine List.map_congr_left fun column _ ↦ readColumn_ofSql ?_
  have hdescription := c.nulFree_cut
  cases c with
  | server | user | push =>
    cases column with
    | description => exact hdescription
    | timestamp => exact Timestamp.nulFree _
    | eventType | pushId | ownerType | ownerId => trivial

/-- A `SELECT` goes through or has a message. -/
theorem executeQuery_eq [DecidableEq ν] (fate : Fate) (query : SelectQuery ν) (params : List Param)
    (db : Database ν) :
    executeQuery fate query params db =
      match fate.message with
      | some errmsg => (none, { db with lastError := errmsg })
      | none =>
        (some ((query.order (db.rows.filter
          (query.cond (bindParams (prepare query.paramCount) 1 params).bindings))).map
            (readRow query.columns)), db) := by
  cases fate with
  | notPrepared errmsg => rfl
  | failed delivered errmsg =>
    simp only [executeQuery, selectSteps, fetchRows_map_row, fetchRows, Fate.message]
  | done =>
    simp only [executeQuery, selectSteps, fetchRows_map_row, fetchRows, Fate.message,
      List.nil_append]

/-! ## The log in use -/

namespace EventLog

inductive Action
  /-- One of the three functions of the DAO. -/
  | add (c : EventCall) (fate : Fate)
  | select (query : SelectQuery EventColumn) (params : List Param) (fate : Fate)

/-- A call that has returned. -/
inductive Event
  | added (c : EventCall) (fate : Fate) (result : Bool)
  | selected (query : SelectQuery EventColumn) (params : List Param) (fate : Fate)
    (result : Option (List (List Bytes)))

def Event.fate : Event → Fate
  | added _ fate _ | selected _ _ fate _ => fate

/-- The `ExecuteNonQuery` of a function of the DAO. -/
def add (numeric : Bytes → Value) (c : EventCall) (fate : Fate) :
    Database EventColumn → Bool × Database EventColumn :=
  executeNonQuery numeric eventColumnType fate (eventQuery c) (c.params.map Param.ofSql)

def system (numeric : Bytes → Value) : System (Database EventColumn) Action Event where
  step db
    | .add c fate =>
      let (result, db') := add numeric c fate db
      some (db', [.added c fate result])
    | .select query params fate =>
      let (result, db') := executeQuery fate query params db
      some (db', [.selected query params fate result])

/-- The calls that returned true. -/
def successful (h : List Event) : List EventCall :=
  h.filterMap fun
    | .added c _ true => some c
    | _ => none

/-- The messages of the statements that failed. -/
def messages (h : List Event) : List Bytes :=
  h.filterMap fun e ↦ e.fate.message

/-- What a call should return after the calls before it. A `SELECT` finds what was logged and meets
the condition; without an `ORDER BY` of its own it finds it in the order of the calls. -/
def Answers (before : List Event) : Event → Prop
  | .added _ fate result => result = fate.message.isNone
  | .selected _ _ fate none => fate.message.isSome
  | .selected query params fate (some result) =>
    let found := ((successful before).filter fun c ↦
      query.cond (bindParams (prepare query.paramCount) 1 params).bindings (storedRow c)).map
        (textRow query.columns)
    fate.message = none ∧ result.Perm found ∧ ((∀ rows, query.order rows = rows) → result = found)

/-- What the database has to do with the calls. -/
structure Logs (db : Database EventColumn) (h : List Event) : Prop where
  rows : db.rows = (successful h).map storedRow
  lastError : db.lastError = (messages h).getLast?.getD []
  answers : System.EachOutput Answers h

variable {numeric : Bytes → Value} {db db' : Database EventColumn} {h es : List Event}

theorem successful_append (h es : List Event) :
    successful (h ++ es) = successful h ++ successful es :=
  List.filterMap_append ..

theorem messages_append (h es : List Event) : messages (h ++ es) = messages h ++ messages es :=
  List.filterMap_append ..

/-- A statement that fails changes nothing but `last_error_`. -/
theorem Logs.fail (hI : Logs db h) {e : Event} {errmsg : Bytes}
    (hmessage : e.fate.message = some errmsg)
    (hsuccessful : successful [e] = []) (he : Answers h e) :
    Logs { db with lastError := errmsg } (h ++ [e]) := by
  have hmessages : messages [e] = [errmsg] := by simp [messages, hmessage]
  refine ⟨?_, ?_, hI.answers.concat he⟩
  · rw [successful_append, hsuccessful, List.append_nil, ← hI.rows]
  · rw [messages_append, hmessages, List.getLast?_concat, Option.getD_some]

theorem Logs.add (hI : Logs db h) (c : EventCall) (fate : Fate) :
    Logs (add numeric c fate db).2 (h ++ [.added c fate (add numeric c fate db).1]) := by
  cases fate with
  | notPrepared errmsg | failed delivered errmsg => exact hI.fail rfl rfl rfl
  | done =>
    refine ⟨?_, ?_, hI.answers.concat rfl⟩
    · rw [successful_append, List.map_append, ← hI.rows, EventLog.add, executeNonQuery,
        insertedRow_eq_storedRow]
      rfl
    · rw [messages_append]
      exact hI.lastError.trans (by simp [messages, Event.fate, Fate.message])

/-- A `SELECT` that goes through reads the calls it selects. -/
theorem Logs.found (hI : Logs db h) (query : SelectQuery EventColumn) (params : List Param) :
    Answers h (.selected query params .done (some ((query.order (db.rows.filter
      (query.cond (bindParams (prepare query.paramCount) 1 params).bindings))).map
        (readRow query.columns)))) := by
  have hfound : (db.rows.filter
      (query.cond (bindParams (prepare query.paramCount) 1 params).bindings)).map
        (readRow query.columns)
      = ((successful h).filter fun c ↦
          query.cond (bindParams (prepare query.paramCount) 1 params).bindings (storedRow c)).map
        (textRow query.columns) := by
    rw [hI.rows, List.filter_map, List.map_map]
    exact List.map_congr_left fun c _ ↦ readRow_storedRow query.columns c
  refine ⟨rfl, ?_, fun horder ↦ ?_⟩
  · rw [← hfound]
    exact (query.order_perm _).map _
  · rw [horder, hfound]

theorem Logs.select (hI : Logs db h) (query : SelectQuery EventColumn) (params : List Param)
    (fate : Fate) :
    Logs (executeQuery fate query params db).2
      (h ++ [.selected query params fate (executeQuery fate query params db).1]) := by
  rw [executeQuery_eq]
  cases fate with
  | notPrepared errmsg | failed delivered errmsg => exact hI.fail rfl rfl rfl
  | done =>
    refine ⟨?_, ?_, hI.answers.concat (hI.found query params)⟩
    · rw [successful_append]
      exact hI.rows.trans (by simp [successful])
    · rw [messages_append]
      exact hI.lastError.trans (by simp [messages, Event.fate, Fate.message])

theorem Logs.step (hI : Logs db h) {a : Action}
    (hstep : (system numeric).step db a = some (db', es)) : Logs db' (h ++ es) := by
  cases a with
  | add c fate =>
    obtain ⟨rfl, rfl⟩ := Prod.mk.inj (Option.some_inj.mp hstep)
    exact hI.add c fate
  | select query params fate =>
    obtain ⟨rfl, rfl⟩ := Prod.mk.inj (Option.some_inj.mp hstep)
    exact hI.select query params fate

/-- **Every `SELECT` reads the calls before it.** However the calls and the `SELECT`s on a fresh
table are mixed and whichever statements fail, each returns what it should (`Answers`), and
`GetLastError` returns the message of the last statement that failed, unless it is empty. -/
theorem answers_of_run (numeric : Bytes → Value) (as : List Action) (db : Database EventColumn)
    (h : List Event) (hrun : (system numeric).run ⟨[], []⟩ as = some (db, h)) :
    System.EachOutput Answers h ∧
      db.getLastError = (messages h).getLast?.filter fun message ↦ !message.isEmpty := by
  obtain ⟨-, hlast, hanswers⟩ := System.run_invariant (I := Logs) (h := [])
    (fun hI hstep ↦ hI.step hstep) (s := ⟨[], []⟩) ⟨rfl, rfl, System.eachOutput_nil⟩ hrun
  rw [List.nil_append] at hlast hanswers
  refine ⟨hanswers, ?_⟩
  rw [Database.getLastError, hlast]
  cases (messages h).getLast? with
  | none => rfl
  | some message => cases message <;> rfl

/-- The event of a user is not logged, and that of a push only up to the NUL. -/
def mixedRun : List Action :=
  [.add (.server .serverUp "up" .midnight) .done, .select selectServerEvents [] .done,
    .add (.user .clientConnected 7 "in" .noon) (.failed 0 (asciiText "database is locked")),
    .add (.push .pushSent 3 "a\x00b" .noon) .done, .select selectServerEvents [] .done]

theorem answers_of_run_mixedRun : ∃ db h, (system .text).run ⟨[], []⟩ mixedRun = some (db, h) ∧
    System.EachOutput Answers h ∧ db.getLastError = some (asciiText "database is locked") := by
  have hrun : (system .text).run ⟨[], []⟩ mixedRun = some (_, _) := rfl
  obtain ⟨hanswers, herror⟩ := answers_of_run .text mixedRun _ _ hrun
  exact ⟨_, _, hrun, hanswers, herror.trans rfl⟩

end EventLog

end SqliteDb

end PushService
