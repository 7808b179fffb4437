import Mathlib.Data.Int.Notation
import Mathlib.Data.List.TakeWhile
import PushService.System.Run

/-!
# The event log

`ServerEventDAO` keeps the table `ServerEvents` and a trigger that writes the time of a connection
into `users`. The three functions that add events each have a text with literal `NULL`s and
placeholders, and bind their arguments by position.

## What is in the database

The table `users`, the table `ServerEvents` with its rows in order, and the trigger of the name
`trg_update_user_last_seen`, which is on `ServerEvents`, where `CreateLastSeenTrigger` puts it, or
on some other table. A statement may fail for reasons outside the database; then it changes nothing.

## The table that `InitTable` leaves

`InitTable` does not look at what becomes of `DROP TABLE`, and its two other statements do nothing
where the table or a trigger of the name exists. So it may return true with the rows of an earlier
time in the table, or without a trigger on it. Where neither is the case, the log and the times in
`users` stay in step with the calls.
-/

namespace PushService

namespace Database

/-! ## Values and parameters -/

/-- A value of SQLite. -/
inductive SqlValue
  | null
  | int (n : ℤ)
  | text (s : String)
  deriving DecidableEq, Repr

/-- Equality in an SQL condition: `NULL` is equal to nothing. -/
def SqlValue.eq : SqlValue → SqlValue → Bool
  | .int m, .int n => m = n
  | .text s, .text t => s = t
  | _, _ => false

/-- What stands in a list of `VALUES`. -/
inductive Slot
  | null
  /-- A `?`. -/
  | param
  deriving DecidableEq, Repr

/-- An argument of `ExecuteNonQuery`. -/
inductive Param
  | int (n : ℤ)
  | string (s : String)
  deriving DecidableEq, Repr

/-- A string holds no NUL. -/
def NulFree (s : String) : Prop :=
  '\x00' ∉ s.toList

/-- The string that `c_str()` with the length `-1` stands for. -/
def cStr (s : String) : String :=
  String.ofList (s.toList.takeWhile (· ≠ '\x00'))

theorem cStr_of_nulFree {s : String} (h : NulFree s) : cStr s = s := by
  rw [cStr, List.takeWhile_eq_self_iff.mpr, String.ofList_toList]
  intro c hc
  simp only [ne_eq, decide_eq_true_eq]
  rintro rfl
  exact h hc

/-- `BindParam`. -/
def Param.bound : Param → SqlValue
  | .int n => .int n
  | .string s => .text (cStr s)

/-- `BindParams`: the arguments get the numbers from `start` on. -/
def bindParams (start : ℕ) : List Param → List (ℕ × SqlValue)
  | [] => []
  | p :: ps => (start, p.bound) :: bindParams (start + 1) ps

/-- The values of a list of `VALUES` whose next placeholder has the number `i`: it takes the value
that is bound to its number. -/
def fillSlots (bound : List (ℕ × SqlValue)) (i : ℕ) : List Slot → List SqlValue
  | [] => []
  | .null :: l => .null :: fillSlots bound i l
  | .param :: l => (bound.lookup i).getD .null :: fillSlots bound (i + 1) l

/-! ## The table and its trigger -/

/-- `ServerEventType`. -/
inductive ServerEventType
  | clientConnected
  | pushSent
  | clientDisconnected
  | clientReconnected
  | clientAuthorized
  | pushAccepted
  | serverUp
  | serverDown
  deriving DecidableEq, Repr

def ServerEventType.toInt : ServerEventType → ℤ
  | clientConnected => 0
  | pushSent => 1
  | clientDisconnected => 2
  | clientReconnected => 3
  | clientAuthorized => 4
  | pushAccepted => 5
  | serverUp => 6
  | serverDown => 7

/-- `EventOwnerType`. -/
inductive EventOwnerType
  | server
  | user
  deriving DecidableEq, Repr

def EventOwnerType.toInt : EventOwnerType → ℤ
  | server => 0
  | user => 1

/-- The columns of `ServerEvents` but its automatic key. -/
inductive EventColumn
  | eventType
  | pushId
  | ownerType
  | ownerId
  | description
  | timestamp
  deriving DecidableEq, Repr

/-- A row of `ServerEvents`. -/
abbrev EventRow := EventColumn → SqlValue

/-- The columns that are `NOT NULL`. -/
def EventRow.WellFormed (row : EventRow) : Prop :=
  row .eventType ≠ .null ∧ row .ownerType ≠ .null ∧ row .timestamp ≠ .null

instance (row : EventRow) : Decidable row.WellFormed :=
  inferInstanceAs (Decidable (_ ∧ _))

/-- The row of an `INSERT` that names the columns and lists the values; a column it does not name is
`NULL`. -/
def EventRow.ofColumns (columns : List EventColumn) (values : List SqlValue) : EventRow :=
  fun c ↦ ((columns.zip values).lookup c).getD .null

/-- A row of `users`, as far as it matters. -/
structure UserRow where
  id : ℤ
  lastSeen : SqlValue
  deriving DecidableEq, Repr

/-- The table a trigger is on. -/
inductive TriggerTable
  | serverEvents
  | other
  deriving DecidableEq, Repr

structure EventDb where
  /-- `ServerEvents`, if it exists. -/
  serverEvents : Option (List EventRow)
  /-- The trigger `trg_update_user_last_seen`, if it exists. -/
  trigger : Option TriggerTable
  users : List UserRow

/-- The `WHEN` of the trigger. -/
def trgWhen (new : EventRow) : Bool :=
  (new .ownerType).eq (.int 1) && [.int 0, .int 3].any (new .eventType).eq

/-- The body of the trigger: `last_seen` of the owner becomes the time of the event. -/
def trgBody (new : EventRow) (users : List UserRow) : List UserRow :=
  users.map fun u ↦
    if (SqlValue.int u.id).eq (new .ownerId) then { u with lastSeen := new .timestamp } else u

/-- Insert a row, which fires the trigger if it is on the table. -/
def EventDb.insert (db : EventDb) (rows : List EventRow) (new : EventRow) : EventDb :=
  { db with
    serverEvents := some (rows ++ [new])
    users :=
      if db.trigger = some .serverEvents ∧ trgWhen new then trgBody new db.users else db.users }

/-! ## The functions of the DAO -/

/-- What becomes of the statements of `InitTable`, as far as it is not up to the database. -/
structure InitFates where
  drop : Bool
  create : Bool
  trigger : Bool
  deriving DecidableEq, Repr

/-- `DROP TABLE IF EXISTS ServerEvents`, which drops the triggers on it too. -/
def EventDb.dropTable (db : EventDb) : EventDb :=
  { db with
    serverEvents := none
    trigger := if db.trigger = some .serverEvents then none else db.trigger }

/-- `CREATE TABLE IF NOT EXISTS ServerEvents`. -/
def EventDb.createTable (db : EventDb) : EventDb :=
  { db with serverEvents := some (db.serverEvents.getD []) }

/-- `CREATE TRIGGER IF NOT EXISTS trg_update_user_last_seen` on `ServerEvents`. -/
def EventDb.createTrigger (db : EventDb) : EventDb :=
  { db with trigger := some (db.trigger.getD .serverEvents) }

/-- `InitTable`. -/
def initTable (f : InitFates) (db : EventDb) : Bool × EventDb :=
  let db₁ := if f.drop then db.dropTable else db
  if ¬f.create then (false, db₁)
  else
    let db₂ := db₁.createTable
    if ¬f.trigger then (false, db₂) else (true, db₂.createTrigger)

/-- `ExecuteNonQuery` with an `INSERT INTO ServerEvents`; `fate` is what becomes of the
statement. -/
def executeInsert (fate : Bool) (columns : List EventColumn) (values : List Slot)
    (params : List Param) (db : EventDb) : Bool × EventDb :=
  match fate, db.serverEvents with
  | true, some rows =>
    let new := EventRow.ofColumns columns (fillSlots (bindParams 1 params) 1 values)
    if new.WellFormed then (true, db.insert rows new) else (false, db)
  | _, _ => (false, db)

/-- What `GetCurrentTime` returns. -/
structure Timestamp where
  text : String
  nulFree : NulFree text

/-- The columns each of the three texts names. -/
def eventColumns : List EventColumn :=
  [.eventType, .pushId, .ownerType, .ownerId, .description, .timestamp]

def addServerEvent (fate : Bool) (type : ServerEventType) (description : String)
    (time : Timestamp) : EventDb → Bool × EventDb :=
  executeInsert fate eventColumns [.param, .null, .param, .null, .param, .param]
    [.int type.toInt, .int EventOwnerType.server.toInt, .string description, .string time.text]

def addUserEvent (fate : Bool) (type : ServerEventType) (userId : ℤ) (description : String)
    (time : Timestamp) : EventDb → Bool × EventDb :=
  executeInsert fate eventColumns [.param, .null, .param, .param, .param, .param]
    [.int type.toInt, .int EventOwnerType.user.toInt, .int userId, .string description,
      .string time.text]

def addPushEvent (fate : Bool) (type : ServerEventType) (pushId : ℤ) (description : String)
    (time : Timestamp) : EventDb → Bool × EventDb :=
  executeInsert fate eventColumns [.param, .param, .param, .null, .param, .param]
    [.int type.toInt, .int pushId, .int EventOwnerType.server.toInt, .string description,
      .string time.text]

/-! ## Sequences of calls -/

/-- A call of the DAO, with the time at which it is made. -/
inductive EventCall
  | server (type : ServerEventType) (description : String) (time : Timestamp)
  | user (type : ServerEventType) (userId : ℤ) (description : String) (time : Timestamp)
  | push (type : ServerEventType) (pushId : ℤ) (description : String) (time : Timestamp)

namespace EventCall

def description : EventCall → String
  | server _ d _ | user _ _ d _ | push _ _ d _ => d

def type : EventCall → ServerEventType
  | server t _ _ | user t _ _ _ | push t _ _ _ => t

def time : EventCall → Timestamp
  | server _ _ t | user _ _ _ t | push _ _ _ t => t

/-- The call on a database, with the fate of its statement. -/
def execute (fate : Bool) : EventCall → EventDb → Bool × EventDb
  | server t d time => addServerEvent fate t d time
  | user t id d time => addUserEvent fate t id d time
  | push t id d time => addPushEvent fate t id d time

/-- What stands for the columns in the text of the call. -/
def slots : EventCall → List Slot
  | server _ _ _ => [.param, .null, .param, .null, .param, .param]
  | user _ _ _ _ => [.param, .null, .param, .param, .param, .param]
  | push _ _ _ _ => [.param, .param, .param, .null, .param, .param]

/-- The arguments of the call for the text. -/
def params : EventCall → List Param
  | server t d time =>
    [.int t.toInt, .int EventOwnerType.server.toInt, .string d, .string time.text]
  | user t id d time =>
    [.int t.toInt, .int EventOwnerType.user.toInt, .int id, .string d, .string time.text]
  | push t id d time =>
    [.int t.toInt, .int id, .int EventOwnerType.server.toInt, .string d, .string time.text]

/-! ## What the log should hold -/

/-- The row of a call: what was given, with a push only for `AddPushEvent` and an owner only for
`AddUserEvent`. -/
def row (c : EventCall) : EventRow
  | .eventType => .int c.type.toInt
  | .pushId =>
    match c with
    | push _ id _ _ => .int id
    | server _ _ _ | user _ _ _ _ => .null
  | .ownerType =>
    match c with
    | user _ _ _ _ => .int EventOwnerType.user.toInt
    | server _ _ _ | push _ _ _ _ => .int EventOwnerType.server.toInt
  | .ownerId =>
    match c with
    | user _ id _ _ => .int id
    | server _ _ _ | push _ _ _ _ => .null
  | .description => .text c.description
  | .timestamp => .text c.time.text

/-- The time of the call, if it tells of a connection of the user. -/
def connects (id : ℤ) : EventCall → Option SqlValue
  | user .clientConnected owner _ time | user .clientReconnected owner _ time =>
    if owner = id then some (.text time.text) else none
  | server _ _ _ | push _ _ _ _ | user _ _ _ _ => none

end EventCall

/-- The time of the last call that tells of a connection of the user. -/
def lastConnection (id : ℤ) (calls : List EventCall) : Option SqlValue :=
  (calls.filterMap (EventCall.connects id)).getLast?

/-- What `last_seen` should be after the calls. -/
def UserRow.seen (calls : List EventCall) (u : UserRow) : UserRow :=
  { u with lastSeen := (lastConnection u.id calls).getD u.lastSeen }

/-- The log holds a row for each call, in order, and each user was last seen at the last connection
that the calls tell of, or is as in `users`. -/
def InStep (users : List UserRow) (calls : List EventCall) (db : EventDb) : Prop :=
  db.serverEvents = some (calls.map EventCall.row) ∧ db.users = users.map (UserRow.seen calls)

/-- The DAO: each call is made with some fate of its statement; what is observed is the call and
what it returned. -/
def eventLog : System EventDb (EventCall × Bool) (EventCall × Bool) where
  step db a :=
    let r := a.1.execute a.2 db
    some (r.2, [(a.1, r.1)])

/-- The calls that returned true. -/
def successful (h : List (EventCall × Bool)) : List EventCall :=
  (h.filter Prod.snd).map Prod.fst

/-! ## One call -/

variable {db db₁ : EventDb} {c : EventCall}

theorem EventCall.wellFormed_row (c : EventCall) : c.row.WellFormed := by
  cases c with
  | server | user | push => simp [EventRow.WellFormed, row]

theorem EventCall.execute_eq_executeInsert (c : EventCall) (fate : Bool) (db : EventDb) :
    c.execute fate db = executeInsert fate eventColumns c.slots c.params db := by
  cases c with
  | server | user | push => rfl

/-- Each argument is bound to the place of its own column. -/
theorem EventCall.ofColumns_eq_row (hc : NulFree c.description) :
    EventRow.ofColumns eventColumns (fillSlots (bindParams 1 c.params) 1 c.slots) = c.row := by
  have htext : ∀ (time : Timestamp), (Param.string time.text).bound = .text time.text :=
    fun time ↦ congrArg SqlValue.text (cStr_of_nulFree time.nulFree)
  have hdescription : (Param.string c.description).bound = .text c.description :=
    congrArg SqlValue.text (cStr_of_nulFree hc)
  funext column
  cases c with
  | server t d time | user t id d time | push t id d time =>
    cases column with
    | description => exact hdescription
    | timestamp => exact htext time
    | eventType | pushId | ownerType | ownerId => rfl

/-- **Binding by position.** The three texts put each argument into its own column. -/
theorem EventCall.execute_eq (hc : NulFree c.description) (fate : Bool) (db : EventDb) :
    c.execute fate db =
      match fate, db.serverEvents with
      | true, some rows => (true, db.insert rows c.row)
      | _, _ => (false, db) := by
  rw [c.execute_eq_executeInsert]
  unfold executeInsert
  cases fate with
  | false => rfl
  | true =>
    cases db.serverEvents with
    | none => rfl
    | some rows => simp only [ofColumns_eq_row hc, if_pos c.wellFormed_row]

/-! ## The trigger -/

theorem lastConnection_append (id : ℤ) (calls : List EventCall) (c : EventCall) :
    lastConnection id (calls ++ [c]) = (c.connects id).or (lastConnection id calls) := by
  rw [lastConnection, List.filterMap_append]
  cases h : c.connects id with
  | none => simp [h, lastConnection]
  | some v => simp [h]

/-- One user: the time of a connection is the new `last_seen`. -/
theorem seen_append (calls : List EventCall) (c : EventCall) (u : UserRow) :
    u.seen (calls ++ [c]) =
      match c.connects u.id with
      | some v => { u with lastSeen := v }
      | none => u.seen calls := by
  rw [UserRow.seen, lastConnection_append]
  cases c.connects u.id with
  | none => rfl
  | some v => rfl

/-- The trigger writes what the call tells of a connection, and nothing else. -/
theorem trgBody_row (calls : List EventCall) (users : List UserRow) (c : EventCall) :
    (if trgWhen c.row then trgBody c.row (users.map (UserRow.seen calls))
      else users.map (UserRow.seen calls)) = users.map (UserRow.seen (calls ++ [c])) := by
  have hquiet : (∀ id, c.connects id = none) →
      users.map (UserRow.seen calls) = users.map (UserRow.seen (calls ++ [c])) := by
    intro h
    refine List.map_congr_left fun u _ ↦ ?_
    rw [seen_append, h]
  cases c with
  | server | push => exact hquiet fun _ ↦ rfl
  | user t owner d time =>
    have hconnection : (∀ id, (EventCall.user t owner d time).connects id =
          if owner = id then some (.text time.text) else none) →
        trgBody (EventCall.user t owner d time).row (users.map (UserRow.seen calls)) =
          users.map (UserRow.seen (calls ++ [.user t owner d time])) := by
      intro h
      rw [trgBody, List.map_map]
      refine List.map_congr_left fun u _ ↦ ?_
      rw [Function.comp_apply, seen_append, h]
      by_cases hid : u.id = owner
      · simp [EventCall.row, SqlValue.eq, UserRow.seen, hid, EventCall.time]
      · simp [EventCall.row, SqlValue.eq, UserRow.seen, hid, Ne.symm hid]
    cases t with
    | clientConnected | clientReconnected => exact hconnection fun _ ↦ rfl
    | pushSent | clientDisconnected | clientAuthorized | pushAccepted | serverUp | serverDown =>
      exact hquiet fun _ ↦ rfl

/-! ## Runs -/

/-- The log as it is kept: in step with the successful calls, under the trigger. -/
def Kept (users : List UserRow) (h : List (EventCall × Bool)) (db : EventDb) : Prop :=
  InStep users (successful h) db ∧ (db.trigger = some .serverEvents ∨ users = [])

theorem Kept.execute {users : List UserRow} {h : List (EventCall × Bool)} (hK : Kept users h db)
    (hc : NulFree c.description) (fate : Bool) :
    Kept users (h ++ [(c, (c.execute fate db).1)]) (c.execute fate db).2 := by
  obtain ⟨⟨hrows, husers⟩, htrigger⟩ := hK
  rw [EventCall.execute_eq hc, hrows]
  cases fate with
  | false =>
    exact ⟨⟨by simpa [successful] using hrows, by simpa [successful] using husers⟩, htrigger⟩
  | true =>
    have hsuccessful : successful (h ++ [(c, true)]) = successful h ++ [c] := by simp [successful]
    refine ⟨⟨?_, ?_⟩, htrigger⟩
    · rw [hsuccessful, List.map_append]
      rfl
    · rw [hsuccessful]
      show (if db.trigger = some .serverEvents ∧ trgWhen c.row then trgBody c.row db.users
        else db.users) = _
      rw [husers]
      rcases htrigger with htrigger | rfl
      · simpa [htrigger] using trgBody_row (successful h) users c
      · simp [trgBody]

theorem Kept.run {users : List UserRow} {as h : List (EventCall × Bool)} (hK : Kept users [] db₁)
    (hc : ∀ a ∈ as, NulFree a.1.description) (hrun : eventLog.run db₁ as = some (db, h)) :
    Kept users h db := by
  refine System.run_induction (I := fun db h ↦ Kept users h db) (h := []) ?_ hK
    (System.obeys_of_forall hc) hrun
  intro db h a db' es hK hc hstep
  obtain ⟨rfl, rfl⟩ := Prod.mk.inj (Option.some_inj.mp hstep)
  exact hK.execute hc a.2

/-! ## After `InitTable` -/

/-- What a successful `InitTable` leaves: the old rows, if the table was not dropped, and the
trigger, unless another table has one of the name. -/
theorem initTable_eq {f : InitFates} (hinit : initTable f db = (true, db₁)) :
    db₁.serverEvents = some (if f.drop then [] else db.serverEvents.getD []) ∧
      db₁.users = db.users ∧
      (db₁.trigger = some .serverEvents ↔ db.trigger ≠ some .other) := by
  obtain ⟨drop, create, trigger⟩ := f
  cases create with
  | false => simp [initTable] at hinit
  | true =>
    cases trigger with
    | false => simp [initTable] at hinit
    | true =>
      obtain ⟨-, rfl⟩ := Prod.mk.inj hinit
      obtain ⟨events, trigger, users⟩ := db
      cases drop with
      | false =>
        refine ⟨rfl, rfl, ?_⟩
        cases trigger with
        | none => simp [EventDb.createTable, EventDb.createTrigger]
        | some t => cases t <;> simp [EventDb.createTable, EventDb.createTrigger]
      | true =>
        refine ⟨rfl, rfl, ?_⟩
        cases trigger with
        | none => simp [EventDb.dropTable, EventDb.createTable, EventDb.createTrigger]
        | some t =>
          cases t <;> simp [EventDb.dropTable, EventDb.createTable, EventDb.createTrigger]

/-- The old table is gone, or it was empty, and no other table has a trigger of the name, or there
is nobody it could tell of. -/
def FreshLog (f : InitFates) (db : EventDb) : Prop :=
  (f.drop = true ∨ db.serverEvents.getD [] = []) ∧ (db.trigger ≠ some .other ∨ db.users = [])

def Timestamp.midnight : Timestamp :=
  ⟨"2025-01-01 00:00:00", by simp [NulFree]⟩

def Timestamp.noon : Timestamp :=
  ⟨"2025-01-01 12:00:00", by simp [NulFree]⟩

/-- Without the trigger a connection of a known user goes unseen. -/
theorem exists_not_inStep {users : List UserRow} (hrows : db₁.serverEvents = some [])
    (husers : db₁.users = users) (htrigger : db₁.trigger ≠ some .serverEvents) (hne : users ≠ []) :
    ∃ as db h, (∀ a ∈ as, NulFree a.1.description) ∧ eventLog.run db₁ as = some (db, h) ∧
      ¬InStep users (successful h) db := by
  obtain ⟨u, rest, rfl⟩ := List.exists_cons_of_ne_nil hne
  -- one of two different times is not the one in the table
  obtain ⟨time, htime⟩ : ∃ time : Timestamp, u.lastSeen ≠ .text time.text := by
    by_cases h : u.lastSeen = .text Timestamp.midnight.text
    · exact ⟨.noon, by simp [h, Timestamp.midnight, Timestamp.noon]⟩
    · exact ⟨.midnight, h⟩
  have hfree : NulFree (EventCall.user .clientConnected u.id "" time).description := by
    simp [NulFree, EventCall.description]
  have hstep := EventCall.execute_eq hfree true db₁
  rw [hrows] at hstep
  refine ⟨[(.user .clientConnected u.id "" time, true)], _, _, by simpa using hfree,
    System.run_singleton rfl, fun hstale ↦ ?_⟩
  have hseen := hstale.2
  rw [hstep] at hseen
  replace hseen : (if db₁.trigger = some .serverEvents ∧ _ then _ else db₁.users) = _ := hseen
  rw [if_neg fun h ↦ htrigger h.1, husers] at hseen
  have hlast := congrArg UserRow.lastSeen (List.cons.inj hseen).1
  apply htime
  simpa [successful, UserRow.seen, lastConnection, EventCall.connects] using hlast

/-- **The log and `users` stay in step.** After an `InitTable` that returned true this is so for
every sequence of calls exactly if the log began fresh. -/
theorem inStep_iff_freshLog {f : InitFates} (hinit : initTable f db = (true, db₁)) :
    (∀ as db₂ h, (∀ a ∈ as, NulFree a.1.description) → eventLog.run db₁ as = some (db₂, h) →
      InStep db.users (successful h) db₂) ↔ FreshLog f db := by
  obtain ⟨hrows, husers, htrigger⟩ := initTable_eq hinit
  constructor
  · intro hall
    have hnil : db₁.serverEvents = some [] := (hall [] db₁ [] (by simp) rfl).1
    refine ⟨?_, ?_⟩
    · rw [hnil, Option.some_inj] at hrows
      cases hdrop : f.drop with
      | true => exact .inl rfl
      | false => exact .inr (by simpa [hdrop] using hrows.symm)
    · by_contra hforeign
      obtain ⟨hother, hne⟩ := not_or.mp hforeign
      obtain ⟨as, db₂, h, hfree, hrun, hnot⟩ :=
        exists_not_inStep hnil husers (fun h ↦ hother (htrigger.mp h)) hne
      exact hnot (hall as db₂ h hfree hrun)
  · rintro ⟨hfresh, hown⟩ as db₂ h hfree hrun
    have hnil : db₁.serverEvents = some [] := by
      rw [hrows]
      rcases hfresh with hdrop | hempty
      · rw [if_pos hdrop]
      · rw [hempty, ite_self]
    have hseen : db.users.map (UserRow.seen []) = db.users := by
      rw [show UserRow.seen [] = id from rfl, List.map_id]
    have hkept : Kept db.users [] db₁ :=
      ⟨⟨hnil, husers.trans hseen.symm⟩, hown.imp_left htrigger.mpr⟩
    exact (hkept.run hfree hrun).1

/-- A database with one user and the row of an earlier event. -/
def usedDb : EventDb where
  serverEvents := some [(EventCall.server .serverUp "up" .midnight).row]
  trigger := some .serverEvents
  users := [⟨1, .null⟩]

theorem inStep_iff_freshLog_usedDb :
    ∃ db₁, initTable ⟨true, true, true⟩ usedDb = (true, db₁) ∧
      ((∀ as db₂ h, (∀ a ∈ as, NulFree a.1.description) → eventLog.run db₁ as = some (db₂, h) →
        InStep usedDb.users (successful h) db₂) ↔ FreshLog ⟨true, true, true⟩ usedDb) :=
  ⟨_, rfl, inStep_iff_freshLog rfl⟩

/-- `DROP TABLE` fails, `InitTable` returns true, and the row of the earlier event is in the log. -/
theorem not_inStep_usedDb :
    ∃ db₁, initTable ⟨false, true, true⟩ usedDb = (true, db₁) ∧
      eventLog.run db₁ [] = some (db₁, []) ∧ ¬InStep usedDb.users (successful []) db₁ :=
  ⟨_, rfl, rfl, fun h ↦ absurd (congrArg (Option.map List.length) h.1) (by decide)⟩

end Database

end PushService
