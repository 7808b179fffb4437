import PushService.Database.InsertPush
import PushService.System.Run

/-!
# The log of the pushes

`PushEvents` over any number of calls of `InsertPush`. What a call stores it stores as text, the
numbers and the payload alike, and what is selected from the table is read by the types of its
columns. The pushes that are read are those of the calls that returned true, in order, with
consecutive keys (`selectAll_of_run`). `last_error_` keeps the message of the last call that failed,
also when later calls succeed.
-/

namespace PushService

namespace Database

open Numerals SqlText

/-! ## Reading a row -/

/-- A row of `PushEvents` as it is read, column by column. -/
structure TabRow where
  id : ℤ
  typeId : ℤ
  priorityId : ℤ
  payload : Bytes
  senderId : ℤ
  timestamp : Bytes
  deriving DecidableEq, Repr

/-- The number in an `INTEGER` or `TINYINT` column, which turns the numeral of a number into the
number. -/
def columnInt : Literal → ℤ
  | .integer n => n
  | .text (45 :: digits) => -number digits
  | .text digits => number digits

/-- The C string of a `TEXT` column. -/
def columnText : Literal → Bytes
  | .integer n => ascii (Nat.toDigits 10 n)
  | .text s => cText s

/-- The value that was inserted in a column. -/
def cell (row : Insert) (column : Bytes) : Option Literal :=
  (row.columns.zip row.values).lookup column

/-- The row with the key `id`. -/
def readTabRow (id : ℕ) (row : Insert) : Option TabRow := do
  let typeId ← cell row (asciiText "type_id")
  let priorityId ← cell row (asciiText "priority_id")
  let payload ← cell row (asciiText "payload")
  let senderId ← cell row (asciiText "sender_id")
  let timestamp ← cell row (asciiText "timestamp")
  some ⟨id, columnInt typeId, columnInt priorityId, columnText payload, columnInt senderId,
    columnText timestamp⟩

/-- `SELECT * FROM PushEvents`. No row is ever deleted, so the keys of `AUTOINCREMENT` are the
places. -/
def selectAll (rows : List Insert) : List (Option TabRow) :=
  (rows.zipIdx 1).map fun r ↦ readTabRow r.2 r.1

/-! ## The calls -/

structure InsertCall where
  senderId : ℤ
  push : IPush
  now : Tm
  deriving DecidableEq, Repr

/-- The row that a push should be read back as. -/
def InsertCall.tabRow (c : InsertCall) (id : ℕ) : TabRow :=
  ⟨id, c.push.type.toNat, c.push.priority.toNat, c.push.payload, c.senderId, getCurrentTime c.now⟩

/-- What SQLite says to a statement that it can read, and the message if it fails. -/
structure Answer where
  executed : Bool
  message : Bytes
  deriving DecidableEq, Repr

/-- A call that has returned. -/
structure Insertion where
  call : InsertCall
  answer : Answer
  result : Bool
  deriving DecidableEq, Repr

/-- The rows of `PushEvents`, and `last_error_`. -/
structure PushLog where
  rows : List Insert
  lastError : Option Bytes
  deriving DecidableEq, Repr

namespace PushLog

/-- After an `OpenDatabase` that has created the tables. -/
def init : PushLog := ⟨[], none⟩

def insertPush (call : InsertCall) (answer : Answer) (s : PushLog) : Bool × PushLog :=
  let (result, rows) := Database.insertPush answer.executed call.senderId call.push call.now s.rows
  (result, ⟨rows, if result then s.lastError else some answer.message⟩)

def system : System PushLog (InsertCall × Answer) Insertion where
  step s a :=
    let (result, s') := s.insertPush a.1 a.2
    some (s', [⟨a.1, a.2, result⟩])

def successful (h : List Insertion) : List InsertCall :=
  (h.filter Insertion.result).map Insertion.call

/-- The messages of the calls that failed. -/
def failures (h : List Insertion) : List Bytes :=
  (h.filter fun e ↦ !e.result).map fun e ↦ e.answer.message

/-! ## One call -/

theorem ne_minus_of_mem_toDigits {n : ℕ} {b : UInt8}
    (h : b ∈ ascii (Nat.toDigits 10 n)) : b ≠ 45 := by
  obtain ⟨c, hc, rfl⟩ := List.mem_map.mp h
  have hdigit := isDigitByte_digit (isDigit_of_mem_toDigits hc)
  intro heq
  rw [heq] at hdigit
  exact absurd hdigit (by decide)

/-- The numeral of a number is read as the number. -/
theorem columnInt_intDigits (n : ℤ) : columnInt (.text (ascii (intDigits n))) = n := by
  cases n with
  | ofNat n =>
    have hplus : columnInt (.text (ascii (Nat.toDigits 10 n)))
        = number (ascii (Nat.toDigits 10 n)) := by
      cases hs : ascii (Nat.toDigits 10 n) with
      | nil => rfl
      | cons b digits =>
        have hb : b ≠ 45 := ne_minus_of_mem_toDigits (n := n) (by simp [hs])
        rw [columnInt]
        exact fun _ heq ↦ hb (List.cons.inj heq).1
    rw [intDigits, hplus, number_toDigits]
    rfl
  | negSucc n =>
    have hminus : columnInt (.text (ascii (intDigits (.negSucc n))))
        = -number (ascii (Nat.toDigits 10 (n + 1))) := rfl
    rw [hminus, number_toDigits]
    rfl

/-- A call inserts its row, or leaves the table alone. -/
theorem insertPush_eq (executed : Bool) (senderId : ℤ) (push : IPush) (now : Tm)
    (rows : List Insert) : Database.insertPush executed senderId push now rows
      = if executed = true ∧ 0 ∉ push.payload then (true, rows ++ [pushRow senderId push now])
        else (false, rows) := by
  rw [Database.insertPush]
  by_cases hzero : 0 ∈ push.payload
  · rw [execSqlQuery_of_unterminated executed (unterminated_sqlInsert senderId now hzero),
      if_neg fun h ↦ h.2 hzero]
  · rw [execSqlQuery, cText_of_not_mem (zero_not_mem_sqlInsert senderId now hzero),
      insertOf_sqlInsert]
    cases executed <;> simp [hzero]

/-- What was inserted is read. -/
theorem readTabRow_pushRow (id : ℕ) {c : InsertCall} (hzero : 0 ∉ c.push.payload) :
    readTabRow id (pushRow c.senderId c.push c.now) = some (c.tabRow id) := by
  have htime : 0 ∉ getCurrentTime c.now := (not_mem_ascii_of_plain fun _ ↦ plain_of_mem_putTime).2
  have hread : readTabRow id (pushRow c.senderId c.push c.now)
      = some ⟨id, c.push.type.toNat, c.push.priority.toNat, cText c.push.payload,
          columnInt (.text (ascii (intDigits c.senderId))), cText (getCurrentTime c.now)⟩ := rfl
  rw [hread, cText_of_not_mem hzero, cText_of_not_mem htime, columnInt_intDigits, InsertCall.tabRow]

theorem step_of_stores {call : InsertCall} {answer : Answer} (s : PushLog)
    (h : answer.executed = true ∧ 0 ∉ call.push.payload) :
    system.step s (call, answer) = some (⟨s.rows ++ [pushRow call.senderId call.push call.now],
      s.lastError⟩, [⟨call, answer, true⟩]) := by
  simp only [system, PushLog.insertPush, insertPush_eq, if_pos h, if_true]

theorem step_of_not_stores {call : InsertCall} {answer : Answer} (s : PushLog)
    (h : ¬(answer.executed = true ∧ 0 ∉ call.push.payload)) :
    system.step s (call, answer)
      = some (⟨s.rows, some answer.message⟩, [⟨call, answer, false⟩]) := by
  simp only [system, PushLog.insertPush, insertPush_eq, if_neg h]
  rfl

/-! ## Runs -/

/-- What the table and `last_error_` have to do with the calls. -/
structure Logs (s : PushLog) (h : List Insertion) : Prop where
  rows : s.rows = (successful h).map fun c ↦ pushRow c.senderId c.push c.now
  result : ∀ e ∈ h, e.result = (e.answer.executed && decide (0 ∉ e.call.push.payload))
  lastError : s.lastError = (failures h).getLast?

theorem Logs.step {s s' : PushLog} {a : InsertCall × Answer} {h es : List Insertion} (hI : s.Logs h)
    (hstep : system.step s a = some (s', es)) : s'.Logs (h ++ es) := by
  obtain ⟨call, answer⟩ := a
  obtain ⟨hrows, hresult, herror⟩ := hI
  by_cases hstores : answer.executed = true ∧ 0 ∉ call.push.payload
  · rw [step_of_stores s hstores] at hstep
    obtain ⟨rfl, rfl⟩ := Prod.mk.inj (Option.some_inj.mp hstep)
    refine ⟨by simp [successful, hrows], ?_, by simp [failures, herror]⟩
    intro e he
    rcases List.mem_append.mp he with he | he
    · exact hresult e he
    · obtain rfl := List.mem_singleton.mp he
      simp [hstores.1, hstores.2]
  · rw [step_of_not_stores s hstores] at hstep
    obtain ⟨rfl, rfl⟩ := Prod.mk.inj (Option.some_inj.mp hstep)
    refine ⟨by simp [successful, hrows], ?_, by simp [failures]⟩
    intro e he
    rcases List.mem_append.mp he with he | he
    · exact hresult e he
    · obtain rfl := List.mem_singleton.mp he
      simpa using hstores

/-- **What is logged is read back.** After any calls of `InsertPush`, whatever the payloads are and
SQLite says, the rows of `PushEvents` are read back as the pushes of the calls that returned true,
in order and with the keys from 1 on; a call returns true if and only if its payload has no NUL and
the statement is executed; and `last_error_` is the message of the last call that failed. -/
theorem selectAll_of_run (as : List (InsertCall × Answer)) (s : PushLog) (h : List Insertion)
    (hrun : system.run init as = some (s, h)) :
    selectAll s.rows = ((successful h).zipIdx 1).map (fun r ↦ some (r.1.tabRow r.2)) ∧
      (∀ e ∈ h, e.result = (e.answer.executed && decide (0 ∉ e.call.push.payload))) ∧
      s.lastError = (failures h).getLast? := by
  obtain ⟨hrows, hresult, herror⟩ := System.run_invariant (I := Logs) (h := [])
    (fun hI hstep ↦ hI.step hstep) (s := init) ⟨rfl, by simp, rfl⟩ hrun
  rw [List.nil_append] at hrows hresult herror
  refine ⟨?_, hresult, herror⟩
  rw [selectAll, hrows, List.zipIdx_map, List.map_map]
  refine List.map_congr_left fun r hr ↦ readTabRow_pushRow r.2 ?_
  obtain ⟨e, he, hcall⟩ := List.mem_map.mp (List.fst_mem_of_mem_zipIdx hr)
  obtain ⟨hmem, htrue⟩ := List.mem_filter.mp he
  rw [hresult e hmem, Bool.and_eq_true] at htrue
  rw [← hcall]
  exact of_decide_eq_true htrue.2

/-- A payload with quotes is logged, one with a NUL is not. -/
def loggedCalls : List (InsertCall × Answer) :=
  [(⟨-7, ⟨.type2, .alert, asciiText "it's"⟩, ⟨126, 0, 9, 8, 5, 0⟩⟩, ⟨true, []⟩),
    (⟨0, ⟨.type1, .warning, [104, 0, 105]⟩, ⟨126, 0, 9, 8, 6, 0⟩⟩,
      ⟨true, asciiText "unrecognized token"⟩),
    (⟨1, ⟨.type1, .notification, []⟩, ⟨126, 0, 9, 8, 7, 0⟩⟩, ⟨true, []⟩)]

theorem selectAll_of_run_loggedCalls : ∃ s h, system.run init loggedCalls = some (s, h) ∧
    selectAll s.rows =
      [some ⟨1, 1, 2, asciiText "it's", -7, asciiText "2026-01-09 08:05:00"⟩,
        some ⟨2, 0, 0, [], 1, asciiText "2026-01-09 08:07:00"⟩] ∧
    s.lastError = some (asciiText "unrecognized token") := by
  have hrun : system.run init loggedCalls = some (_, _) :=
    System.run_cons_eq_some.mpr ⟨_, _, _, step_of_stores _ ⟨rfl, by decide⟩,
      System.run_cons_eq_some.mpr ⟨_, _, _, step_of_not_stores _ (by decide),
        System.run_singleton (step_of_stores _ ⟨rfl, by decide⟩), rfl⟩, rfl⟩
  obtain ⟨hselect, -, herror⟩ := selectAll_of_run loggedCalls _ _ hrun
  exact ⟨_, _, hrun, hselect.trans rfl, herror.trans rfl⟩

end PushLog

end Database

end PushService
