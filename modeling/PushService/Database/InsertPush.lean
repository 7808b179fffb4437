import PushService.Bytes
import PushService.Database.SqlText

/-!
# Inserting a push

`InsertPush` writes the five values into the text of its statement. Four of them are numbers and a
time, and the payload is a text of the sender's choice, which `ScreenQuote` goes over with a loop
from one quote to the next. `screenQuote_eq` says that the loop doubles each quote and does nothing
else. So the lexer is back inside the same literal after the payload, wherever its quotes stand.

`sqlite3_exec` gets a C string. A NUL in the payload ends the text inside that literal.
-/

namespace PushService

namespace Database

open Numerals SqlText

/-! ## Strings -/

/-- `str.find(c, pos)`; `none` is `npos`. -/
def find (str : Bytes) (c : UInt8) (pos : ℕ) : Option ℕ :=
  ((str.drop pos).findIdx? (· == c)).map (pos + ·)

/-- `str.substr(pos, n)`. -/
def substr (str : Bytes) (pos n : ℕ) : Bytes :=
  (str.drop pos).take n

theorem find_eq_none {str : Bytes} {c : UInt8} {pos : ℕ} :
    find str c pos = none ↔ c ∉ str.drop pos := by
  rw [find, Option.map_eq_none_iff, List.findIdx?_eq_none_iff]
  constructor
  · exact fun h hc ↦ absurd (h c hc) (by simp)
  · rintro h b hb
    rw [beq_eq_false_iff_ne]
    rintro rfl
    exact h hb

/-- The first occurrence from `pos` on splits what is left. -/
theorem exists_of_find {str : Bytes} {c : UInt8} {pos p : ℕ} (h : find str c pos = some p) :
    ∃ s t, str.drop pos = s ++ c :: t ∧ c ∉ s ∧ p = pos + s.length := by
  obtain ⟨i, hi, rfl⟩ := Option.map_eq_some_iff.mp h
  obtain ⟨hlt, hc, hbefore⟩ := List.findIdx?_eq_some_iff_getElem.mp hi
  have hci : (str.drop pos)[i] = c := by simpa using hc
  refine ⟨(str.drop pos).take i, (str.drop pos).drop (i + 1), ?_, ?_, ?_⟩
  · rw [← hci, List.getElem_cons_drop, List.take_append_drop]
  · intro hmem
    obtain ⟨j, hj, hget⟩ := List.mem_take_iff_getElem.mp hmem
    have hji : j < i := by omega
    exact absurd (by simpa using hget) (by simpa using hbefore j hji)
  · rw [List.length_take, Nat.min_eq_left hlt.le]

theorem lt_of_find {str : Bytes} {c : UInt8} {pos p : ℕ} (h : find str c pos = some p) :
    pos ≤ p ∧ p < str.length := by
  obtain ⟨s, t, hdrop, -, rfl⟩ := exists_of_find h
  have hlength := congrArg List.length hdrop
  rw [List.length_drop, List.length_append, List.length_cons] at hlength
  omega

/-! ## `ScreenQuote` -/

/-- The loop of `ScreenQuote`. The result is `res` and `prev_quote_pos` after it. -/
def screenQuoteLoop (str : Bytes) (prevQuotePos quotePos : ℕ) (res : Bytes) : Bytes × ℕ :=
  let res' := res ++ substr str prevQuotePos (quotePos - prevQuotePos) ++ [quote]
  match _h : find str quote (quotePos + 1) with
  | some next => screenQuoteLoop str quotePos next res'
  | none => (res', quotePos)
termination_by str.length - quotePos
decreasing_by
  have := lt_of_find _h
  omega

def screenQuote (str : Bytes) : Bytes :=
  match find str quote 0 with
  | none => str
  | some quotePos =>
    let (res, prevQuotePos) := screenQuoteLoop str 0 quotePos []
    res ++ str.drop prevQuotePos

/-- The loop comes to a quote with all before it doubled. It leaves the last quote, which it has
written once, to be written again. -/
theorem screenQuoteLoop_append {a b : Bytes} {prevQuotePos : ℕ} {res : Bytes}
    (hres : res ++ substr (a ++ quote :: b) prevQuotePos (a.length - prevQuotePos) = doubled a) :
    (screenQuoteLoop (a ++ quote :: b) prevQuotePos a.length res).1
        ++ (a ++ quote :: b).drop (screenQuoteLoop (a ++ quote :: b) prevQuotePos a.length res).2
      = doubled (a ++ quote :: b) := by
  induction hn : b.length using Nat.strongRecOn generalizing a b prevQuotePos res with
  | ind n ih =>
    have hdrop : (a ++ quote :: b).drop (a.length + 1) = b := by
      rw [List.drop_append, Nat.add_sub_cancel_left, List.drop_of_length_le (by omega)]
      rfl
    rw [screenQuoteLoop, hres]
    split
    · rename_i next hfind
      obtain ⟨s, t, hb, hs, rfl⟩ := exists_of_find hfind
      rw [hdrop] at hb
      subst hb
      -- `s` is what stands between the two quotes
      have hstr : a ++ quote :: (s ++ quote :: t) = (a ++ quote :: s) ++ quote :: t := by
        rw [List.append_assoc, List.cons_append]
      have hlength : a.length + 1 + s.length = (a ++ quote :: s).length := by
        rw [List.length_append, List.length_cons]
        omega
      have hsub : substr ((a ++ quote :: s) ++ quote :: t) a.length
          ((a ++ quote :: s).length - a.length) = quote :: s := by
        rw [substr, List.append_assoc, List.drop_left, List.length_append, Nat.add_sub_cancel_left,
          List.take_left]
      have hshort : t.length < n := by
        rw [← hn, List.length_append, List.length_cons]
        omega
      rw [hstr, hlength]
      refine ih t.length hshort ?_ rfl
      rw [hsub, doubled_append, doubled_cons_quote, doubled_of_not_mem hs, List.append_assoc]
      rfl
    · rename_i hfind
      rw [find_eq_none, hdrop] at hfind
      rw [List.drop_left, doubled_append, doubled_cons_quote, doubled_of_not_mem hfind,
        List.append_assoc]
      rfl

/-- **`ScreenQuote` doubles every quote.** -/
theorem screenQuote_eq (str : Bytes) : screenQuote str = doubled str := by
  rw [screenQuote]
  cases hfind : find str quote 0 with
  | none => exact (doubled_of_not_mem (find_eq_none.mp hfind)).symm
  | some quotePos =>
    obtain ⟨s, t, hstr, hs, rfl⟩ := exists_of_find hfind
    rw [List.drop_zero] at hstr
    subst hstr
    rw [Nat.zero_add]
    apply screenQuoteLoop_append
    rw [substr, List.nil_append, List.drop_zero, Nat.sub_zero, List.take_left,
      doubled_of_not_mem hs]

/-! ## The text of the statement -/

inductive PushType
  | type1
  | type2
  deriving DecidableEq, Repr

inductive PushPriority
  | notification
  | warning
  | alert
  deriving DecidableEq, Repr

def PushType.toNat : PushType → ℕ
  | type1 => 0
  | type2 => 1

def PushPriority.toNat : PushPriority → ℕ
  | notification => 0
  | warning => 1
  | alert => 2

structure IPush where
  type : PushType
  priority : PushPriority
  payload : Bytes
  deriving DecidableEq, Repr

/-- `std::tm`. The year counts from 1900 and the month from 0. -/
structure Tm where
  year : ℤ
  mon : ℕ
  mday : ℕ
  hour : ℕ
  min : ℕ
  sec : ℕ
  deriving DecidableEq, Repr

def twoDigits (n : ℕ) : List Char :=
  if n < 10 then '0' :: Nat.toDigits 10 n else Nat.toDigits 10 n

/-- `std::put_time` with the format `%Y-%m-%d %H:%M:%S`. -/
def putTime (t : Tm) : List Char :=
  intDigits (t.year + 1900) ++ ['-'] ++ twoDigits (t.mon + 1) ++ ['-'] ++ twoDigits t.mday ++ [' ']
    ++ twoDigits t.hour ++ [':'] ++ twoDigits t.min ++ [':'] ++ twoDigits t.sec

/-- `GetCurrentTime` at the local time `now`. -/
def getCurrentTime (now : Tm) : Bytes :=
  ascii (putTime now)

/-- `std::format`: the arguments between the pieces of the format string. -/
def format : List String → List Bytes → Bytes
  | p :: ps, a :: as => asciiText p ++ (a ++ format ps as)
  | p :: _, [] => asciiText p
  | [], _ => []

/-- `kPushEventsTableKey`. -/
def pushEventsTableKey : Bytes := asciiText "PushEvents"

/-- `TYPE_ID`, `PRIORITY_ID`, `PAYLOAD`, `SENDER_ID` and `TIMESTAMP`. -/
def pushEventsColumns : List Bytes :=
  [asciiText "type_id", asciiText "priority_id", asciiText "payload", asciiText "sender_id",
    asciiText "timestamp"]

/-- The text that `InsertPush` executes. -/
def sqlInsert (senderId : ℤ) (push : IPush) (now : Tm) : Bytes :=
  format
    ["INSERT INTO ", " (", ", ", ", ", ", ", ", ", ") VALUES(", ", ", ", '", "', '", "', '", "');"]
    ([pushEventsTableKey] ++ pushEventsColumns ++
      [ascii (Nat.toDigits 10 push.type.toNat), ascii (Nat.toDigits 10 push.priority.toNat),
        screenQuote push.payload, ascii (intDigits senderId), getCurrentTime now])

/-- The row that the statement is meant to insert. -/
def pushRow (senderId : ℤ) (push : IPush) (now : Tm) : Insert where
  table := pushEventsTableKey
  columns := pushEventsColumns
  values :=
    [.integer push.type.toNat, .integer push.priority.toNat, .text push.payload,
      .text (ascii (intDigits senderId)), .text (getCurrentTime now)]

/-- `ExecSqlQuery` with the text of an `INSERT`: what it returns, and the rows of `PushEvents` after
it. A statement that SQLite can read may still fail. -/
def execSqlQuery (executed : Bool) (sqlQuery : Bytes) (rows : List Insert) : Bool × List Insert :=
  match insertOf (cText sqlQuery) with
  | none => (false, rows)
  | some row => if executed then (true, rows ++ [row]) else (false, rows)

def insertPush (executed : Bool) (senderId : ℤ) (push : IPush) (now : Tm) (rows : List Insert) :
    Bool × List Insert :=
  execSqlQuery executed (sqlInsert senderId push now) rows

/-! ## The texts that are not quoted -/

/-- The characters of numbers and times. -/
def Plain (c : Char) : Prop :=
  c.isDigit ∨ c ∈ ['-', ':', ' ']

theorem Plain.ne {c : Char} (h : Plain c) : c.toNat.toUInt8 ≠ quote ∧ c.toNat.toUInt8 ≠ 0 := by
  rcases h with h | h
  · refine ⟨fun heq ↦ ?_, digit_ne_zero h⟩
    have hrange := (isDigit_iff.mp h).1
    have hnat : c.toNat = 39 := by rw [← toNat_digit h, heq]; rfl
    omega
  · simp only [List.mem_cons, List.not_mem_nil, or_false] at h
    rcases h with rfl | rfl | rfl <;> decide

theorem not_mem_ascii_of_plain {s : List Char} (h : ∀ c ∈ s, Plain c) :
    quote ∉ ascii s ∧ 0 ∉ ascii s := by
  refine ⟨fun hmem ↦ ?_, fun hmem ↦ ?_⟩
  · obtain ⟨c, hc, heq⟩ := List.mem_map.mp hmem
    exact (h c hc).ne.1 heq
  · obtain ⟨c, hc, heq⟩ := List.mem_map.mp hmem
    exact (h c hc).ne.2 heq

theorem plain_of_mem_intDigits {i : ℤ} {c : Char} (h : c ∈ intDigits i) : Plain c := by
  rcases eq_or_isDigit_of_mem_intDigits h with rfl | h
  · exact .inr (by decide)
  · exact .inl h

theorem plain_of_mem_twoDigits {n : ℕ} {c : Char} (h : c ∈ twoDigits n) : Plain c := by
  rw [twoDigits] at h
  split at h
  · rcases List.mem_cons.mp h with rfl | h
    · exact .inl rfl
    · exact .inl (isDigit_of_mem_toDigits h)
  · exact .inl (isDigit_of_mem_toDigits h)

theorem plain_of_mem_putTime {t : Tm} {c : Char} (h : c ∈ putTime t) : Plain c := by
  simp only [putTime, List.mem_append, List.mem_singleton] at h
  rcases h with (((((((((h | h) | h) | h) | h) | h) | h) | h) | h) | h) | h
  · exact plain_of_mem_intDigits h
  all_goals first | exact plain_of_mem_twoDigits h | exact .inr (by simp [h])

/-! ## Reading the text -/

/-- The text up to the quote before the payload. -/
def insertHead (type : PushType) (priority : PushPriority) : Bytes :=
  format ["INSERT INTO ", " (", ", ", ", ", ", ", ", ", ") VALUES(", ", ", ", '"]
    ([pushEventsTableKey] ++ pushEventsColumns ++
      [ascii (Nat.toDigits 10 type.toNat), ascii (Nat.toDigits 10 priority.toNat)])

theorem sqlInsert_eq (senderId : ℤ) (push : IPush) (now : Tm) :
    sqlInsert senderId push now
      = insertHead push.type push.priority ++ (screenQuote push.payload ++ (asciiText "', '" ++
          (ascii (intDigits senderId) ++ (asciiText "', '" ++
            (getCurrentTime now ++ asciiText "');"))))) := by
  simp only [sqlInsert, insertHead, format, pushEventsColumns, List.cons_append, List.nil_append,
    List.append_assoc]

/-- The tokens before the payload. -/
def headTokens (type : PushType) (priority : PushPriority) : List Token :=
  [.word (asciiText "INSERT"), .word (asciiText "INTO"), .word pushEventsTableKey, .symbol 40,
    .word (asciiText "type_id"), .symbol 44, .word (asciiText "priority_id"), .symbol 44,
    .word (asciiText "payload"), .symbol 44, .word (asciiText "sender_id"), .symbol 44,
    .word (asciiText "timestamp"), .symbol 41, .word (asciiText "VALUES"), .symbol 40,
    .word (ascii (Nat.toDigits 10 type.toNat)), .symbol 44,
    .word (ascii (Nat.toDigits 10 priority.toNat)), .symbol 44]

theorem run_insertHead (type : PushType) (priority : PushPriority) :
    lexer.run .between (insertHead type priority)
      = some (.literal [], headTokens type priority) := by
  cases type with
  | type1 | type2 =>
    cases priority with
    | notification | warning | alert => decide +kernel

theorem zero_not_mem_insertHead (type : PushType) (priority : PushPriority) :
    0 ∉ insertHead type priority := by
  cases type with
  | type1 | type2 =>
    cases priority with
    | notification | warning | alert => decide +kernel

/-- The lexer reads the whole text, and the payload is the value of one literal. -/
theorem run_sqlInsert (senderId : ℤ) (push : IPush) (now : Tm) :
    lexer.run .between (sqlInsert senderId push now)
      = some (.between, (pushRow senderId push now).tokens) := by
  have hsender := (not_mem_ascii_of_plain fun c ↦ plain_of_mem_intDigits (i := senderId)).1
  have htime := (not_mem_ascii_of_plain fun c ↦ plain_of_mem_putTime (t := now)).1
  have hcomma : ∀ v, lexer.run (.literal v) (asciiText "', '")
      = some (.literal [], [.string v, .symbol 44]) := fun _ ↦ rfl
  have hend : ∀ v, lexer.run (.literal v) (asciiText "');")
      = some (.between, [.string v, .symbol 41, .symbol 59]) := fun _ ↦ rfl
  have hrun := run_append (run_insertHead push.type push.priority)
    (run_append (run_literal_doubled [] push.payload) (run_append (hcomma _)
      (run_append (run_literal_of_not_mem [] hsender) (run_append (hcomma _)
        (run_append (run_literal_of_not_mem [] htime) (hend _))))))
  have htokens : (pushRow senderId push now).tokens = headTokens push.type push.priority ++
      [.string push.payload, .symbol 44, .string (ascii (intDigits senderId)), .symbol 44,
        .string (ascii (putTime now)), .symbol 41, .symbol 59] := rfl
  rw [sqlInsert_eq, screenQuote_eq, getCurrentTime, hrun, htokens]
  rfl

/-- The five values are read as they were given. -/
theorem insertOf_sqlInsert (senderId : ℤ) (push : IPush) (now : Tm) :
    insertOf (sqlInsert senderId push now) = some (pushRow senderId push now) := by
  rw [insertOf_of_tokens (tokens_of_run (run_sqlInsert senderId push now) rfl), List.append_nil]
  exact readInsert_tokens (by simp [pushRow, pushEventsColumns]) (by simp [pushRow])

theorem zero_not_mem_sqlInsert (senderId : ℤ) {push : IPush} (now : Tm) (h : 0 ∉ push.payload) :
    0 ∉ sqlInsert senderId push now := by
  have hsender := zero_not_mem_intDigits senderId
  have htime := (not_mem_ascii_of_plain fun c ↦ plain_of_mem_putTime (t := now)).2
  rw [sqlInsert_eq, screenQuote_eq]
  simp only [List.mem_append, not_or]
  exact ⟨zero_not_mem_insertHead _ _, mt zero_mem_doubled.mp h, by decide, hsender, by decide,
    htime, by decide⟩

/-- A NUL cuts the text off inside the literal of the payload. -/
theorem unterminated_sqlInsert (senderId : ℤ) {push : IPush} (now : Tm) (h : 0 ∈ push.payload) :
    Unterminated (cText (sqlInsert senderId push now)) := by
  refine ⟨cText push.payload, headTokens push.type push.priority, ?_⟩
  rw [sqlInsert_eq, screenQuote_eq, cText_append_of_not_mem (zero_not_mem_insertHead _ _),
    cText_append_of_mem (zero_mem_doubled.mpr h), cText_doubled]
  have hrun := run_append (run_insertHead push.type push.priority)
    (run_literal_doubled [] (cText push.payload))
  rwa [List.append_nil, List.nil_append] at hrun

theorem execSqlQuery_of_unterminated (executed : Bool) {sqlQuery : Bytes}
    (h : Unterminated (cText sqlQuery)) (rows : List Insert) :
    execSqlQuery executed sqlQuery rows = (false, rows) := by
  rw [execSqlQuery, h.insertOf_eq_none]

/-- **No payload breaks out of the statement.** Without a NUL the text is one `INSERT` of the values
that were given. With one it ends inside a literal, and the call fails and stores nothing. -/
theorem insertPush_reads_payload (senderId : ℤ) (push : IPush) (now : Tm) :
    (0 ∉ push.payload →
      insertOf (cText (sqlInsert senderId push now)) = some (pushRow senderId push now)) ∧
    (0 ∈ push.payload →
      Unterminated (cText (sqlInsert senderId push now)) ∧
        ∀ executed rows, insertPush executed senderId push now rows = (false, rows)) := by
  refine ⟨fun h ↦ ?_, fun h ↦ ?_⟩
  · rw [cText_of_not_mem (zero_not_mem_sqlInsert senderId now h), insertOf_sqlInsert]
  · have hopen := unterminated_sqlInsert senderId now h
    exact ⟨hopen, fun executed rows ↦ execSqlQuery_of_unterminated executed hopen rows⟩

/-- A payload that tries to end the statement is stored as it is, and not at all with a NUL. -/
theorem insertPush_reads_payload_injection :
    insertOf (cText (sqlInsert (-1) ⟨.type2, .alert, asciiText "', 0, ''); --"⟩
      ⟨126, 0, 9, 8, 5, 0⟩))
        = some (pushRow (-1) ⟨.type2, .alert, asciiText "', 0, ''); --"⟩ ⟨126, 0, 9, 8, 5, 0⟩) ∧
      insertPush true (-1) ⟨.type2, .alert, [39, 0, 39]⟩ ⟨126, 0, 9, 8, 5, 0⟩ [] = (false, []) :=
  ⟨(insertPush_reads_payload _ _ _).1 (by decide),
    ((insertPush_reads_payload _ _ _).2 (by decide)).2 _ _⟩

end Database

end PushService
