import Mathlib.Data.List.TakeWhile
import PushService.System.Run
import PushService.Text.Numerals

/-!
# The text of an SQL statement

The part of SQLite's lexical grammar that an `INSERT` with literal values needs: words (keywords,
names and numbers), string literals, and punctuation. A string literal runs from a quote to the next
quote that is not doubled, and a doubled quote in it stands for one. A text ends at its first NUL.

The lexer is a system whose actions are the bytes of the text and whose outputs are the tokens. So
the text of a statement is read piece by piece, and what matters of the pieces before is the mode
that they leave the lexer in.
-/

namespace PushService

namespace SqlText

open Numerals

/-- The byte `'`. -/
def quote : UInt8 := 39

/-- The text that `sqlite3_exec` sees of a C string: all of it up to the first NUL. -/
def cText (text : List UInt8) : List UInt8 :=
  text.takeWhile (· ≠ 0)

theorem cText_of_not_mem {text : List UInt8} (h : 0 ∉ text) : cText text = text := by
  refine List.takeWhile_eq_self_iff.mpr fun b hb ↦ ?_
  rw [decide_eq_true_eq]
  rintro rfl
  exact h hb

theorem cText_append_of_not_mem {text : List UInt8} (h : 0 ∉ text) (rest : List UInt8) :
    cText (text ++ rest) = text ++ cText rest := by
  refine List.takeWhile_append_of_pos fun b hb ↦ ?_
  rw [decide_eq_true_eq]
  rintro rfl
  exact h hb

/-- What follows a NUL does not matter. -/
theorem cText_append_of_mem {text : List UInt8} (h : 0 ∈ text) (rest : List UInt8) :
    cText (text ++ rest) = cText text := by
  have hlength : (text.takeWhile (· ≠ 0)).length ≠ text.length := by
    intro hlength
    have hself := (List.takeWhile_prefix _).eq_of_length hlength
    simpa using List.takeWhile_eq_self_iff.mp hself 0 h
  rw [cText, List.takeWhile_append, if_neg hlength]
  rfl

/-! ## Tokens -/

inductive Token
  /-- A keyword, a name or a number. -/
  | word (w : List UInt8)
  /-- A string literal, with its value. -/
  | string (v : List UInt8)
  /-- One byte of punctuation. -/
  | symbol (b : UInt8)
  deriving DecidableEq, Repr

/-- Letters, digits, `_`, `$` and what is not in ASCII. -/
def isWordByte (b : UInt8) : Bool :=
  isDigitByte b || (65 ≤ b && b ≤ 90) || (97 ≤ b && b ≤ 122) || b == 95 || b == 36 || 128 ≤ b

/-- Tab, newline, form feed, carriage return and space. -/
def isBlank (b : UInt8) : Bool :=
  b == 9 || b == 10 || b == 12 || b == 13 || b == 32

/-- Parentheses, `*`, `,`, `;` and `=`. -/
def isSymbol (b : UInt8) : Bool :=
  b == 40 || b == 41 || b == 42 || b == 44 || b == 59 || b == 61

/-- Where the lexer is. -/
inductive Mode
  | between
  | word (w : List UInt8)
  /-- In a string literal, of which `v` is read. -/
  | literal (v : List UInt8)
  /-- After a quote in a string literal: its end, or the first of two. -/
  | quoted (v : List UInt8)
  deriving DecidableEq, Repr

/-- A byte that begins something. -/
def begin (b : UInt8) : Option (Mode × List Token) :=
  if b = quote then some (.literal [], [])
  else if isWordByte b then some (.word [b], [])
  else if isBlank b then some (.between, [])
  else if isSymbol b then some (.between, [.symbol b])
  else none

/-- The lexer. A word directly before a quote begins a literal of another kind, which is left
out. -/
def lexer : System Mode UInt8 Token where
  step
    | .between, b => begin b
    | .word w, b =>
      if isWordByte b then some (.word (w ++ [b]), [])
      else if b = quote then none
      else (begin b).map fun r ↦ (r.1, .word w :: r.2)
    | .literal v, b => if b = quote then some (.quoted v, []) else some (.literal (v ++ [b]), [])
    | .quoted v, b =>
      if b = quote then some (.literal (v ++ [quote]), [])
      else (begin b).map fun r ↦ (r.1, .string v :: r.2)

/-- The token that the end of the text ends. A literal must not be open. -/
def Mode.finish : Mode → Option (List Token)
  | between => some []
  | word w => some [.word w]
  | literal _ => none
  | quoted v => some [.string v]

/-- The tokens of a text, unless it ends inside a literal or has a byte that begins nothing. -/
def tokens (text : List UInt8) : Option (List Token) :=
  match lexer.run .between text with
  | none => none
  | some (m, ts) => m.finish.map (ts ++ ·)

/-- The text ends inside a string literal. -/
def Unterminated (text : List UInt8) : Prop :=
  ∃ v ts, lexer.run .between text = some (.literal v, ts)

theorem Unterminated.tokens_eq_none {text : List UInt8} (h : Unterminated text) :
    tokens text = none := by
  obtain ⟨v, ts, hrun⟩ := h
  rw [tokens, hrun]
  rfl

theorem tokens_of_run {text : List UInt8} {m : Mode} {ts us : List Token}
    (hrun : lexer.run .between text = some (m, ts)) (hfinish : m.finish = some us) :
    tokens text = some (ts ++ us) := by
  rw [tokens, hrun]
  simp only [hfinish, Option.map_some]

/-! ## Doubled quotes -/

/-- The string with each of its quotes doubled. -/
def doubled (v : List UInt8) : List UInt8 :=
  v.flatMap fun b ↦ if b = quote then [quote, quote] else [b]

@[simp] theorem doubled_nil : doubled [] = [] := rfl

theorem doubled_cons_quote (v : List UInt8) :
    doubled (quote :: v) = quote :: quote :: doubled v := rfl

theorem doubled_cons_of_ne {b : UInt8} (hb : b ≠ quote) (v : List UInt8) :
    doubled (b :: v) = b :: doubled v := by
  rw [doubled, List.flatMap_cons, if_neg hb]
  rfl

theorem doubled_append (v w : List UInt8) : doubled (v ++ w) = doubled v ++ doubled w :=
  List.flatMap_append

theorem doubled_of_not_mem {v : List UInt8} (h : quote ∉ v) : doubled v = v := by
  induction v with
  | nil => rfl
  | cons b v ih =>
    obtain ⟨hb, hv⟩ := List.ne_and_not_mem_of_not_mem_cons h
    rw [doubled_cons_of_ne hb.symm, ih hv]

theorem zero_mem_doubled {v : List UInt8} : 0 ∈ doubled v ↔ 0 ∈ v := by
  rw [doubled, List.mem_flatMap]
  constructor
  · rintro ⟨b, hb, hzero⟩
    split at hzero
    · exact absurd hzero (by decide)
    · rwa [List.mem_singleton.mp hzero]
  · exact fun h ↦ ⟨0, h, List.mem_singleton.mpr rfl⟩

/-- Cutting off at the first NUL and doubling quotes can be exchanged. -/
theorem cText_doubled (v : List UInt8) : cText (doubled v) = doubled (cText v) := by
  induction v with
  | nil => rfl
  | cons b v ih =>
    by_cases hb : b = quote
    · subst hb
      rw [doubled_cons_quote]
      exact congrArg (fun w ↦ quote :: quote :: w) ih
    · rw [doubled_cons_of_ne hb]
      by_cases hzero : b = 0
      · subst hzero
        rfl
      · rw [cText, cText, List.takeWhile_cons_of_pos (by simpa using hzero),
          List.takeWhile_cons_of_pos (by simpa using hzero), doubled_cons_of_ne hb]
        exact congrArg (b :: ·) ih

theorem run_append {m m' m'' : Mode} {text rest : List UInt8} {ts us : List Token}
    (htext : lexer.run m text = some (m', ts)) (hrest : lexer.run m' rest = some (m'', us)) :
    lexer.run m (text ++ rest) = some (m'', ts ++ us) :=
  System.run_append_eq_some.mpr ⟨m', ts, us, htext, hrest, rfl⟩

/-- **Reading what was doubled.** Inside a literal, a string with doubled quotes adds the string. -/
theorem run_literal_doubled (v w : List UInt8) :
    lexer.run (.literal v) (doubled w) = some (.literal (v ++ w), []) := by
  induction w generalizing v with
  | nil => simp
  | cons b w ih =>
    have hw := ih (v ++ [b])
    rw [List.append_assoc, List.singleton_append] at hw
    by_cases hb : b = quote
    · subst hb
      rw [doubled_cons_quote]
      exact System.run_cons_eq_some.mpr ⟨_, [], [], rfl,
        System.run_cons_eq_some.mpr ⟨_, [], [], rfl, hw, rfl⟩, rfl⟩
    · rw [doubled_cons_of_ne hb]
      exact System.run_cons_eq_some.mpr ⟨_, [], [], if_neg hb, hw, rfl⟩

theorem run_literal_of_not_mem (v : List UInt8) {w : List UInt8} (h : quote ∉ w) :
    lexer.run (.literal v) w = some (.literal (v ++ w), []) := by
  have hrun := run_literal_doubled v w
  rwa [doubled_of_not_mem h] at hrun

/-! ## Reading an `INSERT` -/

/-- A literal value. -/
inductive Literal
  | integer (n : ℕ)
  | text (v : List UInt8)
  deriving DecidableEq, Repr

/-- An `INSERT` of one row of literal values. -/
structure Insert where
  table : List UInt8
  columns : List (List UInt8)
  values : List Literal
  deriving DecidableEq, Repr

def Token.name : Token → Option (List UInt8)
  | word w => some w
  | string _ | symbol _ => none

def Token.literal : Token → Option Literal
  | word w => if w.all isDigitByte then some (.integer (number w)) else none
  | string v => some (.text v)
  | symbol _ => none

/-- Items with commas between them up to the closing parenthesis, and what follows it. -/
def readItems {α : Type*} (item : Token → Option α) : List Token → Option (List α × List Token)
  | t :: .symbol b :: ts => do
    let a ← item t
    if b = 41 then some ([a], ts)
    else if b = 44 then
      let (as, rest) ← readItems item ts
      some (a :: as, rest)
    else none
  | _ => none

/-- What follows the tokens `expected`, if the list begins with them. -/
def expect (expected ts : List Token) : Option (List Token) :=
  if expected.isPrefixOf ts then some (ts.drop expected.length) else none

def readName : List Token → Option (List UInt8 × List Token)
  | .word w :: ts => some (w, ts)
  | _ => none

/-- `INSERT INTO table (columns) VALUES (values);` with nothing after it. The keywords are in upper
case. -/
def readInsert (ts : List Token) : Option Insert := do
  let ts ← expect [.word (asciiText "INSERT"), .word (asciiText "INTO")] ts
  let (table, ts) ← readName ts
  let ts ← expect [.symbol 40] ts
  let (columns, ts) ← readItems Token.name ts
  let ts ← expect [.word (asciiText "VALUES"), .symbol 40] ts
  let (values, ts) ← readItems Token.literal ts
  if ts = [.symbol 59] then some ⟨table, columns, values⟩ else none

/-! ### Writing one -/

def Literal.token : Literal → Token
  | integer n => .word (ascii (Nat.toDigits 10 n))
  | text v => .string v

/-- The tokens with commas between them, and the closing parenthesis. -/
def itemTokens : List Token → List Token
  | [] => [.symbol 41]
  | [t] => [t, .symbol 41]
  | t :: u :: ts => t :: .symbol 44 :: itemTokens (u :: ts)

def Insert.tokens (i : Insert) : List Token :=
  [.word (asciiText "INSERT"), .word (asciiText "INTO")] ++ (.word i.table :: ([.symbol 40] ++
    (itemTokens (i.columns.map .word) ++ ([.word (asciiText "VALUES"), .symbol 40] ++
      (itemTokens (i.values.map Literal.token) ++ [.symbol 59])))))

theorem Literal.literal_token (l : Literal) : l.token.literal = some l := by
  cases l with
  | integer n =>
    have hall : (ascii (Nat.toDigits 10 n)).all isDigitByte := by
      refine List.all_eq_true.mpr fun b hb ↦ ?_
      obtain ⟨c, hc, rfl⟩ := List.mem_map.mp hb
      exact isDigitByte_digit (isDigit_of_mem_toDigits hc)
    rw [token, Token.literal, if_pos hall, number_toDigits]
  | text v => rfl

theorem Token.name_word (s : List UInt8) : (Token.word s).name = some s := rfl

theorem readItems_itemTokens {α : Type*} {item : Token → Option α} {token : α → Token}
    (h : ∀ a, item (token a) = some a) {as : List α} (has : as ≠ []) (rest : List Token) :
    readItems item (itemTokens (as.map token) ++ rest) = some (as, rest) := by
  induction as with
  | nil => exact absurd rfl has
  | cons a as ih =>
    cases as with
    | nil => simp [itemTokens, readItems, h]
    | cons b as =>
      have hrest := ih (List.cons_ne_nil b as)
      rw [List.map_cons] at hrest
      simp [itemTokens, readItems, h, hrest]

theorem expect_append (expected rest : List Token) :
    expect expected (expected ++ rest) = some rest := by
  rw [expect, if_pos (List.isPrefixOf_iff_prefix.mpr (List.prefix_append expected rest)),
    List.drop_left]

/-- **What is written is read.** -/
theorem readInsert_tokens {i : Insert} (hcolumns : i.columns ≠ []) (hvalues : i.values ≠ []) :
    readInsert i.tokens = some i := by
  have hnames := fun rest ↦ readItems_itemTokens Token.name_word hcolumns rest
  have hliterals := fun rest ↦ readItems_itemTokens Literal.literal_token hvalues rest
  simp only [readInsert, Insert.tokens, expect_append, readName, hnames, hliterals,
    Option.bind_eq_bind, Option.bind_some, if_true]

/-- The `INSERT` that a text reads as. -/
def insertOf (text : List UInt8) : Option Insert :=
  (tokens text).bind readInsert

theorem insertOf_of_tokens {text : List UInt8} {ts : List Token} (h : tokens text = some ts) :
    insertOf text = readInsert ts := by
  rw [insertOf, h]
  rfl

theorem Unterminated.insertOf_eq_none {text : List UInt8} (h : Unterminated text) :
    insertOf text = none := by
  rw [insertOf, h.tokens_eq_none]
  rfl

end SqlText

end PushService
