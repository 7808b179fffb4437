import Mathlib.Data.List.AList
import Mathlib.Data.List.Infix

/-!
# The filters of the table

`MultiFilterProxyModel` keeps a list of words for some columns, and shows a row if in each of these
columns one of the words occurs. The words come as one text with bars between them. Which rows are
shown depends only on the last text set for each column (`filterAcceptsRow_of_calls`).

The words are compared without regard to case. What Qt does to a character for this is a parameter,
`fold`.
-/

namespace PushService

namespace Gui

/-! ## The parts of a text -/

/-- `text.split('|', Qt::SkipEmptyParts)`. -/
def splitWords (text : List Char) : List (List Char) :=
  (text.splitOn '|').filter fun word ↦ !word.isEmpty

/-- The word stands in the text between two bars, or a bar and an end of the text, or the two
ends. -/
structure IsPart (text word : List Char) : Prop where
  ne_nil : word ≠ []
  not_mem : '|' ∉ word
  exists_eq : ∃ l r, text = l ++ word ++ r ∧ (l = [] ∨ ['|'] <:+ l) ∧ (r = [] ∨ ['|'] <+: r)

theorem mem_splitOn_append {α : Type*} [BEq α] [LawfulBEq α] {a : α} {word r : List α}
    (hword : a ∉ word) (hr : r = [] ∨ [a] <+: r) : word ∈ (word ++ r).splitOn a := by
  obtain rfl | ⟨r, rfl⟩ := hr
  · rw [List.append_nil, List.splitOn_eq_singleton hword]
    exact List.mem_singleton_self word
  · rw [List.singleton_append, List.splitOn_append_cons_self_of_not_mem hword]
    exact List.mem_cons_self

/-- The pieces between the separators, empty ones included. -/
theorem mem_splitOn_iff {α : Type*} [BEq α] [LawfulBEq α] {a : α} {word text : List α} :
    word ∈ text.splitOn a ↔
      a ∉ word ∧ ∃ l r, text = l ++ word ++ r ∧ (l = [] ∨ [a] <:+ l) ∧ (r = [] ∨ [a] <+: r) := by
  constructor
  · induction h : text.length using Nat.strong_induction_on generalizing text with
    | _ n ih =>
      intro hmem
      by_cases hbar : a ∈ text
      · -- the first piece, and the rest of the text
        obtain ⟨first, rest, rfl, hfirst⟩ := List.eq_append_cons_of_mem hbar
        rw [List.splitOn_append_cons_self_of_not_mem hfirst] at hmem
        obtain rfl | hmem := List.mem_cons.mp hmem
        · exact ⟨hfirst, [], a :: rest, rfl, .inl rfl, .inr ⟨rest, rfl⟩⟩
        · rw [List.length_append, List.length_cons] at h
          obtain ⟨hword, l, r, rfl, hl, hr⟩ := ih rest.length (by omega) rfl hmem
          refine ⟨hword, first ++ a :: l, r, by simp, .inr ?_, hr⟩
          obtain rfl | hl := hl
          · exact ⟨first, rfl⟩
          · exact (hl.trans (List.suffix_cons a l)).trans (List.suffix_append first _)
      · rw [List.splitOn_eq_singleton hbar] at hmem
        obtain rfl := List.mem_singleton.mp hmem
        exact ⟨hbar, [], [], by simp, .inl rfl, .inl rfl⟩
  · rintro ⟨hword, l, r, rfl, hl, hr⟩
    obtain rfl | ⟨l, rfl⟩ := hl
    · exact mem_splitOn_append hword hr
    · rw [List.append_assoc, List.append_assoc, List.singleton_append,
        List.splitOn_append_cons_self]
      exact List.mem_append_right _ (mem_splitOn_append hword hr)

theorem mem_splitWords_iff {text word : List Char} : word ∈ splitWords text ↔ IsPart text word := by
  rw [splitWords, List.mem_filter, mem_splitOn_iff]
  constructor
  · rintro ⟨⟨hbar, hsplit⟩, hne⟩
    exact ⟨by simpa using hne, hbar, hsplit⟩
  · rintro ⟨hne, hbar, hsplit⟩
    exact ⟨⟨hbar, hsplit⟩, by simpa using hne⟩

/-! ## The proxy model -/

/-- `QString::contains` with `Qt::CaseInsensitive`. -/
def containsFolded (fold : Char → Char) (data word : List Char) : Bool :=
  decide (word.map fold <:+: data.map fold)

/-- `MultiFilterProxyModel`. -/
structure MultiFilterProxyModel where
  filters : AList fun _ : ℤ ↦ List (List Char)

namespace MultiFilterProxyModel

variable {m : MultiFilterProxyModel} {column : ℤ}

def init : MultiFilterProxyModel := ⟨∅⟩

def setColumnFilter (column : ℤ) (filterText : List Char) (enabled : Bool)
    (m : MultiFilterProxyModel) : MultiFilterProxyModel :=
  if enabled && !filterText.isEmpty then ⟨m.filters.insert column (splitWords filterText)⟩
  else ⟨m.filters.erase column⟩

def clearFilters (_ : MultiFilterProxyModel) : MultiFilterProxyModel := ⟨∅⟩

/-- The text of a cell. An index outside the table is invalid, and its data is empty. -/
def data (row : List (List Char)) (column : ℤ) : List Char :=
  if 0 ≤ column then row.getD column.toNat [] else []

def filterAcceptsRow (fold : Char → Char) (row : List (List Char))
    (m : MultiFilterProxyModel) : Bool :=
  m.filters.entries.all fun filter ↦ filter.2.any (containsFolded fold (data row filter.1))

theorem filterAcceptsRow_iff {fold : Char → Char} {row : List (List Char)} :
    m.filterAcceptsRow fold row = true ↔ ∀ column words, m.filters.lookup column = some words →
      ∃ word ∈ words, containsFolded fold (data row column) word = true := by
  simp only [filterAcceptsRow, List.all_eq_true, List.any_eq_true]
  constructor
  · intro h column words hlookup
    exact h ⟨column, words⟩ (AList.mem_lookup_iff.mp hlookup)
  · rintro h ⟨column, words⟩ hmem
    exact h column words (AList.mem_lookup_iff.mpr hmem)

theorem lookup_setColumnFilter (column column' : ℤ) (filterText : List Char) (enabled : Bool) :
    (m.setColumnFilter column' filterText enabled).filters.lookup column =
      if column' = column then
        if enabled && !filterText.isEmpty then some (splitWords filterText) else none
      else m.filters.lookup column := by
  rw [setColumnFilter]
  by_cases hcol : column' = column
  · subst hcol
    rw [if_pos rfl]
    split_ifs with hset
    · exact AList.lookup_insert ..
    · exact AList.lookup_erase column' m.filters
  · rw [if_neg hcol]
    split_ifs with hset
    · exact AList.lookup_insert_ne (Ne.symm hcol)
    · exact AList.lookup_erase_ne (Ne.symm hcol)

/-! ## One call after another -/

/-- A call that changes the filters. -/
inductive Call
  | setColumnFilter (column : ℤ) (filterText : List Char) (enabled : Bool)
  | clearFilters

def Call.apply (m : MultiFilterProxyModel) : Call → MultiFilterProxyModel
  | .setColumnFilter column filterText enabled => m.setColumnFilter column filterText enabled
  | .clearFilters => m.clearFilters

/-- The text by which a column is filtered after the call, if it is. -/
def Call.inForce (column : ℤ) (before : Option (List Char)) : Call → Option (List Char)
  | .setColumnFilter column' filterText enabled =>
    if column' = column then if enabled && !filterText.isEmpty then some filterText else none
    else before
  | .clearFilters => none

theorem lookup_of_calls (calls : List Call) (column : ℤ) (before : Option (List Char))
    (h : m.filters.lookup column = before.map splitWords) :
    (calls.foldl Call.apply m).filters.lookup column =
      (calls.foldl (Call.inForce column) before).map splitWords := by
  induction calls generalizing m before with
  | nil => exact h
  | cons call calls ih =>
    refine ih _ ?_
    cases call with
    | setColumnFilter column' filterText enabled =>
      rw [Call.apply, lookup_setColumnFilter, h, Call.inForce]
      split_ifs <;> rfl
    | clearFilters => rfl

/-- **The last texts count.** After any calls, a row is shown if and only if in each column with a
filter in force one of the words between the bars of its text occurs, up to case. -/
theorem filterAcceptsRow_of_calls (fold : Char → Char) (calls : List Call)
    (row : List (List Char)) :
    (calls.foldl Call.apply init).filterAcceptsRow fold row = true ↔
      ∀ column text, calls.foldl (Call.inForce column) none = some text →
        ∃ word, IsPart text word ∧ word.map fold <:+: (data row column).map fold := by
  rw [filterAcceptsRow_iff]
  refine forall_congr' fun column ↦ ?_
  rw [lookup_of_calls calls column none rfl]
  simp [containsFolded, mem_splitWords_iff]

end MultiFilterProxyModel

end Gui

end PushService
