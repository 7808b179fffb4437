import PushService.Database.SqliteDb

/-!
# The event log in bytes

The log of server events is modelled with values whose texts are strings of characters, and the
class `Database` with texts that are bytes. The one is the other in UTF-8: what `BindParam` leaves
of a string is the same, since only a NUL has a zero among its bytes, and the row of an `INSERT` has
the same values in the same columns. So what the log holds of a call is what a `SELECT` reads.
-/

namespace PushService

namespace SqliteDb

open Numerals SqlText
open PushService.Database (EventColumn EventRow EventCall SqlValue Slot Timestamp NulFree cStr
  eventColumns fillSlots)

/-! ## Values -/

/-- A value in UTF-8. -/
def Value.ofSql : SqlValue → Value
  | .null => .null
  | .int n => .integer n
  | .text s => .text (utf8 s.toList)

def Param.ofSql : PushService.Database.Param → Param
  | .int n => .int n
  | .string s => .string (utf8 s.toList)

def Operand.ofSlot : Slot → Operand
  | .null => .value .null
  | .param => .param

/-- A string is cut at the same place before and after the encoding. -/
theorem cText_utf8 (s : List Char) : cText (utf8 s) = utf8 (s.takeWhile (· ≠ '\x00')) := by
  induction s with
  | nil => rfl
  | cons c s ih =>
    have hcons : utf8 (c :: s) = String.utf8EncodeChar c ++ utf8 s := rfl
    by_cases hc : c = '\x00'
    · subst hc
      rfl
    · have htake : (c :: s).takeWhile (· ≠ '\x00') = c :: s.takeWhile (· ≠ '\x00') :=
        List.takeWhile_cons_of_pos (by simpa using hc)
      rw [hcons, cText_append_of_not_mem (zero_not_mem_utf8EncodeChar hc), ih, htake]
      rfl

theorem bound_ofSql (p : PushService.Database.Param) :
    (Param.ofSql p).bound = Value.ofSql p.bound := by
  cases p with
  | int n => rfl
  | string s =>
    have hcut : (cStr s).toList = s.toList.takeWhile (· ≠ '\x00') := String.toList_ofList
    rw [Param.ofSql, Param.bound, cText_utf8, ← hcut]
    rfl

/-! ## Rows -/

theorem lookup_bindParams (i k : ℕ) (params : List PushService.Database.Param) :
    (PushService.Database.bindParams i params).lookup (i + k)
      = params[k]?.map PushService.Database.Param.bound := by
  induction params generalizing i k with
  | nil => rfl
  | cons p params ih =>
    rw [PushService.Database.bindParams, List.lookup_cons]
    cases k with
    | zero => simp
    | succ k =>
      have hne : (i + (k + 1) == i) = false := by simp
      rw [hne]
      dsimp only
      rw [show i + (k + 1) = i + 1 + k by omega, ih, List.getElem?_cons_succ]

theorem bindings_bindParams_of_length_le {stmt : Stmt} {i j : ℕ} {params : List Param}
    (h : i + params.length ≤ j) : (bindParams stmt i params).bindings j = stmt.bindings j := by
  induction params generalizing stmt i with
  | nil => rfl
  | cons p params ih =>
    rw [List.length_cons] at h
    rw [bindParams, ih (by omega), bindParam]
    split
    · exact Function.update_of_ne (by omega) _ _
    · rfl

/-- The placeholders get the same values. -/
theorem bindings_ofSql {n k : ℕ} (hk : k < n) (params : List PushService.Database.Param) :
    (bindParams (prepare n) 1 (params.map Param.ofSql)).bindings (1 + k)
      = Value.ofSql (((PushService.Database.bindParams 1 params).lookup (1 + k)).getD .null) := by
  rw [lookup_bindParams]
  cases hparam : params[k]? with
  | none =>
    have hle : 1 + (params.map Param.ofSql).length ≤ 1 + k := by
      rw [List.length_map, Nat.add_le_add_iff_left]
      exact List.getElem?_eq_none_iff.mp hparam
    rw [bindings_bindParams_of_length_le hle]
    rfl
  | some p =>
    have hget : (params.map Param.ofSql)[k]? = some (Param.ofSql p) := by
      rw [List.getElem?_map, hparam, Option.map_some]
    have hle : 1 + k ≤ (prepare n).paramCount := by
      rw [Nat.add_comm]
      exact hk
    rw [bindings_bindParams (Nat.le_refl 1) hle hget, bound_ofSql]
    rfl

/-- The columns of an `INSERT`, and what stands for them. -/
def operands (items : List (EventColumn × Slot)) : List (EventColumn × Operand) :=
  items.map fun x ↦ (x.1, Operand.ofSlot x.2)

/-- An update, or an entry in front of a list that does not have its column. -/
theorem elim_lookup_cons {c d : EventColumn} {v : SqlValue} {l : List (EventColumn × SqlValue)}
    {row : Row EventColumn} (hd : d ∉ l.map Prod.fst) :
    (l.lookup c).elim (Function.update row d (Value.ofSql v) c) Value.ofSql
      = (((d, v) :: l).lookup c).elim (row c) Value.ofSql := by
  rw [List.lookup_cons]
  by_cases hc : c = d
  · subst hc
    have hnone : l.lookup c = none := by
      rw [List.lookup_eq_none_iff]
      intro x hx
      rw [bne_iff_ne]
      rintro rfl
      exact hd (List.mem_map_of_mem hx)
    rw [hnone, beq_self_eq_true]
    exact Function.update_self ..
  · rw [beq_eq_false_iff_ne.mpr hc, Function.update_of_ne hc]

/-- Filling the row in order, or looking a column up in the filled list. -/
theorem fillRow_operands {b : ℕ → Value} {bound : List (ℕ × SqlValue)} {i : ℕ}
    {items : List (EventColumn × Slot)} (row : Row EventColumn) (c : EventColumn)
    (hnodup : (items.map Prod.fst).Nodup)
    (hb : ∀ k < (paramColumns (operands items)).length,
      b (i + k) = Value.ofSql ((bound.lookup (i + k)).getD .null)) :
    fillRow b i (operands items) row c
      = (((items.map Prod.fst).zip (fillSlots bound i (items.map Prod.snd))).lookup c).elim (row c)
          Value.ofSql := by
  induction items generalizing i row with
  | nil => rfl
  | cons x items ih =>
    obtain ⟨d, slot⟩ := x
    rw [List.map_cons] at hnodup
    obtain ⟨hd, hitems⟩ := List.nodup_cons.mp hnodup
    have hzip : ∀ values : List SqlValue, d ∉ (((items.map Prod.fst).zip values).map Prod.fst) := by
      intro values hmem
      obtain ⟨x, hx, rfl⟩ := List.mem_map.mp hmem
      exact hd (List.of_mem_zip hx).1
    cases slot with
    | null =>
      have hrest : fillRow b i (operands ((d, .null) :: items)) row c
          = fillRow b i (operands items) (Function.update row d (Value.ofSql .null)) c := rfl
      rw [hrest, ih _ hitems hb, elim_lookup_cons (hzip _)]
      rfl
    | param =>
      have hrest : fillRow b i (operands ((d, .param) :: items)) row c
          = fillRow b (i + 1) (operands items) (Function.update row d (b i)) c := rfl
      have hvalue : b i = Value.ofSql ((bound.lookup i).getD .null) := hb 0 (Nat.succ_pos _)
      have htail : ∀ k < (paramColumns (operands items)).length,
          b (i + 1 + k) = Value.ofSql ((bound.lookup (i + 1 + k)).getD .null) := by
        intro k hk
        rw [show i + 1 + k = i + (k + 1) by omega]
        exact hb (k + 1) (Nat.succ_lt_succ hk)
      rw [hrest, ih _ hitems htail, hvalue, elim_lookup_cons (hzip _)]
      rfl

/-- The `INSERT` of a call. -/
def eventQuery (c : EventCall) : InsertQuery EventColumn where
  items := operands (eventColumns.zip c.slots)
  nodup := by
    cases c with
    | server | user | push => simp [operands, eventColumns, EventCall.slots]

example (type : PushService.Database.ServerEventType) (description : String) (time : Timestamp) :
    eventQuery (.server type description time) = addServerEventQuery := rfl

/-- **The row in bytes.** What is stored is what the row of the log holds, in UTF-8. -/
theorem insertedRow_eventQuery {numeric : Bytes → Value} {c : EventCall}
    (hc : NulFree c.description) (column : EventColumn) :
    insertedRow numeric eventColumnType (eventQuery c) (c.params.map Param.ofSql) column
      = Value.ofSql (c.row column) := by
  have hlength : c.slots.length = eventColumns.length := by
    cases c with
    | server | user | push => rfl
  have hcolumns : (eventColumns.zip c.slots).map Prod.fst = eventColumns :=
    List.map_fst_zip hlength.ge
  have hslots : (eventColumns.zip c.slots).map Prod.snd = c.slots :=
    List.map_snd_zip hlength.le
  have hnodup : ((eventColumns.zip c.slots).map Prod.fst).Nodup := by
    rw [hcolumns]
    decide
  have hfill := fillRow_operands (fun _ ↦ .null) column hnodup fun k hk ↦ bindings_ofSql hk c.params
  have hvalue : ∀ o : Option SqlValue, o.elim .null Value.ofSql = Value.ofSql (o.getD .null) := by
    intro o
    cases o with
    | none | some v => rfl
  have hstore : (eventColumnType column).store numeric (Value.ofSql (c.row column))
      = Value.ofSql (c.row column) := by
    cases c with
    | server | user | push =>
      cases column with
      | eventType | pushId | ownerType | ownerId | description | timestamp => rfl
  rw [hcolumns, hslots, hvalue] at hfill
  have hrow : EventRow.ofColumns eventColumns (fillSlots
      (PushService.Database.bindParams 1 c.params) 1 c.slots) column = c.row column :=
    congrFun (EventCall.ofColumns_eq_row hc) column
  rw [EventRow.ofColumns] at hrow
  rw [hrow] at hfill
  rw [← hstore, ← hfill]
  rfl

/-! ## Reading the log -/

/-- What `ExecuteQuery` returns for a value. -/
def textOf : SqlValue → Bytes
  | .null => []
  | .int n => ascii (intDigits n)
  | .text s => utf8 s.toList

/-- The texts of a value have no NUL. -/
def ValueNulFree : SqlValue → Prop
  | .text s => NulFree s
  | _ => True

theorem readColumn_ofSql {v : SqlValue} (h : ValueNulFree v) :
    readColumn (Value.ofSql v) = textOf v := by
  cases v with
  | null => rfl
  | int n => exact readColumn_intDigits n
  | text s =>
    have hread := readColumn_text (utf8 s.toList)
    have hfree : cText (utf8 s.toList) = utf8 s.toList := by
      rw [cText_utf8, List.takeWhile_eq_self_iff.mpr]
      intro a ha
      rw [decide_eq_true_eq]
      rintro rfl
      exact h ha
    rwa [hfree] at hread

/-- **What the log holds of a call is read.** The call is made, its text is executed, and a `SELECT`
whose condition its row meets goes through: then a row of the result has the texts of the call's
row. -/
theorem mem_executeQuery_event {numeric : Bytes → Value} {c : EventCall}
    (hc : NulFree c.description)
    {select : SelectQuery EventColumn} {selectParams : List Param} {fate fate' : Fate}
    {db db' db'' : Database EventColumn} {result : List (List Bytes)}
    (hwrite : executeNonQuery numeric eventColumnType fate (eventQuery c)
      (c.params.map Param.ofSql) db = (true, db'))
    (hselected : ∀ row ∈ db'.rows.getLast?,
      select.cond (bindParams (prepare select.paramCount) 1 selectParams).bindings row)
    (hread : executeQuery fate' select selectParams db' = (some result, db'')) :
    select.columns.map (fun column ↦ textOf (c.row column)) ∈ result := by
  have hmem := readRow_insertedRow_mem hwrite hselected hread
  have hfree : ∀ column, ValueNulFree (c.row column) := by
    intro column
    cases c with
    | server | user | push =>
      cases column with
      | description => exact hc
      | timestamp => exact Timestamp.nulFree _
      | eventType | pushId | ownerType | ownerId => trivial
  have hrow : readRow select.columns
      (insertedRow numeric eventColumnType (eventQuery c) (c.params.map Param.ofSql))
      = select.columns.map fun column ↦ textOf (c.row column) := by
    refine List.map_congr_left fun column _ ↦ ?_
    rw [insertedRow_eventQuery hc, readColumn_ofSql (hfree column)]
  rwa [hrow] at hmem

end SqliteDb

end PushService
