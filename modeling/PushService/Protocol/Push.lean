import PushService.Bytes

/-!
# Pushes and their binary form

`Push` of `common/push/push.h` and `BinaryPushSerializer`. An exception of the source is an
`Except.error` with the text of the exception.

An enumeration of the source has an `int` underneath, which `IsValid` checks against the declared
enumerators. Here only declared enumerators exist, and `ofByte?` is the cast followed by the check.
-/

namespace PushService

/-- `PushPriority` of `common/push/push.h`. -/
inductive PushPriority
  | normal
  | high
  | critical
  deriving DecidableEq, Repr

/-- `PushCategory` of `common/push/push.h`. -/
inductive PushCategory
  | notification
  | warning
  | error
  deriving DecidableEq, Repr

/-- `PushSource` of `common/push/push.h`. -/
inductive PushSource
  | source1
  | source2
  | source3
  deriving DecidableEq, Repr

def PushPriority.toByte : PushPriority → UInt8
  | normal => 0
  | high => 1
  | critical => 2

def PushCategory.toByte : PushCategory → UInt8
  | notification => 0
  | warning => 1
  | error => 2

def PushSource.toByte : PushSource → UInt8
  | source1 => 0
  | source2 => 1
  | source3 => 2

def PushPriority.ofByte? (b : UInt8) : Option PushPriority :=
  if b = 0 then some normal else if b = 1 then some high else if b = 2 then some critical else none

def PushCategory.ofByte? (b : UInt8) : Option PushCategory :=
  if b = 0 then some notification
  else if b = 1 then some warning
  else if b = 2 then some error
  else none

def PushSource.ofByte? (b : UInt8) : Option PushSource :=
  if b = 0 then some source1
  else if b = 1 then some source2
  else if b = 2 then some source3
  else none

@[simp] theorem PushPriority.ofByte?_toByte (p : PushPriority) : ofByte? p.toByte = some p := by
  cases p <;> decide

@[simp] theorem PushCategory.ofByte?_toByte (c : PushCategory) : ofByte? c.toByte = some c := by
  cases c <;> decide

@[simp] theorem PushSource.ofByte?_toByte (s : PushSource) : ofByte? s.toByte = some s := by
  cases s <;> decide

/-- `Push`. -/
structure Push where
  priority : PushPriority
  category : PushCategory
  source : PushSource
  text : Bytes
  deriving DecidableEq, Repr

/-- Throw the message unless there is a value. -/
def orThrow {α : Type*} (value : Option α) (message : String) : Except String α :=
  match value with
  | some a => .ok a
  | none => .error message

@[simp] theorem orThrow_some {α : Type*} (a : α) (message : String) :
    orThrow (some a) message = .ok a := rfl

namespace BinaryPushSerializer

/-- `BinaryPushSerializer::Serialize`. -/
def serialize (push : Push) : Bytes :=
  [push.priority.toByte, push.category.toByte, push.source.toByte]
    ++ netBytes (UInt32.ofNat push.text.length) ++ push.text

/-- `BinaryPushSerializer::Deserialize`. Bytes behind the text are ignored. -/
def deserialize (data : Bytes) : Except String Push :=
  -- 3 enums + 4 bytes message text length
  if data.length < 3 + 4 then .error "Invalid Push packet"
  else do
    let priority ← orThrow (PushPriority.ofByte? (data.getD 0 0)) "Invalid PushPriority"
    let category ← orThrow (PushCategory.ofByte? (data.getD 1 0)) "Invalid PushCategory"
    let source ← orThrow (PushSource.ofByte? (data.getD 2 0)) "Invalid PushSource"
    let textSize := (readNet (data.drop 3)).toNat
    if 7 + textSize > data.length then .error "Invalid Push text size"
    else .ok ⟨priority, category, source, (data.drop 7).take textSize⟩

@[simp] theorem length_serialize (push : Push) :
    (serialize push).length = 7 + push.text.length := by
  simp [serialize]
  omega

theorem serialize_append (push : Push) (rest : Bytes) :
    serialize push ++ rest = push.priority.toByte :: push.category.toByte :: push.source.toByte ::
      (netBytes (UInt32.ofNat push.text.length) ++ (push.text ++ rest)) := by
  simp [serialize]

/-- What was serialized is read back, whatever follows it. -/
theorem deserialize_serialize_append {push : Push} (h : push.text.length < 2 ^ 32) (rest : Bytes) :
    deserialize (serialize push ++ rest) = .ok push := by
  have hsize : (UInt32.ofNat push.text.length).toNat = push.text.length :=
    UInt32.toNat_ofNat_of_lt' h
  have hlength : (serialize push ++ rest).length = 7 + push.text.length + rest.length := by
    rw [List.length_append, length_serialize]
  have hread : readNet ((serialize push ++ rest).drop 3) = UInt32.ofNat push.text.length := by
    rw [serialize_append]
    exact readNet_netBytes _ _
  have hdrop : (serialize push ++ rest).drop 7 = push.text ++ rest := by
    rw [serialize_append]
    rfl
  have hshort : ¬7 + push.text.length + rest.length < 3 + 4 := by omega
  have htext : ¬7 + push.text.length > 7 + push.text.length + rest.length := by omega
  rw [deserialize, hread, hsize, hdrop, hlength, if_neg hshort, serialize_append]
  simp only [List.getD_cons_zero, List.getD_cons_succ, PushPriority.ofByte?_toByte,
    PushCategory.ofByte?_toByte, PushSource.ofByte?_toByte, orThrow_some, bind, Except.bind,
    if_neg htext, List.take_left]

end BinaryPushSerializer

end PushService
