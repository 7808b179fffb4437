import PushService.Protocol.Fields
import PushService.Protocol.Push

/-!
# What the serializer accepts

`Push` has declared enumerators only, and its `deserialize` cannot read outside its argument. In C++
neither goes without saying: an enumeration is an `int`, which a cast may set to anything, and a
read past the end of a span is undefined. `RawPush` and `rawDeserialize` have both, and the checks
of the source are there to be seen. They come down to `Push` and `deserialize`
(`rawDeserialize_eq`), which are a prefix code (`deserialize_eq_ok`).
-/

namespace PushService

/-! ## The prefix code of the pushes -/

theorem PushPriority.ofByte?_eq_some {b : UInt8} {p : PushPriority} :
    ofByte? b = some p ↔ p.toByte = b := by
  refine ⟨fun h ↦ ?_, fun h ↦ h ▸ ofByte?_toByte p⟩
  unfold ofByte? at h
  split_ifs at h with h₀ h₁ h₂ <;> cases h
  · exact h₀.symm
  · exact h₁.symm
  · exact h₂.symm

theorem PushCategory.ofByte?_eq_some {b : UInt8} {c : PushCategory} :
    ofByte? b = some c ↔ c.toByte = b := by
  refine ⟨fun h ↦ ?_, fun h ↦ h ▸ ofByte?_toByte c⟩
  unfold ofByte? at h
  split_ifs at h with h₀ h₁ h₂ <;> cases h
  · exact h₀.symm
  · exact h₁.symm
  · exact h₂.symm

theorem PushSource.ofByte?_eq_some {b : UInt8} {s : PushSource} :
    ofByte? b = some s ↔ s.toByte = b := by
  refine ⟨fun h ↦ ?_, fun h ↦ h ▸ ofByte?_toByte s⟩
  unfold ofByte? at h
  split_ifs at h with h₀ h₁ h₂ <;> cases h
  · exact h₀.symm
  · exact h₁.symm
  · exact h₂.symm

theorem orThrow_bind_eq_ok {α β : Type} {value : Option α} {message : String}
    {f : α → Except String β} {b : β} :
    (orThrow value message >>= f) = .ok b ↔ ∃ a, value = some a ∧ f a = .ok b := by
  cases value with
  | none => simp [orThrow, bind, Except.bind]
  | some a => simp [bind, Except.bind]

namespace BinaryPushSerializer

/-- Three enumerators of a byte each, and the text behind its length. -/
def code : PrefixCode UInt8 Push :=
  ((PrefixCode.symbol PushPriority.toByte PushPriority.ofByte? PushPriority.ofByte?_eq_some).seq
    fun _ ↦ (PrefixCode.symbol PushCategory.toByte PushCategory.ofByte?
      PushCategory.ofByte?_eq_some).seq
    fun _ ↦ (PrefixCode.symbol PushSource.toByte PushSource.ofByte? PushSource.ofByte?_eq_some).seq
    fun _ ↦ lengthPrefixed).retype (fun push ↦ push.text.length < 2 ^ 32)
    (fun push ↦ (push.priority, push.category, push.source, push.text))
    (fun v ↦ ⟨v.1, v.2.1, v.2.2.1, v.2.2.2⟩)
    (fun _ ht ↦ ⟨⟨trivial, trivial, trivial, ht⟩, rfl⟩)
    fun _ hv ↦ ⟨hv.2.2.2, rfl⟩

@[simp] theorem code_valid {push : Push} : code.Valid push ↔ push.text.length < 2 ^ 32 := Iff.rfl

@[simp] theorem code_encode (push : Push) : code.encode push = serialize push := by
  simp [code, PrefixCode.retype, PrefixCode.seq, PrefixCode.symbol, serialize]

/-- Three bytes of enumerators, and what follows them. -/
theorem exists_eq_cons {d : Bytes} (h : 7 ≤ d.length) :
    ∃ b₀ b₁ b₂ t, d = b₀ :: b₁ :: b₂ :: t ∧ 4 ≤ t.length := by
  match d, h with
  | b₀ :: b₁ :: b₂ :: t, h =>
    refine ⟨b₀, b₁, b₂, t, rfl, ?_⟩
    simp only [List.length_cons] at h
    omega

/-- **What is deserialized is what the prefix code decodes.** -/
theorem deserialize_eq_ok {d : Bytes} {push : Push} :
    deserialize d = .ok push ↔ ∃ rest, code.decode d = some (push, rest) := by
  constructor
  · intro h
    rw [deserialize] at h
    split_ifs at h with hshort
    obtain ⟨b₀, b₁, b₂, t, rfl, ht⟩ := exists_eq_cons (not_lt.mp hshort)
    obtain ⟨priority, hpriority, h⟩ := orThrow_bind_eq_ok.mp h
    obtain ⟨category, hcategory, h⟩ := orThrow_bind_eq_ok.mp h
    obtain ⟨source, hsource, h⟩ := orThrow_bind_eq_ok.mp h
    dsimp only at h
    split_ifs at h with hlarge
    obtain rfl := Except.ok.inj h
    have hfits : (readNet t).toNat ≤ (t.drop 4).length := by
      simp only [List.length_cons, List.drop_succ_cons, List.drop_zero] at hlarge
      rw [List.length_drop]
      omega
    -- the text is what stands behind its length
    have htext := lengthPrefixed_decode ht
    rw [if_pos hfits] at htext
    obtain ⟨hlength, heq⟩ := lengthPrefixed.decode_eq_some.mp htext
    obtain rfl : priority.toByte = b₀ := PushPriority.ofByte?_eq_some.mp hpriority
    obtain rfl : category.toByte = b₁ := PushCategory.ofByte?_eq_some.mp hcategory
    obtain rfl : source.toByte = b₂ := PushSource.ofByte?_eq_some.mp hsource
    refine ⟨(t.drop 4).drop (readNet t).toNat, code.decode_eq_some.mpr ⟨hlength, ?_⟩⟩
    rw [code_encode, serialize_append, ← List.append_assoc]
    exact congrArg (fun u ↦ priority.toByte :: category.toByte :: source.toByte :: u) heq
  · rintro ⟨rest, hdecode⟩
    obtain ⟨hlength, rfl⟩ := code.decode_eq_some.mp hdecode
    rw [code_encode]
    exact deserialize_serialize_append hlength rest

end BinaryPushSerializer

/-! ## Enumerations as they are -/

/-- A `static_cast` of an enumerator to `std::byte`. -/
def enumToByte (x : Int32) : UInt8 :=
  x.toUInt32.toUInt8

/-- A `static_cast` of a byte to an enumeration. -/
def enumOfByte (b : UInt8) : Int32 :=
  b.toUInt32.toInt32

/-- What an enumerator stands for, in the order of declaration. -/
def PushPriority.toInt : PushPriority → Int32
  | normal => 0
  | high => 1
  | critical => 2

def PushCategory.toInt : PushCategory → Int32
  | notification => 0
  | warning => 1
  | error => 2

def PushSource.toInt : PushSource → Int32
  | source1 => 0
  | source2 => 1
  | source3 => 2

/-- `x == a || x == b || x == c` -/
def isAnyOf (a b c x : Int32) : Bool :=
  x == a || x == b || x == c

/-- `IsValid(PushPriority)` -/
def PushPriority.isValid : Int32 → Bool :=
  isAnyOf normal.toInt high.toInt critical.toInt

/-- `IsValid(PushCategory)` -/
def PushCategory.isValid : Int32 → Bool :=
  isAnyOf notification.toInt warning.toInt error.toInt

/-- `IsValid(PushSource)` -/
def PushSource.isValid : Int32 → Bool :=
  isAnyOf source1.toInt source2.toInt source3.toInt

@[simp] theorem enumToByte_enumOfByte (b : UInt8) : enumToByte (enumOfByte b) = b := by
  simp [enumToByte, enumOfByte]

/-- Of the bytes, those of the enumerators are valid. -/
theorem isAnyOf_enumOfByte (a b c x : UInt8) :
    isAnyOf (enumOfByte a) (enumOfByte b) (enumOfByte c) (enumOfByte x)
      = (x == a || x == b || x == c) := by
  have hinj : ∀ y : UInt8, (enumOfByte x == enumOfByte y) = (x == y) := by
    intro y
    rw [Bool.eq_iff_iff, beq_iff_eq, beq_iff_eq]
    refine ⟨fun h ↦ ?_, congrArg enumOfByte⟩
    rw [← enumToByte_enumOfByte x, h, enumToByte_enumOfByte]
  rw [isAnyOf, hinj, hinj, hinj]

theorem PushPriority.toInt_eq (p : PushPriority) : p.toInt = enumOfByte p.toByte := by
  cases p <;> rfl

theorem PushCategory.toInt_eq (c : PushCategory) : c.toInt = enumOfByte c.toByte := by
  cases c <;> rfl

theorem PushSource.toInt_eq (s : PushSource) : s.toInt = enumOfByte s.toByte := by
  cases s <;> rfl

theorem PushPriority.isValid_enumOfByte (b : UInt8) :
    isValid (enumOfByte b) = (ofByte? b).isSome := by
  rw [isValid, toInt_eq, toInt_eq, toInt_eq, isAnyOf_enumOfByte, ofByte?]
  split_ifs <;> simp_all [toByte]

theorem PushCategory.isValid_enumOfByte (b : UInt8) :
    isValid (enumOfByte b) = (ofByte? b).isSome := by
  rw [isValid, toInt_eq, toInt_eq, toInt_eq, isAnyOf_enumOfByte, ofByte?]
  split_ifs <;> simp_all [toByte]

theorem PushSource.isValid_enumOfByte (b : UInt8) :
    isValid (enumOfByte b) = (ofByte? b).isSome := by
  rw [isValid, toInt_eq, toInt_eq, toInt_eq, isAnyOf_enumOfByte, ofByte?]
  split_ifs <;> simp_all [toByte]

/-- `Push`, whose enumerators may be any `int`. -/
structure RawPush where
  priority : Int32
  category : Int32
  source : Int32
  text : Bytes
  deriving DecidableEq, Repr

/-- The enumerators are declared ones. -/
structure RawPush.Declared (push : RawPush) : Prop where
  priority : push.priority ∈ Set.range PushPriority.toInt
  category : push.category ∈ Set.range PushCategory.toInt
  source : push.source ∈ Set.range PushSource.toInt

/-- A push with declared enumerators. -/
def Push.toRaw (push : Push) : RawPush :=
  ⟨push.priority.toInt, push.category.toInt, push.source.toInt, push.text⟩

theorem RawPush.declared_iff {p : RawPush} : p.Declared ↔ ∃ push : Push, push.toRaw = p := by
  obtain ⟨priority, category, source, text⟩ := p
  constructor
  · rintro ⟨⟨a, rfl⟩, ⟨b, rfl⟩, ⟨c, rfl⟩⟩
    exact ⟨⟨a, b, c, text⟩, rfl⟩
  · rintro ⟨⟨a, b, c, text⟩, h⟩
    obtain ⟨rfl, rfl, rfl, rfl⟩ := RawPush.mk.inj h
    exact ⟨⟨a, rfl⟩, ⟨b, rfl⟩, ⟨c, rfl⟩⟩

namespace BinaryPushSerializer

/-- `BinaryPushSerializer::Serialize`. -/
def rawSerialize (push : RawPush) : Bytes :=
  [enumToByte push.priority, enumToByte push.category, enumToByte push.source]
    ++ netBytes (UInt32.ofNat push.text.length) ++ push.text

/-- `BinaryPushSerializer::Deserialize`. The sum of offset and size is a `size_t`. -/
def rawDeserialize (data : Bytes) : Except ReadError RawPush := do
  -- 3 enums + 4 bytes message text length
  throwIf (data.length < 3 + 4) "Invalid Push packet"
  let priority := enumOfByte (← byteAt data 0)
  throwIf (!PushPriority.isValid priority) "Invalid PushPriority"
  let category := enumOfByte (← byteAt data 1)
  throwIf (!PushCategory.isValid category) "Invalid PushCategory"
  let source := enumOfByte (← byteAt data 2)
  throwIf (!PushSource.isValid source) "Invalid PushSource"
  let sizeBytes ← bytesAt data 3 4
  let textSize := readNet sizeBytes
  throwIf ((7 + textSize.toNat) % 2 ^ 64 > data.length) "Invalid Push text size"
  let text ← bytesAt data 7 textSize.toNat
  return ⟨priority, category, source, text⟩

theorem rawSerialize_toRaw (push : Push) : rawSerialize push.toRaw = serialize push := by
  simp [rawSerialize, Push.toRaw, serialize, PushPriority.toInt_eq, PushCategory.toInt_eq,
    PushSource.toInt_eq]

/-- **The checks suffice**: nothing is read past the end, every enumerator is a declared one, and
the sum of offset and size does not overflow. -/
theorem rawDeserialize_eq (d : Bytes) :
    rawDeserialize d =
      match deserialize d with
      | .ok push => .ok push.toRaw
      | .error message => .error (.thrown message) := by
  by_cases hshort : d.length < 3 + 4
  · rw [deserialize, if_pos hshort, rawDeserialize, decide_eq_true hshort]
    rfl
  · obtain ⟨b₀, b₁, b₂, t, rfl, ht⟩ := exists_eq_cons (not_lt.mp hshort)
    have hsize : bytesAt (b₀ :: b₁ :: b₂ :: t) 3 4 = .ok (t.take 4) :=
      bytesAt_of_le (not_lt.mp hshort)
    have hread : readNet (t.take 4) = readNet t := by
      rw [← readNet_append (List.length_take_of_le ht).ge (t.drop 4), List.take_append_drop]
    have hsum : (7 + (readNet t).toNat) % 2 ^ 64 = 7 + (readNet t).toNat := by
      have := (readNet t).toNat_lt
      omega
    have h₀ : byteAt (b₀ :: b₁ :: b₂ :: t) 0 = .ok b₀ := rfl
    have h₁ : byteAt (b₀ :: b₁ :: b₂ :: t) 1 = .ok b₁ := rfl
    have h₂ : byteAt (b₀ :: b₁ :: b₂ :: t) 2 = .ok b₂ := rfl
    rw [deserialize, if_neg hshort, rawDeserialize, decide_eq_false hshort]
    simp only [throwIf_false_bind, h₀, h₁, h₂, hsize, hread, hsum, ok_bind,
      PushPriority.isValid_enumOfByte, PushCategory.isValid_enumOfByte,
      PushSource.isValid_enumOfByte,
      List.getD_cons_zero, List.getD_cons_succ, List.drop_succ_cons, List.drop_zero]
    cases hpriority : PushPriority.ofByte? b₀ with
    | none => rfl
    | some priority =>
      cases hcategory : PushCategory.ofByte? b₁ with
      | none => rfl
      | some category =>
        cases hsource : PushSource.ofByte? b₂ with
        | none => rfl
        | some source =>
          obtain rfl : priority.toByte = b₀ := PushPriority.ofByte?_eq_some.mp hpriority
          obtain rfl : category.toByte = b₁ := PushCategory.ofByte?_eq_some.mp hcategory
          obtain rfl : source.toByte = b₂ := PushSource.ofByte?_eq_some.mp hsource
          simp only [Option.isSome_some, Bool.not_true, throwIf_false_bind, orThrow_some, ok_bind]
          by_cases hlarge : 7 + (readNet t).toNat
              > (priority.toByte :: category.toByte :: source.toByte :: t).length
          · rw [decide_eq_true hlarge, if_pos hlarge]
            rfl
          · rw [decide_eq_false hlarge, if_neg hlarge, throwIf_false_bind,
              bytesAt_of_le (not_lt.mp hlarge), ok_bind]
            show _ = Except.ok (Push.toRaw _)
            rw [Push.toRaw, PushPriority.toInt_eq, PushCategory.toInt_eq, PushSource.toInt_eq]
            rfl

/-- The bytes begin with the push, in its serialized form. -/
def StartsWith (d : Bytes) (p : RawPush) : Prop :=
  p.Declared ∧ p.text.length < 2 ^ 32 ∧ ∃ rest, d = rawSerialize p ++ rest

theorem startsWith_toRaw {d : Bytes} {push : Push} :
    StartsWith d push.toRaw ↔ ∃ rest, code.decode d = some (push, rest) := by
  rw [StartsWith, rawSerialize_toRaw, RawPush.declared_iff]
  simp only [code.decode_eq_some, code_valid, code_encode, exists_and_left]
  exact and_iff_right ⟨push, rfl⟩

/-- What is returned stands at the front of the bytes. -/
theorem rawDeserialize_eq_ok {d : Bytes} {p : RawPush} :
    rawDeserialize d = .ok p ↔ StartsWith d p := by
  rw [rawDeserialize_eq]
  constructor
  · intro h
    cases hd : deserialize d with
    | error message => simp [hd] at h
    | ok push =>
      simp only [hd, Except.ok.injEq] at h
      subst h
      exact startsWith_toRaw.mpr (deserialize_eq_ok.mp hd)
  · intro h
    obtain ⟨push, rfl⟩ := RawPush.declared_iff.mp h.1
    rw [deserialize_eq_ok.mpr (startsWith_toRaw.mp h)]

/-- **Exactly the serialized pushes are accepted.** Otherwise an exception is thrown; nothing is
read past the end of the bytes. -/
theorem rawDeserialize_exact :
    (∀ d p, rawDeserialize d = .ok p ↔ StartsWith d p) ∧
      (∀ d p q, StartsWith d p → StartsWith d q → p = q) ∧
      (∀ d, (∀ p, ¬StartsWith d p) → ∃ message, rawDeserialize d = .error (.thrown message)) ∧
      (∀ d, rawDeserialize d ≠ .error .pastEnd) ∧
      ∀ p : RawPush, p.Declared → p.text.length < 2 ^ 32 →
        rawDeserialize (rawSerialize p) = .ok p := by
  refine ⟨fun d p ↦ rawDeserialize_eq_ok, fun d p q hp hq ↦ ?_, fun d h ↦ ?_, fun d ↦ ?_,
    fun p hdeclared hlength ↦ ?_⟩
  · have hsame := (rawDeserialize_eq_ok.mpr hp).symm.trans (rawDeserialize_eq_ok.mpr hq)
    exact Except.ok.inj hsame
  · cases hd : deserialize d with
    | error message => exact ⟨message, by rw [rawDeserialize_eq, hd]⟩
    | ok push =>
      have hok : rawDeserialize d = .ok push.toRaw := by rw [rawDeserialize_eq, hd]
      exact absurd (rawDeserialize_eq_ok.mp hok) (h _)
  · rw [rawDeserialize_eq]
    split <;> simp
  · exact rawDeserialize_eq_ok.mpr ⟨hdeclared, hlength, [], (List.append_nil _).symm⟩

end BinaryPushSerializer

end PushService
