import Mathlib.Data.Set.Function
import PushService.Protocol.Fields
import PushService.Protocol.Message

/-!
# What is a message

As for the pushes, `RawMessage` may have any byte for its type, and `rawDecodeMessage` may read past
the end of its argument. The checks of the source exclude both, and what they let through is decoded
by `decodeMessage` (`rawDecodeMessage_eq`). A message takes all of its bytes, so there is nothing
behind it: the valid messages and the accepted byte strings correspond to each other.
-/

namespace PushService

namespace Protocol

theorem MessageType.ofByte?_eq_some {b : UInt8} {t : MessageType} :
    ofByte? b = some t ↔ t.toByte = b := by
  refine ⟨fun h ↦ ?_, fun h ↦ h ▸ ofByte?_toByte t⟩
  unfold ofByte? at h
  split_ifs at h with h₁ h₂ h₃ <;> cases h
  · exact h₁.symm
  · exact h₂.symm
  · exact h₃.symm

theorem MessageType.toByte_injective : Function.Injective MessageType.toByte := by
  intro t u h
  have hsame := congrArg MessageType.ofByte? h
  simpa using hsame

/-- An id, a type, and what follows them. -/
theorem exists_eq_cons {d : Bytes} (h : messageHeaderSize ≤ d.length) :
    ∃ b₀ b₁ b₂ b₃ b₄ t, d = b₀ :: b₁ :: b₂ :: b₃ :: b₄ :: t := by
  match d, h with
  | b₀ :: b₁ :: b₂ :: b₃ :: b₄ :: t, _ => exact ⟨b₀, b₁, b₂, b₃, b₄, t, rfl⟩

/-- **Decoding and encoding are inverse to each other** on the messages that are no empty push. -/
theorem decodeMessage_eq_ok {d : Bytes} {m : Message} :
    decodeMessage d = .ok m ↔ (m.type = .push → m.payload ≠ []) ∧ encodeMessage m = d := by
  constructor
  · intro h
    rw [decodeMessage] at h
    split_ifs at h with hshort
    obtain ⟨b₀, b₁, b₂, b₃, b₄, t, rfl⟩ := exists_eq_cons (not_lt.mp hshort)
    have hget : (b₀ :: b₁ :: b₂ :: b₃ :: b₄ :: t).getD 4 0 = b₄ := rfl
    rw [hget] at h
    cases htype : MessageType.ofByte? b₄ with
    | none => simp [htype] at h
    | some type =>
      simp only [htype] at h
      split_ifs at h with hempty
      obtain rfl := Except.ok.inj h
      obtain rfl : type.toByte = b₄ := MessageType.ofByte?_eq_some.mp htype
      refine ⟨fun hpush hnil ↦ hempty ⟨hpush, hnil⟩, ?_⟩
      exact netBytes_readNet (b := b₀ :: b₁ :: b₂ :: b₃ :: type.toByte :: t) (by simp)
  · rintro ⟨hpayload, rfl⟩
    exact decodeMessage_encodeMessage hpayload

/-! ## Messages as they are -/

/-- `Message`, whose type may be any byte. -/
structure RawMessage where
  id : UInt32
  type : UInt8
  payload : Bytes
  deriving DecidableEq, Repr

/-- The type is a declared one, and a push is not empty. -/
structure RawMessage.Valid (m : RawMessage) : Prop where
  type : m.type ∈ Set.range MessageType.toByte
  payload : m.type = MessageType.push.toByte → m.payload ≠ []

/-- A message with a declared type. -/
def Message.toRaw (m : Message) : RawMessage :=
  ⟨m.id, m.type.toByte, m.payload⟩

/-- `Message::EncodeMessage`. -/
def rawEncodeMessage (message : RawMessage) : Bytes :=
  netBytes message.id ++ message.type :: message.payload

/-- The `switch` of `DecodeMessage`. -/
def isDeclaredType (rawType : UInt8) : Bool :=
  rawType == MessageType.push.toByte || rawType == MessageType.accepted.toByte
    || rawType == MessageType.error.toByte

/-- `Message::DecodeMessage`. -/
def rawDecodeMessage (data : Bytes) : Except ReadError RawMessage := do
  throwIf (data.length < messageHeaderSize) "Message too short"
  let netId ← bytesAt data 0 4
  let rawType ← byteAt data 4
  throwIf (!isDeclaredType rawType) "Unknown MessageType"
  let payload := if data.length > messageHeaderSize then data.drop messageHeaderSize else []
  throwIf (rawType == MessageType.push.toByte && payload.isEmpty) "Push message has empty payload"
  return ⟨readNet netId, rawType, payload⟩

theorem rawEncodeMessage_toRaw (m : Message) : rawEncodeMessage m.toRaw = encodeMessage m := rfl

theorem RawMessage.valid_iff {m : RawMessage} :
    m.Valid ↔ ∃ n : Message, n.toRaw = m ∧ (n.type = .push → n.payload ≠ []) := by
  obtain ⟨id, type, payload⟩ := m
  constructor
  · rintro ⟨⟨t, rfl⟩, hpayload⟩
    exact ⟨⟨id, t, payload⟩, rfl, fun ht ↦ hpayload (congrArg MessageType.toByte ht)⟩
  · rintro ⟨⟨id, t, payload⟩, h, hpayload⟩
    obtain ⟨rfl, rfl, rfl⟩ := RawMessage.mk.inj h
    exact ⟨⟨t, rfl⟩, fun ht ↦ hpayload (MessageType.toByte_injective ht)⟩

theorem isDeclaredType_eq (b : UInt8) : isDeclaredType b = (MessageType.ofByte? b).isSome := by
  rw [isDeclaredType, MessageType.ofByte?]
  split_ifs <;> simp_all [MessageType.toByte]

/-- **The checks suffice**: nothing is read past the end, and every type is a declared one. -/
theorem rawDecodeMessage_eq (d : Bytes) :
    rawDecodeMessage d =
      match decodeMessage d with
      | .ok m => .ok m.toRaw
      | .error message => .error (.thrown message) := by
  by_cases hshort : d.length < messageHeaderSize
  · rw [decodeMessage, if_pos hshort, rawDecodeMessage, decide_eq_true hshort]
    rfl
  · obtain ⟨b₀, b₁, b₂, b₃, b₄, t, rfl⟩ := exists_eq_cons (not_lt.mp hshort)
    have hpayload : (if (b₀ :: b₁ :: b₂ :: b₃ :: b₄ :: t).length > messageHeaderSize then
        (b₀ :: b₁ :: b₂ :: b₃ :: b₄ :: t).drop messageHeaderSize else []) = t := by
      cases t with
      | nil => rfl
      | cons b t => exact if_pos (by simp [messageHeaderSize])
    have hid : bytesAt (b₀ :: b₁ :: b₂ :: b₃ :: b₄ :: t) 0 4 = .ok [b₀, b₁, b₂, b₃] :=
      bytesAt_of_le (by simp)
    have htype : byteAt (b₀ :: b₁ :: b₂ :: b₃ :: b₄ :: t) 4 = .ok b₄ := rfl
    have hget : (b₀ :: b₁ :: b₂ :: b₃ :: b₄ :: t).getD 4 0 = b₄ := rfl
    rw [decodeMessage, if_neg hshort, rawDecodeMessage, decide_eq_false hshort, hget]
    simp only [throwIf_false_bind, hid, htype, ok_bind, hpayload, isDeclaredType_eq]
    cases hdeclared : MessageType.ofByte? b₄ with
    | none => rfl
    | some type =>
      obtain rfl : type.toByte = b₄ := MessageType.ofByte?_eq_some.mp hdeclared
      by_cases hempty : type = .push ∧ t = []
      · obtain ⟨rfl, rfl⟩ := hempty
        rfl
      · have hcondition : (type.toByte == MessageType.push.toByte && t.isEmpty) = false := by
          rw [Bool.and_eq_false_iff, beq_eq_false_iff_ne, List.isEmpty_eq_false_iff]
          exact (not_and_or.mp hempty).imp_left fun hne ht ↦ hne (MessageType.toByte_injective ht)
        rw [Option.isSome_some, Bool.not_true, throwIf_false_bind, hcondition, throwIf_false_bind]
        simp only [if_neg hempty, messageHeaderSize, List.drop_succ_cons, List.drop_zero]
        rfl

/-- What is returned is what was encoded. -/
theorem rawDecodeMessage_eq_ok {d : Bytes} {m : RawMessage} :
    rawDecodeMessage d = .ok m ↔ m.Valid ∧ rawEncodeMessage m = d := by
  rw [rawDecodeMessage_eq, RawMessage.valid_iff]
  constructor
  · intro h
    cases hd : decodeMessage d with
    | error message => simp [hd] at h
    | ok n =>
      simp only [hd, Except.ok.injEq] at h
      subst h
      obtain ⟨hpayload, rfl⟩ := decodeMessage_eq_ok.mp hd
      exact ⟨⟨n, rfl, hpayload⟩, rawEncodeMessage_toRaw n⟩
  · rintro ⟨⟨n, rfl, hpayload⟩, rfl⟩
    rw [rawEncodeMessage_toRaw, decodeMessage_encodeMessage hpayload]

/-- **Exactly the encoded valid messages are accepted.** Otherwise an exception is thrown. -/
theorem rawDecodeMessage_exact :
    (∀ d m, rawDecodeMessage d = .ok m ↔ m.Valid ∧ rawEncodeMessage m = d) ∧
      (∀ d, (∀ m : RawMessage, ¬(m.Valid ∧ rawEncodeMessage m = d)) →
        ∃ message, rawDecodeMessage d = .error (.thrown message)) ∧
      Set.BijOn rawEncodeMessage {m | m.Valid} {d | ∃ m, rawDecodeMessage d = .ok m} := by
  refine ⟨fun d m ↦ rawDecodeMessage_eq_ok, fun d h ↦ ?_, fun m hm ↦ ?_, fun m hm n hn heq ↦ ?_, ?_⟩
  · cases hd : decodeMessage d with
    | error message => exact ⟨message, by rw [rawDecodeMessage_eq, hd]⟩
    | ok n =>
      have hok : rawDecodeMessage d = .ok n.toRaw := by rw [rawDecodeMessage_eq, hd]
      exact absurd (rawDecodeMessage_eq_ok.mp hok) (h _)
  · exact ⟨m, rawDecodeMessage_eq_ok.mpr ⟨hm, rfl⟩⟩
  · have hsame := (rawDecodeMessage_eq_ok.mpr ⟨hm, rfl⟩).symm.trans
      (rawDecodeMessage_eq_ok.mpr ⟨hn, heq.symm⟩)
    exact Except.ok.inj hsame
  · rintro d ⟨m, hm⟩
    exact ⟨m, rawDecodeMessage_eq_ok.mp hm⟩

end Protocol

end PushService
