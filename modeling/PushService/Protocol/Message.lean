import PushService.Bytes
import PushService.Stream.Framing

/-!
# Frames and messages

`protocol.cpp` up to the adapter: `EncodeFrame` and `TryDecodeFrame`, which put a length in front of
a payload and find it again, and `Message`, an id and a type in front of a payload.

`TryDecodeFrame` changes its two arguments in place, also visibly to its caller when it throws, so
the model returns the result next to both of them. `frameCode` is the prefix code these functions
implement (`tryDecodeFrame_eq`, `encodeFrame_eq_ok`).
-/

namespace PushService

namespace Protocol

/-! ## Frames -/

/-- `LENGTH_PREFIX_SIZE` -/
def lengthPrefixSize : ℕ := 4

/-- `MAX_MESSAGE_SIZE` -/
def maxMessageSize : ℕ := 10 * 1024 * 1024

/-- `EncodeFrame`. -/
def encodeFrame (payload : Bytes) : Except String Bytes :=
  if payload.length > maxMessageSize then .error "Payload exceeds MAX_MESSAGE_SIZE!"
  else .ok (netBytes (UInt32.ofNat payload.length) ++ payload)

/-- `TryDecodeFrame`, with `buffer` and `out` as they are afterwards. -/
def tryDecodeFrame (buffer out : Bytes) : Except String Bool × Bytes × Bytes :=
  if buffer.length < lengthPrefixSize then (.ok false, buffer, out)
  else
    let len := (readNet buffer).toNat
    if len > maxMessageSize then
      (.error "Frame length exceeds MAX_MESSAGE_SIZE", buffer, out)
    else
      let totalSize := lengthPrefixSize + len
      if buffer.length < totalSize then (.ok false, buffer, out)
      else (.ok true, buffer.drop totalSize, (buffer.drop lengthPrefixSize).take len)

/-- The prefix code of the frames. -/
def frameCode : FrameCode UInt8 where
  Fits payload := payload.length ≤ maxMessageSize
  encode payload := netBytes (UInt32.ofNat payload.length) ++ payload
  split b :=
    if b.length < lengthPrefixSize then .more
    else if (readNet b).toNat > maxMessageSize then .reject
    else if b.length < lengthPrefixSize + (readNet b).toNat then .more
    else .frame ((b.drop lengthPrefixSize).take (readNet b).toNat)
      (b.drop (lengthPrefixSize + (readNet b).toNat))
  split_nil := by simp [lengthPrefixSize]
  split_encode p rest hp := by
    have hlen : (UInt32.ofNat p.length).toNat = p.length :=
      UInt32.toNat_ofNat_of_lt' (lt_of_le_of_lt hp (by decide))
    have hdrop : (netBytes (UInt32.ofNat p.length) ++ (p ++ rest)).drop lengthPrefixSize
        = p ++ rest := rfl
    have hdrop' : (netBytes (UInt32.ofNat p.length) ++ (p ++ rest)).drop
        (lengthPrefixSize + p.length)
        = rest := by
      rw [← List.drop_drop, hdrop, List.drop_left]
    rw [List.append_assoc, readNet_netBytes, hlen, hdrop, hdrop', List.take_left,
      if_neg (by simp [lengthPrefixSize]), if_neg (not_lt.mpr hp),
      if_neg (by simp [lengthPrefixSize])]
  split_of_isPrefix p b hp hpre hne := by
    have hlen : (UInt32.ofNat p.length).toNat = p.length :=
      UInt32.toNat_ofNat_of_lt' (lt_of_le_of_lt hp (by decide))
    by_cases hshort : b.length < lengthPrefixSize
    · rw [if_pos hshort]
    · obtain ⟨rest, hrest⟩ := hpre
      -- the length prefix has arrived, so `b` announces the length of `p`
      have hread : (readNet b).toNat = p.length := by
        rw [← readNet_append (not_lt.mp hshort) rest, hrest, readNet_netBytes, hlen]
      have hlt : b.length < lengthPrefixSize + p.length := by
        have hlength := congrArg List.length hrest
        have hpos : rest ≠ [] := fun hnil ↦ hne (by rw [← hrest, hnil, List.append_nil])
        have := List.length_pos_of_ne_nil hpos
        simp only [List.length_append, length_netBytes] at hlength
        simp only [lengthPrefixSize]
        omega
      rw [if_neg hshort, hread, if_neg (not_lt.mpr hp), if_pos hlt]

/-- `EncodeFrame` encodes the payloads that fit and throws on the others. -/
theorem encodeFrame_eq_ok {payload frame : Bytes} :
    encodeFrame payload = .ok frame ↔
      frameCode.Fits payload ∧ frame = frameCode.encode payload := by
  by_cases h : payload.length ≤ maxMessageSize
  · rw [encodeFrame, if_neg (not_lt.mpr h)]
    simp [frameCode, h, eq_comm]
  · rw [encodeFrame, if_pos (not_le.mp h)]
    simp [frameCode, h]

/-- `TryDecodeFrame` decodes the prefix code: it throws where the code rejects, and it changes the
buffer and `out` only where there is a frame. -/
theorem tryDecodeFrame_eq (buffer out : Bytes) :
    tryDecodeFrame buffer out =
      match frameCode.split buffer with
      | .more => (.ok false, buffer, out)
      | .reject => (.error "Frame length exceeds MAX_MESSAGE_SIZE", buffer, out)
      | .frame payload rest => (.ok true, rest, payload) := by
  rw [tryDecodeFrame]
  simp only [frameCode]
  split_ifs <;> rfl

/-! ## Messages -/

/-- `MessageType`. -/
inductive MessageType
  | push
  | accepted
  | error
  deriving DecidableEq, Repr

def MessageType.toByte : MessageType → UInt8
  | push => 1
  | accepted => 2
  | error => 3

/-- The `switch` of `DecodeMessage`. -/
def MessageType.ofByte? (b : UInt8) : Option MessageType :=
  if b = 1 then some push else if b = 2 then some accepted else if b = 3 then some error else none

@[simp] theorem MessageType.ofByte?_toByte (t : MessageType) : ofByte? t.toByte = some t := by
  cases t <;> decide

/-- `Message`. -/
structure Message where
  id : UInt32
  type : MessageType
  payload : Bytes
  deriving DecidableEq, Repr

/-- `MESSAGE_HEADER_SIZE`: the id and the type. -/
def messageHeaderSize : ℕ := 5

/-- `Message::EncodeMessage`. -/
def encodeMessage (message : Message) : Bytes :=
  netBytes message.id ++ message.type.toByte :: message.payload

/-- `Message::DecodeMessage`. -/
def decodeMessage (data : Bytes) : Except String Message :=
  if data.length < messageHeaderSize then .error "Message too short"
  else
    match MessageType.ofByte? (data.getD 4 0) with
    | none => .error "Unknown MessageType"
    | some type =>
      let payload := data.drop messageHeaderSize
      if type = .push ∧ payload = [] then .error "Push message has empty payload"
      else .ok ⟨readNet data, type, payload⟩

@[simp] theorem length_encodeMessage (m : Message) :
    (encodeMessage m).length = messageHeaderSize + m.payload.length := by
  simp [encodeMessage, messageHeaderSize]
  omega

/-- A message is read back, unless it is a push with nothing in it. -/
theorem decodeMessage_encodeMessage {m : Message} (h : m.type = .push → m.payload ≠ []) :
    decodeMessage (encodeMessage m) = .ok m := by
  have hlong : ¬(encodeMessage m).length < messageHeaderSize := by
    rw [length_encodeMessage]
    omega
  have htype : (encodeMessage m).getD 4 0 = m.type.toByte := rfl
  have hdrop : (encodeMessage m).drop messageHeaderSize = m.payload := rfl
  have hread : readNet (encodeMessage m) = m.id := readNet_netBytes _ _
  rw [decodeMessage, if_neg hlong, htype, MessageType.ofByte?_toByte]
  simp only [hdrop, hread, if_neg fun hempty : m.type = .push ∧ m.payload = [] ↦
    h hempty.1 hempty.2]

end Protocol

end PushService
