import PushService.Protocol.Message
import PushService.Protocol.Push

/-!
# The protocol adapter

`ProtocolAdapter` with the serializer it is always constructed with, `BinaryPushSerializer`.

`Feed` is the reader of the prefix code `frameCode` whose payloads are read by `decodeBody`
(`feed_eq`): one call appends a chunk and takes at most one frame, and its `catch` block empties
the buffer, whichever call threw.
-/

namespace PushService

namespace Protocol

/-- `DecodedMessage`. -/
structure DecodedMessage where
  id : UInt32
  type : MessageType
  push : Option Push
  deriving DecidableEq, Repr

/-- The part of `Feed` between `TryDecodeFrame` and its end. -/
def decodeBody (msgData : Bytes) : Except String DecodedMessage := do
  let msg ← decodeMessage msgData
  if msg.type = .push then do
    let push ← BinaryPushSerializer.deserialize msg.payload
    .ok ⟨msg.id, msg.type, some push⟩
  else .ok ⟨msg.id, msg.type, none⟩

/-- `ProtocolAdapter`. A fresh one has an empty buffer. -/
structure ProtocolAdapter where
  buffer : Bytes := []
  deriving DecidableEq, Repr

/-- `ProtocolAdapter::SerializeToFrame`. -/
def serializeToFrame (push : Push) (messageId : UInt32) (messageType : MessageType) :
    Except String Bytes :=
  encodeFrame (encodeMessage ⟨messageId, messageType, BinaryPushSerializer.serialize push⟩)

/-- `ProtocolAdapter::Feed`: the message returned, if any, and the adapter afterwards. -/
def ProtocolAdapter.feed (a : ProtocolAdapter) (chunk : Bytes) :
    Option DecodedMessage × ProtocolAdapter :=
  match tryDecodeFrame (a.buffer ++ chunk) [] with
  | (.ok false, buffer, _) => (none, ⟨buffer⟩)
  | (.ok true, buffer, msgData) =>
    match decodeBody msgData with
    | .ok decodedMsg => (some decodedMsg, ⟨buffer⟩)
    | .error _ => (none, ⟨[]⟩)  -- the catch block: buffer_.clear()
  | (.error _, _, _) => (none, ⟨[]⟩)

/-- The adapter fed with one chunk after the other. -/
def ProtocolAdapter.feeding : System ProtocolAdapter Bytes DecodedMessage where
  step a chunk := some ((a.feed chunk).2, (a.feed chunk).1.toList)

/-! ## The adapter is a reader of the prefix code -/

/-- The decoding of a frame body, if it is well formed. -/
def readBody (body : Bytes) : Option DecodedMessage := (decodeBody body).toOption

theorem feed_eq (a : ProtocolAdapter) (chunk : Bytes) :
    a.feed chunk = ((frameCode.feed readBody a.buffer chunk).1,
      ⟨(frameCode.feed readBody a.buffer chunk).2⟩) := by
  rw [ProtocolAdapter.feed, tryDecodeFrame_eq, FrameCode.feed]
  cases frameCode.split (a.buffer ++ chunk) with
  | more => rfl
  | reject => rfl
  | frame body rest =>
    dsimp only
    rw [readBody]
    cases decodeBody body <;> rfl

/-- Feeding chunk after chunk, seen from the buffer, is a run of the reader. -/
theorem isView_feeding :
    System.IsView ProtocolAdapter.feeding (frameCode.reader readBody) ProtocolAdapter.buffer := by
  intro a chunk
  simp [ProtocolAdapter.feeding, FrameCode.reader, feed_eq]

theorem reader_run_of_feeding {a a' : ProtocolAdapter} {cs : List Bytes} {h : List DecodedMessage}
    (hrun : ProtocolAdapter.feeding.run a cs = some (a', h)) :
    (frameCode.reader readBody).run a.buffer cs = some (a'.buffer, h) := by
  rw [isView_feeding.run, hrun, Option.map_some]

end Protocol

end PushService
