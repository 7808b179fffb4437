import PushService.Client.TcpClient
import PushService.Protocol.Conservation

/-!
# How large the buffer gets

`TryDecodeFrame` refuses a frame of more than `MAX_MESSAGE_SIZE` bytes, so less than one such frame
is ever kept back as incomplete. What it does not limit is the number of whole frames kept back:
`Feed` takes one frame out of the buffer and puts a chunk in, and a chunk may be longer than a
frame. The buffer grows beyond every bound if a peer sends many small messages
(`exists_buffer_ge`), and only if a chunk is longer than the frame at the front of a buffer that
already has more than one whole frame (`Outpaces`).
-/

namespace PushService

namespace Client

open Protocol

/-- The size of the frame that the front of the buffer announces. -/
def announcedSize (buffer : Bytes) : ℕ := lengthPrefixSize + (readNet buffer).toNat

/-- The size of the largest frame. -/
def maxFrameSize : ℕ := lengthPrefixSize + maxMessageSize

/-- The buffer has more than the largest frame, and the chunk is longer than the frame at its
front. -/
def Outpaces (a : ProtocolAdapter) (chunk : Bytes) : Prop :=
  maxFrameSize < a.buffer.length ∧ announcedSize a.buffer < chunk.length

instance (a : ProtocolAdapter) (chunk : Bytes) : Decidable (Outpaces a chunk) :=
  inferInstanceAs (Decidable (_ ∧ _))

/-! ## One call -/

theorem length_feed_le (a : ProtocolAdapter) (chunk : Bytes) :
    (a.feed chunk).2.buffer.length ≤ a.buffer.length + chunk.length := by
  rw [ProtocolAdapter.feed, tryDecodeFrame, List.length_append]
  simp only [gt_iff_lt]
  split_ifs
  · simp
  · simp
  · simp
  · dsimp only
    split <;> simp

/-- A buffer with more than the largest frame gives up the frame at its front, or is cleared. -/
theorem length_feed_of_lt {a : ProtocolAdapter} (h : maxFrameSize < a.buffer.length)
    (chunk : Bytes) :
    (a.feed chunk).2.buffer = [] ∨
      (a.feed chunk).2.buffer.length + announcedSize a.buffer = a.buffer.length + chunk.length := by
  have hread : readNet (a.buffer ++ chunk) = readNet a.buffer :=
    readNet_append (by simp only [maxFrameSize, lengthPrefixSize] at h; omega) chunk
  rw [ProtocolAdapter.feed, tryDecodeFrame, hread, List.length_append]
  simp only [maxFrameSize, announcedSize] at h ⊢
  split_ifs with hshort hlarge hmore
  · omega
  · exact .inl rfl
  · omega
  · dsimp only
    split
    · right
      rw [List.length_drop, List.length_append]
      omega
    · exact .inl rfl

/-! ## Whole runs -/

/-- The bound of the buffer: the largest frame, and one chunk. -/
def maxBufferSize : ℕ := maxFrameSize + readBufferSize

/-- **The buffer is bounded** in every run in which no chunk outpaces the buffer. -/
theorem buffer_bounded (cs : List Bytes) (a : ProtocolAdapter) (h : List DecodedMessage)
    (hchunks : ∀ c ∈ cs, c.length ≤ readBufferSize)
    (hobeys : ProtocolAdapter.feeding.Obeys (fun a c ↦ ¬Outpaces a c) {} cs)
    (hrun : ProtocolAdapter.feeding.run {} cs = some (a, h)) :
    a.buffer.length ≤ maxBufferSize := by
  have hsizes : ProtocolAdapter.feeding.Obeys (fun _ c ↦ c.length ≤ readBufferSize) {} cs :=
    System.obeys_of_forall hchunks
  refine System.run_induction (I := fun a _ ↦ a.buffer.length ≤ maxBufferSize) (h := []) ?_
    (Nat.zero_le _) (hsizes.and hobeys) hrun
  rintro a h chunk a' es hbound ⟨hsize, hpace⟩ hstep
  obtain ⟨rfl, -⟩ := Prod.mk.inj (Option.some_inj.mp hstep)
  rw [maxBufferSize] at hbound ⊢
  by_cases hfull : maxFrameSize < a.buffer.length
  · have hle := not_lt.mp fun hlt ↦ hpace ⟨hfull, hlt⟩
    rcases length_feed_of_lt hfull chunk with hnil | hlength
    · simp [hnil]
    · omega
  · have hlength := length_feed_le a chunk
    omega

theorem buffer_bounded_twoChunks :
    ∃ a h, ProtocolAdapter.feeding.run {} [[0, 0, 0, 5, 0, 0], [0, 7, 2, 0]] = some (a, h) ∧
      a.buffer.length ≤ maxBufferSize :=
  ⟨_, _, rfl, buffer_bounded [[0, 0, 0, 5, 0, 0], [0, 7, 2, 0]] _ _ (by decide) (by decide) rfl⟩

/-! ## Without the condition -/

/-- The body of an acceptance. -/
def acceptance : Bytes := encodeMessage ⟨7, .accepted, []⟩

/-- A chunk of 113 acceptances. -/
def fullChunk : Bytes := (frameCode.frames (List.replicate 113 acceptance)).flatten

theorem length_frames_acceptance (n : ℕ) :
    (frameCode.frames (List.replicate n acceptance)).flatten.length = n * 9 := by
  induction n with
  | zero => rfl
  | succ n ih =>
    have hframe : (frameCode.encode acceptance).length = 9 := rfl
    rw [List.replicate_succ, FrameCode.frames_cons, List.flatten_cons, List.length_append, hframe,
      ih]
    omega

/-- Of every such chunk `Feed` leaves 112 acceptances behind. -/
theorem feeding_fullChunks (n : ℕ) :
    ∃ a h, ProtocolAdapter.feeding.run {} (List.replicate n fullChunk) = some (a, h) ∧
      a.buffer.length = n * 1008 := by
  obtain ⟨a, h, hrun⟩ := exists_feeding {} (List.replicate n fullChunk)
  have hfits : frameCode.Fits acceptance := by
    change acceptance.length ≤ maxMessageSize
    decide
  have hread : readBody acceptance = some ⟨7, .accepted, none⟩ := by decide
  have hbehind := FrameCode.run_replicate hfits hread 112 n
  have hview := reader_run_of_feeding hrun
  rw [← fullChunk] at hbehind
  obtain ⟨hbuffer, -⟩ := Prod.mk.inj (Option.some_inj.mp (hview.symm.trans hbehind))
  refine ⟨a, h, hrun, ?_⟩
  rw [hbuffer, length_frames_acceptance, Nat.mul_assoc]

theorem length_of_mem_fullChunks {n : ℕ} :
    ∀ c ∈ List.replicate n fullChunk, c.length ≤ readBufferSize := by
  intro c hc
  rw [List.eq_of_mem_replicate hc, fullChunk, length_frames_acceptance, readBufferSize]
  omega

/-- **A peer can make the buffer as large as it likes.** -/
theorem exists_buffer_ge (n : ℕ) :
    ∃ cs a h, (∀ c ∈ cs, c.length ≤ readBufferSize) ∧
      ProtocolAdapter.feeding.run {} cs = some (a, h) ∧ n ≤ a.buffer.length := by
  obtain ⟨a, h, hrun, hlength⟩ := feeding_fullChunks n
  exact ⟨_, a, h, length_of_mem_fullChunks, hrun, by omega⟩

/-- 10404 such chunks are enough. -/
theorem not_buffer_bounded :
    ¬∀ (cs : List Bytes) (a : ProtocolAdapter) (h : List DecodedMessage),
      (∀ c ∈ cs, c.length ≤ readBufferSize) → ProtocolAdapter.feeding.run {} cs = some (a, h) →
        a.buffer.length ≤ maxBufferSize := by
  intro hall
  obtain ⟨a, h, hrun, hlength⟩ := feeding_fullChunks 10404
  have hbound := hall _ a h length_of_mem_fullChunks hrun
  simp only [maxBufferSize, maxFrameSize, lengthPrefixSize, maxMessageSize,
    readBufferSize] at hbound
  omega

end Client

end PushService
