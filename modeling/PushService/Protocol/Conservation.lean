import PushService.Protocol.Adapter

/-!
# What the adapter returns

The laws of the reader, for the frames this protocol has.

* On frames that carry messages the adapter returns a beginning of those messages, and its buffer is
  what was fed beyond their frames (`stream_conservation`). It lags behind by the schedule `taken`.
* A frame whose body is not well formed costs nothing but itself as long as the bytes behind it that
  have already been fed are themselves such frames (`malformed_spoils_itself`).
-/

namespace PushService

namespace Protocol

/-! ## Frames that carry messages -/

/-- The frame carries the message: its body fits and decodes to it. -/
def Carries (frame : Bytes) (m : DecodedMessage) : Prop :=
  ∃ body, frameCode.Fits body ∧ frame = frameCode.encode body ∧ readBody body = some m

/-- What `SerializeToFrame` produces carries the id and the type, and the push if it is one. -/
theorem carries_of_serializeToFrame {push : Push} {id : UInt32} {type : MessageType}
    {frame : Bytes} (h : serializeToFrame push id type = .ok frame) :
    Carries frame ⟨id, type, if type = .push then some push else none⟩ := by
  obtain ⟨hfits, rfl⟩ := encodeFrame_eq_ok.mp h
  refine ⟨_, hfits, rfl, ?_⟩
  have hne : BinaryPushSerializer.serialize push ≠ [] := by simp [BinaryPushSerializer.serialize]
  have htext : push.text.length < 2 ^ 32 := by
    have hle : (encodeMessage ⟨id, type, BinaryPushSerializer.serialize push⟩).length
        ≤ maxMessageSize := hfits
    rw [length_encodeMessage, BinaryPushSerializer.length_serialize] at hle
    simp only [messageHeaderSize, maxMessageSize] at hle
    omega
  have hpush := BinaryPushSerializer.deserialize_serialize_append htext []
  rw [List.append_nil] at hpush
  rw [readBody, decodeBody, decodeMessage_encodeMessage fun _ ↦ hne]
  simp only [bind, Except.bind]
  by_cases htype : type = .push
  · rw [if_pos htype, if_pos htype, hpush]
    rfl
  · rw [if_neg htype, if_neg htype]
    rfl

/-- A message that is no push is carried with its id and type. -/
theorem carries_of_encodeFrame {m : Message} (htype : m.type ≠ .push) {frame : Bytes}
    (h : encodeFrame (encodeMessage m) = .ok frame) : Carries frame ⟨m.id, m.type, none⟩ := by
  obtain ⟨hfits, rfl⟩ := encodeFrame_eq_ok.mp h
  refine ⟨_, hfits, rfl, ?_⟩
  rw [readBody, decodeBody, decodeMessage_encodeMessage fun hpush ↦ absurd hpush htype]
  simp only [bind, Except.bind]
  rw [if_neg htype]
  rfl

/-- A frame that carries a message, read by a fresh adapter. -/
theorem feed_of_carries {frame : Bytes} {m : DecodedMessage} (h : Carries frame m) :
    ProtocolAdapter.feed {} frame = (some m, {}) := by
  obtain ⟨body, hfits, rfl, hread⟩ := h
  have hsplit : frameCode.split ([] ++ frameCode.encode body) = .frame body [] := by
    simpa using frameCode.split_encode body [] hfits
  rw [feed_eq, FrameCode.feed_of_frame hsplit hread]

/-- What `SerializeToFrame` encodes besides the text has 12 bytes. -/
theorem length_serialized (push : Push) (id : UInt32) (type : MessageType) :
    (encodeMessage ⟨id, type, BinaryPushSerializer.serialize push⟩).length
      = 12 + push.text.length := by
  rw [length_encodeMessage, BinaryPushSerializer.length_serialize, messageHeaderSize]
  omega

/-- **Sender and receiver agree.** `SerializeToFrame` throws exactly if the text is too long for
`MAX_MESSAGE_SIZE`; otherwise one `Feed` returns the id, the type and, for a push, the push. -/
theorem feed_serializeToFrame (push : Push) (id : UInt32) (type : MessageType) :
    match serializeToFrame push id type with
    | .error _ => maxMessageSize < 12 + push.text.length
    | .ok frame => 12 + push.text.length ≤ maxMessageSize ∧
        ProtocolAdapter.feed {} frame
          = (some ⟨id, type, if type = .push then some push else none⟩, {}) := by
  have hlength := length_serialized push id type
  cases hframe : serializeToFrame push id type with
  | error message =>
    by_contra hle
    have hok := encodeFrame_eq_ok.mpr ⟨hlength.trans_le (not_lt.mp hle), rfl⟩
    rw [serializeToFrame, hok] at hframe
    exact absurd hframe (by simp)
  | ok frame =>
    obtain ⟨hfits, -⟩ := encodeFrame_eq_ok.mp hframe
    exact ⟨hlength.symm.trans_le hfits, feed_of_carries (carries_of_serializeToFrame hframe)⟩

/-- A frame is not empty, so none has arrived before the first byte. -/
theorem arrived_zero_of_carries {fs : List Bytes} {ms : List DecodedMessage}
    (h : List.Forall₂ Carries fs ms) : arrived fs 0 = 0 := by
  cases h with
  | nil => rfl
  | cons hcarry _ =>
    obtain ⟨body, hfits, rfl, -⟩ := hcarry
    exact arrived_cons_of_lt (List.length_pos_of_ne_nil (FrameCode.encode_ne_nil hfits)) _

theorem exists_bodies {fs : List Bytes} {ms : List DecodedMessage}
    (h : List.Forall₂ Carries fs ms) :
    ∃ bodies, (∀ body ∈ bodies, frameCode.Fits body) ∧ fs = frameCode.frames bodies ∧
      bodies.map readBody = ms.map some := by
  induction h with
  | nil => exact ⟨[], by simp⟩
  | cons hcarry _ ih =>
    obtain ⟨body, hfits, rfl, hread⟩ := hcarry
    obtain ⟨bodies, hbodies, rfl, hmap⟩ := ih
    exact ⟨body :: bodies, by simpa [hfits] using hbodies, rfl, by simp [hread, hmap]⟩

theorem filterMap_eq_of_map_eq {bodies : List Bytes} {ms : List DecodedMessage}
    (h : bodies.map readBody = ms.map some) : bodies.filterMap readBody = ms := by
  calc bodies.filterMap readBody = (bodies.map readBody).filterMap id := by
        rw [List.filterMap_map, Function.id_comp]
    _ = ms := by rw [h]; simp

/-- The buffer begins with a whole frame. -/
def HoldsFrame (buffer : Bytes) : Prop :=
  ∃ payload frame rest, encodeFrame payload = .ok frame ∧ buffer = frame ++ rest

/-- **The adapter on frames that carry messages**: it has returned the first of them, as many as the
schedule says, and what was fed beyond their frames is in the buffer. There is no whole frame in the
buffer if the schedule has caught up. -/
theorem feeding_of_carries {fs : List Bytes} {ms : List DecodedMessage}
    (hcarry : List.Forall₂ Carries fs ms) {cs : List Bytes} (hpre : cs.flatten <+: fs.flatten)
    {a : ProtocolAdapter} {h : List DecodedMessage}
    (hrun : ProtocolAdapter.feeding.run {} cs = some (a, h)) :
    h = ms.take (FrameCode.taken fs 0 0 cs) ∧
      cs.flatten = (fs.take (FrameCode.taken fs 0 0 cs)).flatten ++ a.buffer ∧
      (arrived fs cs.flatten.length ≤ FrameCode.taken fs 0 0 cs → ¬HoldsFrame a.buffer) := by
  obtain ⟨bodies, hfits, rfl, hmap⟩ := exists_bodies hcarry
  have husable : ∀ body ∈ bodies, readBody body ≠ none := by
    intro body hbody hnone
    have hmem : none ∈ ms.map some := hmap ▸ hnone ▸ List.mem_map_of_mem hbody
    exact absurd hmem (by simp)
  have hview := reader_run_of_feeding hrun
  obtain ⟨done, hreads, -, hlength⟩ :=
    (FrameCode.reads_nil bodies).run hfits (by simpa using hpre)
      (System.obeys_of_all (fun _ _ p hp _ _ hnone ↦ absurd hnone (husable p hp)) _ _) hview
  have htaken := hlength husable
  rw [List.length_nil, List.length_nil] at htaken
  rw [List.nil_append, List.nil_append] at hreads
  have hdone := List.prefix_iff_eq_take.mp hreads.isPrefix
  rw [htaken] at hdone
  refine ⟨?_, ?_, fun hall ↦ ?_⟩
  · rw [hreads.returned_eq, hdone]
    exact filterMap_eq_of_map_eq (by rw [List.map_take, hmap, List.map_take])
  · rw [hreads.fed_eq, hdone, FrameCode.frames, FrameCode.frames, List.map_take]
  · rintro ⟨payload, frame, rest, hframe, hbuffer⟩
    obtain ⟨hpayload, rfl⟩ := encodeFrame_eq_ok.mp hframe
    exact hreads.ne_frame hfits hpre (htaken ▸ hall) hpayload rest hbuffer

/-! ## Catching up -/

theorem not_holdsFrame_of_none {a : ProtocolAdapter} {chunk : Bytes}
    (h : (a.feed chunk).1 = none) : ¬HoldsFrame (a.feed chunk).2.buffer := by
  rintro ⟨payload, frame, rest, hframe, hbuffer⟩
  obtain ⟨hfits, rfl⟩ := encodeFrame_eq_ok.mp hframe
  rw [feed_eq] at h hbuffer
  exact FrameCode.feed_snd_ne_of_none h hfits rest hbuffer

theorem exists_feeding (a : ProtocolAdapter) (cs : List Bytes) :
    ∃ a' h, ProtocolAdapter.feeding.run a cs = some (a', h) :=
  System.exists_run (fun _ _ ↦ ⟨_, rfl⟩) a cs

section CatchUp

variable {fs : List Bytes} {ms : List DecodedMessage} {cs : List Bytes} {a a' : ProtocolAdapter}
  {h h' : List DecodedMessage}

theorem flatten_append_replicate (cs : List Bytes) (n : ℕ) :
    (cs ++ List.replicate n []).flatten = cs.flatten := by
  simp

/-- After `n` further calls with empty chunks the adapter has caught up by `n` frames, as far as
frames have arrived. -/
theorem feeding_empties (hcarry : List.Forall₂ Carries fs ms) (hpre : cs.flatten <+: fs.flatten)
    (hrun : ProtocolAdapter.feeding.run {} cs = some (a, h)) {n : ℕ}
    (hrun' : ProtocolAdapter.feeding.run a (List.replicate n []) = some (a', h')) :
    h ++ h' = ms.take (min (FrameCode.taken fs 0 0 cs + n) (arrived fs cs.flatten.length)) := by
  have happend : ProtocolAdapter.feeding.run {} (cs ++ List.replicate n []) = some (a', h ++ h') :=
    System.run_append_eq_some.mpr ⟨a, h, h', hrun, hrun', rfl⟩
  have hle : FrameCode.taken fs 0 0 cs ≤ arrived fs (0 + cs.flatten.length) :=
    FrameCode.taken_le_arrived fs (Nat.zero_le _) cs
  rw [(feeding_of_carries hcarry (by rwa [flatten_append_replicate]) happend).1,
    FrameCode.taken_append, FrameCode.taken_replicate_nil fs hle, Nat.zero_add]

/-- A call with an empty chunk returns nothing exactly when the adapter has caught up. -/
theorem feed_nil_eq_none_iff (hcarry : List.Forall₂ Carries fs ms)
    (hpre : cs.flatten <+: fs.flatten) (hrun : ProtocolAdapter.feeding.run {} cs = some (a, h))
    {n : ℕ} (hrun' : ProtocolAdapter.feeding.run a (List.replicate n []) = some (a', h')) :
    (a'.feed []).1 = none ↔
      arrived fs cs.flatten.length ≤ FrameCode.taken fs 0 0 cs + n := by
  have hmore : ProtocolAdapter.feeding.run a (List.replicate (n + 1) [])
      = some ((a'.feed []).2, h' ++ (a'.feed []).1.toList) := by
    rw [List.replicate_succ']
    exact System.run_append_eq_some.mpr ⟨a', h', _, hrun', System.run_singleton rfl, rfl⟩
  have hnow := feeding_empties hcarry hpre hrun hrun'
  have hnext := feeding_empties hcarry hpre hrun hmore
  have hle : arrived fs cs.flatten.length ≤ ms.length :=
    hcarry.length_eq ▸ arrived_le_length fs _
  have hlength := congrArg List.length hnext
  rw [← List.append_assoc, hnow, List.length_append, List.length_take, List.length_take] at hlength
  cases hnone : (a'.feed []).1 with
  | none =>
    simp only [hnone, Option.toList_none, List.length_nil] at hlength
    simp only [true_iff]
    omega
  | some m =>
    simp only [hnone, Option.toList_some, List.length_singleton] at hlength
    simp only [reduceCtorEq, false_iff]
    omega

end CatchUp

/-! ## Valid traffic -/

/-- What a peer sends: a push, or a message that is none. -/
inductive Traffic
  | push (push : Push) (id : UInt32)
  | reply (message : Message) (type_ne : message.type ≠ .push)

/-- The frame, by `SerializeToFrame` or by `EncodeFrame(EncodeMessage(m))`. -/
def Traffic.toFrame : Traffic → Except String Bytes
  | push p id => serializeToFrame p id .push
  | reply m _ => encodeFrame (encodeMessage m)

/-- What the receiver is to get. -/
def Traffic.decoded : Traffic → DecodedMessage
  | push p id => ⟨id, .push, some p⟩
  | reply m _ => ⟨m.id, m.type, none⟩

theorem Traffic.carries {t : Traffic} {frame : Bytes} (h : t.toFrame = .ok frame) :
    Carries frame t.decoded := by
  cases t with
  | push p id => exact carries_of_serializeToFrame h
  | reply m htype => exact carries_of_encodeFrame htype h

theorem forall₂_carries {ts : List Traffic} {fs : List Bytes}
    (h : List.Forall₂ (fun t f ↦ t.toFrame = .ok f) ts fs) :
    List.Forall₂ Carries fs (ts.map Traffic.decoded) := by
  rw [List.forall₂_map_right_iff]
  exact h.flip.imp fun _ _ ↦ Traffic.carries

/-- **Stream conservation.** However the frames of valid traffic are cut into chunks, the bytes fed
so far are the frames of the messages returned so far, which are the first ones sent, followed by
the buffer. When `Feed` returns nothing the buffer holds no whole frame, and calls with empty chunks
until it does so return every message whose frame has arrived. -/
theorem stream_conservation (ts : List Traffic) (fs cs : List Bytes)
    (hframes : List.Forall₂ (fun t f ↦ t.toFrame = .ok f) ts fs) (hpre : cs.flatten <+: fs.flatten)
    (a : ProtocolAdapter) (h : List DecodedMessage)
    (hrun : ProtocolAdapter.feeding.run {} cs = some (a, h)) :
    (∃ k ≤ ts.length, h = (ts.take k).map Traffic.decoded ∧
        cs.flatten = (fs.take k).flatten ++ a.buffer) ∧
      (∀ chunk, (a.feed chunk).1 = none → ¬HoldsFrame (a.feed chunk).2.buffer) ∧
      (∀ n a' h', ProtocolAdapter.feeding.run a (List.replicate n []) = some (a', h') →
        (a'.feed []).1 = none →
          h ++ h' = (ts.take (arrived fs cs.flatten.length)).map Traffic.decoded) ∧
      ∃ n a' h', ProtocolAdapter.feeding.run a (List.replicate n []) = some (a', h') ∧
        (a'.feed []).1 = none := by
  have hcarry := forall₂_carries hframes
  have hlength : fs.length = ts.length := hframes.length_eq.symm
  refine ⟨?_, fun chunk ↦ not_holdsFrame_of_none, fun n a' h' hrun' hnone ↦ ?_, ?_⟩
  · obtain ⟨hreturned, hfed, -⟩ := feeding_of_carries hcarry hpre hrun
    refine ⟨FrameCode.taken fs 0 0 cs, ?_, by rw [hreturned, List.map_take], hfed⟩
    calc FrameCode.taken fs 0 0 cs ≤ arrived fs (0 + cs.flatten.length) :=
          FrameCode.taken_le_arrived fs (Nat.zero_le _) cs
      _ ≤ fs.length := arrived_le_length fs _
      _ = ts.length := hlength
  · have hcaught := (feed_nil_eq_none_iff hcarry hpre hrun hrun').mp hnone
    rw [feeding_empties hcarry hpre hrun hrun', Nat.min_eq_right hcaught, List.map_take]
  · obtain ⟨a', h', hrun'⟩ := exists_feeding a (List.replicate (arrived fs cs.flatten.length) [])
    exact ⟨_, a', h', hrun', (feed_nil_eq_none_iff hcarry hpre hrun hrun').mpr
      (Nat.le_add_left _ _)⟩

/-- A push with the text "hi" and its acceptance, cut inside the length of the second frame. -/
def sampleTraffic : List Traffic :=
  [.push ⟨.normal, .notification, .source1, [104, 105]⟩ 7, .reply ⟨7, .accepted, []⟩ (by decide)]

def sampleFrames : List Bytes :=
  [[0, 0, 0, 14, 0, 0, 0, 7, 1, 0, 0, 0, 0, 0, 0, 2, 104, 105], [0, 0, 0, 5, 0, 0, 0, 7, 2]]

def sampleChunks : List Bytes :=
  [[0, 0, 0, 14, 0, 0, 0, 7, 1, 0, 0, 0, 0, 0, 0, 2, 104, 105, 0, 0], [0, 5, 0, 0, 0, 7, 2]]

theorem stream_conservation_sample :
    ∃ a h, ProtocolAdapter.feeding.run {} sampleChunks = some (a, h) ∧
      ∃ k ≤ 2, h = (sampleTraffic.take k).map Traffic.decoded ∧
        sampleChunks.flatten = (sampleFrames.take k).flatten ++ a.buffer :=
  ⟨_, _, rfl, (stream_conservation sampleTraffic sampleFrames sampleChunks
    (.cons rfl (.cons rfl .nil)) (by decide) _ _ rfl).1⟩

/-! ## Malformed bodies -/

/-- A correct length and a body that is not well formed. -/
def MalformedFrame (frame : Bytes) : Prop :=
  ∃ body, encodeFrame body = .ok frame ∧ readBody body = none

/-- What the buffer holds behind the malformed frame that this call takes, if it takes one. -/
def ProtocolAdapter.behindMalformed (a : ProtocolAdapter) (chunk : Bytes) : Option Bytes :=
  match tryDecodeFrame (a.buffer ++ chunk) [] with
  | (.ok true, rest, body) => if (readBody body).isNone then some rest else none
  | _ => none

/-- If this call takes a malformed frame, the bytes behind it are whole malformed frames. -/
def ProtocolAdapter.SpoilsNothing (a : ProtocolAdapter) (chunk : Bytes) : Prop :=
  ∀ rest ∈ a.behindMalformed chunk,
    ∃ fs : List Bytes, (∀ f ∈ fs, MalformedFrame f) ∧ rest = fs.flatten

theorem exists_unusable {fs : List Bytes} (h : ∀ f ∈ fs, MalformedFrame f) :
    ∃ bodies, (∀ body ∈ bodies, frameCode.Unusable readBody body) ∧
      fs = frameCode.frames bodies := by
  induction fs with
  | nil => exact ⟨[], by simp⟩
  | cons f fs ih =>
    obtain ⟨body, hframe, hnone⟩ := h f List.mem_cons_self
    obtain ⟨hfits, rfl⟩ := encodeFrame_eq_ok.mp hframe
    obtain ⟨bodies, hbodies, rfl⟩ := ih fun g hg ↦ h g (List.mem_cons_of_mem _ hg)
    refine ⟨body :: bodies, fun b hb ↦ ?_, rfl⟩
    rcases List.mem_cons.mp hb with rfl | hb
    · exact ⟨hfits, hnone⟩
    · exact hbodies b hb

theorem ProtocolAdapter.SpoilsNothing.tidy {a : ProtocolAdapter} {chunk : Bytes}
    (h : a.SpoilsNothing chunk) (ps : List Bytes) :
    frameCode.Tidy readBody ps a.buffer chunk := by
  intro body _ rest hframe hnone
  have hbehind : a.behindMalformed chunk = some rest := by
    simp [behindMalformed, tryDecodeFrame_eq, hframe, hnone]
  obtain ⟨fs, hfs, rfl⟩ := h rest hbehind
  obtain ⟨bodies, hbodies, rfl⟩ := exists_unusable hfs
  exact ⟨bodies, hbodies, rfl⟩

theorem frames_of_forall₂ {bodies fs : List Bytes}
    (h : List.Forall₂ (fun body f ↦ encodeFrame body = .ok f) bodies fs) :
    (∀ body ∈ bodies, frameCode.Fits body) ∧ fs = frameCode.frames bodies := by
  induction h with
  | nil => exact ⟨by simp, rfl⟩
  | cons hframe _ ih =>
    obtain ⟨hfits, rfl⟩ := encodeFrame_eq_ok.mp hframe
    obtain ⟨hall, rfl⟩ := ih
    exact ⟨by simpa [hfits] using hall, rfl⟩

/-- **A malformed message spoils only itself** in every run in which each call that takes one leaves
only whole malformed frames behind it: once enough empty chunks have been fed, the messages returned
are the decodings of the well-formed bodies. -/
theorem malformed_spoils_itself (bodies fs cs : List Bytes) (n : ℕ)
    (hframes : List.Forall₂ (fun body f ↦ encodeFrame body = .ok f) bodies fs)
    (hcs : cs.flatten = fs.flatten) (hn : bodies.length ≤ n)
    (hspoils : ProtocolAdapter.feeding.Obeys ProtocolAdapter.SpoilsNothing {}
      (cs ++ List.replicate n []))
    (a : ProtocolAdapter) (h : List DecodedMessage)
    (hrun : ProtocolAdapter.feeding.run {} (cs ++ List.replicate n []) = some (a, h)) :
    h = bodies.filterMap readBody := by
  obtain ⟨hfits, rfl⟩ := frames_of_forall₂ hframes
  have hflat : (cs ++ List.replicate n []).flatten = (frameCode.frames bodies).flatten := by
    rw [flatten_append_replicate, hcs]
  have htidy : (frameCode.reader readBody).Obeys (frameCode.Tidy readBody bodies)
      ({} : ProtocolAdapter).buffer (cs ++ List.replicate n []) :=
    isView_feeding.obeys.mpr (hspoils.mono fun _ _ hspoil ↦ hspoil.tidy bodies)
  obtain ⟨done, ⟨hpre, -, hreturned⟩, hle, -⟩ :=
    (FrameCode.reads_nil bodies).run hfits (by rw [List.nil_append, hflat]) htidy
      (reader_run_of_feeding hrun)
  have hzero : FrameCode.taken (frameCode.frames bodies) 0 0 cs
      ≤ arrived (frameCode.frames bodies) (0 + cs.flatten.length) :=
    FrameCode.taken_le_arrived _ (Nat.zero_le _) cs
  -- with everything arrived, the schedule reaches the last frame
  have hall : bodies.length ≤ done.length := by
    rw [List.length_nil, List.length_nil, FrameCode.taken_append,
      FrameCode.taken_replicate_nil _ hzero, Nat.zero_add, hcs, arrived_flatten,
      FrameCode.length_frames] at hle
    omega
  rw [← hpre.eq_of_length_le hall]
  exact hreturned

/-- An unknown message type, in a chunk of its own, before an acceptance. -/
theorem malformed_spoils_itself_sample :
    ∃ a h, ProtocolAdapter.feeding.run {}
        ([[0, 0, 0, 5, 0, 0, 0, 7, 9], [0, 0, 0, 5, 0, 0, 0, 8, 2]] ++ List.replicate 2 [])
          = some (a, h) ∧
      h = [[0, 0, 0, 7, 9], [0, 0, 0, 8, 2]].filterMap readBody := by
  refine ⟨_, _, rfl, malformed_spoils_itself [[0, 0, 0, 7, 9], [0, 0, 0, 8, 2]]
    [[0, 0, 0, 5, 0, 0, 0, 7, 9], [0, 0, 0, 5, 0, 0, 0, 8, 2]] _ 2 (.cons rfl (.cons rfl .nil)) rfl
    le_rfl (System.Obeys.mono (C := fun a chunk ↦ ∀ rest ∈ a.behindMalformed chunk, rest = [])
      (fun a chunk hnil rest hrest ↦ ⟨[], by simp, hnil rest hrest⟩) ?_) _ _ rfl⟩
  decide

/-- In one chunk with the acceptance, the unknown message type takes it along. -/
theorem not_malformed_spoils_itself :
    ¬∀ (bodies fs cs : List Bytes) (n : ℕ),
      List.Forall₂ (fun body f ↦ encodeFrame body = .ok f) bodies fs →
      cs.flatten = fs.flatten → bodies.length ≤ n →
      ∀ (a : ProtocolAdapter) (h : List DecodedMessage),
        ProtocolAdapter.feeding.run {} (cs ++ List.replicate n []) = some (a, h) →
          h = bodies.filterMap readBody := by
  intro hall
  have hreturned := hall [[0, 0, 0, 7, 9], [0, 0, 0, 8, 2]]
    [[0, 0, 0, 5, 0, 0, 0, 7, 9], [0, 0, 0, 5, 0, 0, 0, 8, 2]]
    [[0, 0, 0, 5, 0, 0, 0, 7, 9, 0, 0, 0, 5, 0, 0, 0, 8, 2]] 2 (.cons rfl (.cons rfl .nil)) rfl
    le_rfl _ _ rfl
  exact absurd hreturned (by decide)

end Protocol

end PushService
