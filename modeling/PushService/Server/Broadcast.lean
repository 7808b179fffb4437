import PushService.Server.Registry
import PushService.Stream.Writes

/-!
# What a session puts on the wire

`asyncSend` starts an `async_write` without regard to those that are outstanding. Seen from one
session, the writes in flight and the rests of messages whose handlers have not run form a
`WriteChannel`, and every call and every handler is a step of it or leaves it alone. So the order of
the messages is kept as long as the socket accepts a part of a message only while no other is
outstanding, and no message is sent before the handler of that part has run (`wire_in_order`).
-/

namespace PushService

namespace Server

/-! ## The channel of a session -/

/-- What is left of a message of the session, if its handler is going to start another write. -/
def Completion.rest (session : ℕ) : Completion → Option Bytes
  | write session' data length none =>
    if session' = session ∧ length < data.length then some (data.drop length) else none
  | _ => none

/-- The completion of a write of the session that has failed. -/
def Completion.failsOn (session : ℕ) : Completion → Bool
  | write session' _ _ (some _) => session' = session
  | _ => false

/-- The bytes to write, if the operation is a write of the session. -/
def Op.message (session : ℕ) : Op → Option Bytes
  | write session' data => if session' = session then some data else none
  | _ => none

theorem Op.rest_aborted (session : ℕ) (op : Op) : op.aborted.rest session = none := by
  cases op <;> rfl

/-- To abort a write is to let it fail. -/
theorem Op.message_eq_none {session : ℕ} {op : Op} (h : op.aborted.failsOn session = false) :
    op.message session = none := by
  cases op with
  | write session' data =>
    have hne : session' ≠ session := by simpa [aborted, Completion.failsOn] using h
    simp [message, hne]
  | _ => rfl

theorem Op.exists_of_message {session : ℕ} {op : Op} (h : op.message session ≠ none) :
    ∃ data, op = .write session data := by
  cases op with
  | write session' data =>
    rw [message] at h
    split_ifs at h with hsession
    · exact ⟨data, by rw [hsession]⟩
    · exact absurd rfl h
  | _ => exact absurd rfl h

namespace TcpServer

/-- The message of an `asyncSend` of the session. -/
def Event.message (session : ℕ) : Event → Option Bytes
  | .asyncSend session' data => if session' = session then some data else none
  | _ => none

/-- The messages sent on the session, in call order. -/
def messages (session : ℕ) (h : List Event) : List Bytes := h.filterMap (Event.message session)

/-- The bytes on the wire of the session. -/
def wire (session : ℕ) (s : TcpServer) : Bytes :=
  match s.sessions[session]? with
  | some c => c.wire
  | none => []

/-- The session as a channel. -/
def channel (session : ℕ) (s : TcpServer) : WriteChannel UInt8 where
  wire := s.wire session
  waiting := s.operations.ready.filterMap (Completion.rest session)
  queue := s.operations.pending.filterMap (Op.message session)

/-- No failed write of the session is waiting for its handler. -/
def Unfailed (session : ℕ) (s : TcpServer) : Prop :=
  ∀ c ∈ s.operations.ready, c.failsOn session = false

/-- The channel of the session is `w`, if no write has failed. -/
def Keeps (session : ℕ) (w : WriteChannel UInt8) (s : TcpServer) : Prop :=
  s.Unfailed session → s.channel session = w

variable {session : ℕ} {w : WriteChannel UInt8} {cb : Callbacks} {s : TcpServer}

/-! ## Changes that leave the channel alone -/

theorem Keeps.start (h : s.Keeps session w) {op : Op} (hop : op.message session = none) :
    Keeps session w { s with operations := s.operations.start op } := by
  intro hunfailed
  rw [← h hunfailed]
  simp [channel, wire, Operations.start, hop]

theorem Keeps.post (h : s.Keeps session w) {c : Completion} (hc : c.rest session = none) :
    Keeps session w { s with operations := s.operations.post c } := by
  intro hunfailed
  rw [← h fun d hd ↦ hunfailed d (List.mem_append_left _ hd)]
  simp [channel, wire, Operations.post, hc]

theorem Keeps.abort (h : s.Keeps session w) (selected : Op → Bool) :
    Keeps session w { s with operations := s.operations.abort selected Op.aborted } := by
  intro hunfailed
  rw [← h fun d hd ↦ hunfailed d (List.mem_append_left _ hd)]
  -- a selected write of the session would have failed
  have hqueue : (s.operations.pending.filter fun op ↦ !selected op).filterMap (Op.message session)
      = s.operations.pending.filterMap (Op.message session) := by
    rw [List.filterMap_filter]
    refine List.filterMap_congr fun op hop ↦ ?_
    by_cases hselected : selected op = true
    · have habort : op.aborted ∈ (s.operations.abort selected Op.aborted).ready :=
        List.mem_append_right _ (List.mem_map_of_mem (List.mem_filter.mpr ⟨hop, hselected⟩))
      simp [Op.message_eq_none (hunfailed _ habort)]
    · simp [hselected]
  simp [channel, wire, Operations.abort, hqueue, Op.rest_aborted]

theorem Keeps.sessions (h : s.Keeps session w) {s' : TcpServer}
    (hwire : s'.wire session = s.wire session)
    (hoperations : s'.operations = s.operations) : s'.Keeps session w := by
  intro hunfailed
  have hsame := h (by rwa [Unfailed, hoperations] at hunfailed)
  rw [← hsame, channel, channel, hwire, hoperations]

theorem wire_shut {session' : ℕ} {c : ClientSession} (hc : s.sessions[session']? = some c) :
    (s.shut session' c).wire session = s.wire session := by
  rw [wire, wire, shut]
  dsimp only
  by_cases h : session' = session
  · subst h
    obtain ⟨hlt, -⟩ := List.getElem?_eq_some_iff.mp hc
    rw [List.getElem?_set_self hlt, hc]
  · rw [List.getElem?_set_ne h]

theorem wire_enroll : s.enroll.wire session = s.wire session := by
  rw [wire, wire, enroll]
  dsimp only
  rw [List.getElem?_append]
  split_ifs with hlt
  · rfl
  · rw [List.getElem?_eq_none (Nat.le_of_not_lt hlt)]
    cases session - s.sessions.length <;> rfl

theorem Keeps.writeSome (h : s.Keeps session w) {session' : ℕ} (hne : session' ≠ session)
    (data : Bytes) : (s.writeSome session' data).Keeps session w := by
  exact writeSome_cases (fun _ ↦ h.start (by simp [Op.message, hne])) (h.post rfl)

theorem kept_keeps (session : ℕ) (w : WriteChannel UInt8) : Kept (Keeps session w) where
  shut _ session' _ h hc _ :=
    (h.abort (Op.onSession session')).sessions (wire_shut hc) rfl
  doRead _ _ h := doRead_cases (h.start rfl) (h.post rfl)
  doAccept _ h := doAccept_cases (h.start rfl) (h.post rfl)

theorem message_of_incidental {e : Event} (h : e.Incidental) : e.message session = none := by
  cases e <;> first | rfl | exact absurd h (by simp [Event.Incidental])

theorem messages_eq_nil {h : List Event} (hh : ∀ e ∈ h, e.message session = none) :
    messages session h = [] :=
  List.filterMap_eq_nil_iff.mpr hh

theorem messages_append (session : ℕ) (h es : List Event) :
    messages session (h ++ es) = messages session h ++ messages session es :=
  List.filterMap_append ..

/-- A handler that does not go on with a message of the session leaves the channel alone. -/
theorem handle_keeps {completion : Completion} (hrest : completion.rest session = none)
    (answers : Answers) (h : s.Keeps session w) :
    (handle cb completion answers s).Satisfies (Keeps session w)
      (fun e ↦ e.message session = none) := by
  refine handle_satisfies (kept_keeps session w) (fun _ ↦ message_of_incidental) completion
    answers h
    ?_ ?_ ?_
  · intro _
    exact welcome_satisfies (kept_keeps session w) answers h (h.sessions wire_enroll rfl) rfl
  · intro _
    exact (h.abort Op.onAcceptor).sessions rfl rfl
  · rintro session' data length rfl hlength
    refine h.writeSome ?_ _
    rintro rfl
    exact absurd hrest (by simp [Completion.rest, hlength])

/-! ## Sending -/

theorem channel_writeSome {data : Bytes} (h : (s.writeSome session data).Unfailed session) :
    (s.writeSome session data).channel session = (s.channel session).send data := by
  by_cases hopen : s.isOpen session = true
  · rw [writeSome, if_pos hopen]
    simp [channel, wire, Operations.start, Op.message, WriteChannel.send]
  · rw [writeSome, if_neg hopen] at h
    have hfails := h _ (Operations.mem_ready_post _ _)
    exact absurd hfails (by simp [Completion.failsOn])

/-- One `asyncSend`, on this session or on another one. -/
theorem asyncSend_orderly {sent : Bytes} (horder : WriteChannel.Orderly sent (s.channel session))
    (session' : ℕ) (data : Bytes)
    (hwaiting : session' = session → data ≠ [] → (s.channel session).waiting = [])
    (hunfailed : (asyncSend session' data s).state.Unfailed session) :
    WriteChannel.Orderly (sent ++ (messages session (asyncSend session' data s).outputs).flatten)
        ((asyncSend session' data s).state.channel session) ∧
      ((asyncSend session' data s).state.channel session).waiting
        = (s.channel session).waiting := by
  have hkeeps : s.Keeps session (s.channel session) := fun _ ↦ rfl
  dsimp only [asyncSend, Outcome.emit] at hunfailed ⊢
  by_cases hdata : data = []
  · subst hdata
    have hsame := (hkeeps.post (c := .write session' [] 0 none) (by simp [Completion.rest]))
      hunfailed
    rw [if_pos rfl, hsame]
    refine ⟨?_, rfl⟩
    by_cases hsession : session' = session <;>
      simpa [messages, Event.message, hsession] using horder
  · rw [if_neg hdata] at hunfailed ⊢
    by_cases hsession : session' = session
    · subst hsession
      rw [channel_writeSome hunfailed]
      refine ⟨?_, rfl⟩
      simpa [messages, Event.message] using horder.send (hwaiting rfl hdata) data
    · rw [hkeeps.writeSome hsession data hunfailed]
      refine ⟨?_, rfl⟩
      simpa [messages, Event.message, hsession] using horder

theorem sendToEach_cons (data : Bytes) (session' : ℕ) (order : List ℕ) :
    sendToEach data (session' :: order) s
      = ⟨(sendToEach data order (asyncSend session' data s).state).state,
        (asyncSend session' data s).outputs
          ++ (sendToEach data order (asyncSend session' data s).state).outputs,
        (sendToEach data order (asyncSend session' data s).state).thrown⟩ :=
  Outcome.andThen_of_not_thrown rfl _

/-- What is queued stays queued while messages are sent. -/
theorem mem_ready_asyncSend {c : Completion} (h : c ∈ s.operations.ready) (session' : ℕ)
    (data : Bytes) : c ∈ (asyncSend session' data s).state.operations.ready := by
  dsimp only [asyncSend, Outcome.emit]
  rw [writeSome]
  split_ifs
  · exact List.mem_append_left _ h
  · exact h
  · exact List.mem_append_left _ h

/-- A `broadcast`, session after session. -/
theorem sendToEach_orderly {sent : Bytes} (horder : WriteChannel.Orderly sent (s.channel session))
    {data : Bytes} {order : List ℕ}
    (hwaiting : session ∈ order → data ≠ [] → (s.channel session).waiting = [])
    (hunfailed : (sendToEach data order s).state.Unfailed session) :
    WriteChannel.Orderly (sent ++ (messages session (sendToEach data order s).outputs).flatten)
      ((sendToEach data order s).state.channel session) := by
  induction order generalizing s sent with
  | nil => simpa [sendToEach, Outcome.done, messages] using horder
  | cons session' order ih =>
    rw [sendToEach_cons] at hunfailed ⊢
    have hgrows : ∀ {s : TcpServer} {c : Completion}, c ∈ s.operations.ready →
        c ∈ (sendToEach data order s).state.operations.ready := fun {s c} hc ↦
      (sendToEach_satisfies (P := fun s ↦ c ∈ s.operations.ready) (Q := fun _ ↦ True)
        (fun s session' h ↦ ⟨mem_ready_asyncSend h session' data, fun _ _ ↦ trivial⟩) order hc).1
    obtain ⟨hfirst, hsame⟩ := asyncSend_orderly horder session' data
      (fun hsession hdata ↦ hwaiting (by simp [hsession]) hdata) fun c hc ↦ hunfailed c (hgrows hc)
    have hrest := ih hfirst
      (fun hmem hdata ↦ by rw [hsame]; exact hwaiting (List.mem_cons_of_mem _ hmem) hdata) hunfailed
    rw [messages_append, List.flatten_append, ← List.append_assoc]
    exact hrest

/-! ## Writes of sessions that exist -/

/-- A write of the session is pending only if there is such a session. -/
def Known (session : ℕ) (s : TcpServer) : Prop :=
  ∀ op ∈ s.operations.pending, op.message session ≠ none → session < s.sessions.length

theorem Known.start (h : s.Known session) {op : Op}
    (hop : op.message session ≠ none → session < s.sessions.length) :
    Known session { s with operations := s.operations.start op } := by
  intro op' hop' hmessage
  rcases List.mem_append.mp hop' with hop' | hop'
  · exact h op' hop' hmessage
  · rw [List.mem_singleton.mp hop'] at hmessage
    exact hop hmessage

/-- Operations may go, and sessions may come. -/
theorem Known.mono (h : s.Known session) {s' : TcpServer}
    (hpending : s'.operations.pending ⊆ s.operations.pending)
    (hsessions : s.sessions.length ≤ s'.sessions.length) : s'.Known session :=
  fun op hop hmessage ↦ (h op (hpending hop) hmessage).trans_le hsessions

theorem Known.writeSome (h : s.Known session) (session' : ℕ) (data : Bytes) :
    (s.writeSome session' data).Known session := by
  refine writeSome_cases (fun hopen ↦ ?_) (h.mono (List.Subset.refl _) le_rfl)
  refine h.start fun hmessage ↦ ?_
  have hsession : session' = session := by
    by_contra hne
    exact hmessage (by simp [Op.message, hne])
  exact hsession ▸ lt_of_isOpen hopen

theorem kept_known (session : ℕ) : Kept (Known session) where
  shut s session' c h _ _ := h.mono List.filter_sublist.subset (by simp [shut])
  doRead _ _ h :=
    doRead_cases (h.start fun hmessage ↦ absurd rfl hmessage) (h.mono (List.Subset.refl _) le_rfl)
  doAccept _ h :=
    doAccept_cases (h.start fun hmessage ↦ absurd rfl hmessage) (h.mono (List.Subset.refl _) le_rfl)

theorem length_transmit (completion : Completion) (sessions : List ClientSession) :
    (transmit completion sessions).length = sessions.length := by
  rcases completion with _ | _ | _ | ⟨session, data, length, _ | _⟩ <;> simp [transmit]

theorem Known.step {a : Action} {s' : TcpServer} {es : List Event} (h : s.Known session)
    (hstep : step cb s a = some (s', es)) : s'.Known session := by
  refine (step_keeps (Q := fun _ ↦ True) (kept_known session) (fun _ _ ↦ trivial) ?_ ?_ ?_ ?_ h
    hstep).1
  · intro s session' data h
    refine Outcome.satisfies_emit ?_ trivial
    split_ifs
    · exact h.mono (List.Subset.refl _) le_rfl
    · exact h.writeSome session' data
  · intro s h
    exact h.mono (List.Subset.refl _) le_rfl
  · intro s i op completion h _ _
    exact h.mono (List.eraseIdx_subset) (length_transmit ..).ge
  · intro s i completion answers h _ _
    have ht : Known session { s with operations := s.operations.take i } :=
      h.mono (List.Subset.refl _) le_rfl
    refine handle_satisfies (kept_known session) (fun _ _ ↦ trivial) completion answers ht ?_ ?_ ?_
    · intro _
      exact welcome_satisfies (kept_known session) answers ht
        (ht.mono (List.Subset.refl _) (by simp [enroll])) trivial
    · intro _
      exact ht.mono List.filter_sublist.subset le_rfl
    · intro session' data length _ _
      exact ht.writeSome session' _

/-! ## Completions -/

/-- Only a completed write changes a wire, that of its session. -/
theorem wire_transmit {completion : Completion} {operations : Operations Op Completion}
    (h : ∀ session' data length, completion = .write session' data length none →
      session' ≠ session) :
    wire session { s with sessions := transmit completion s.sessions, operations := operations }
      = s.wire session := by
  rcases completion with _ | _ | _ | ⟨session', data, length, _ | _⟩ <;> try rfl
  rw [wire, wire]
  dsimp only [transmit]
  rw [List.getElem?_modify_ne _ _ (h session' data length rfl)]

/-- A completion that is not one of a write of the session leaves the channel alone. -/
theorem channel_complete_of_message {i : ℕ} {op : Op} {completion : Completion}
    (hop : s.operations.pending[i]? = some op) (hcompletes : op.Completes completion)
    (hmessage : op.message session = none) :
    channel session { s with
      sessions := transmit completion s.sessions
      operations := s.operations.complete i completion } = s.channel session := by
  obtain ⟨l₁, l₂, hsplit, -, herase⟩ := Operations.exists_split hop
  have hqueue : (s.operations.complete i completion).pending.filterMap (Op.message session)
      = s.operations.pending.filterMap (Op.message session) := by
    rw [Operations.complete, herase, hsplit]
    simp [hmessage]
  have hne : ∀ session' data length, completion = .write session' data length none →
      session' ≠ session := by
    rintro session' data length rfl rfl
    cases op with
    | write session' data' =>
      obtain ⟨rfl, -⟩ := hcompletes
      exact absurd hmessage (by simp [Op.message])
    | _ => exact hcompletes
  have hrest : completion.rest session = none := by
    rcases completion with _ | _ | _ | ⟨session', data, length, _ | _⟩ <;> try rfl
    simp [Completion.rest, hne session' data length rfl]
  rw [channel, hqueue, wire_transmit hne]
  simp [channel, Operations.complete, hrest]

/-- The socket accepts the first `length` bytes of the first write of the session. -/
theorem channel_complete_write {i : ℕ} {data : Bytes} (length : ℕ) (hknown : s.Known session)
    (hop : s.operations.pending[i]? = some (.write session data))
    (hfirst : ∀ op ∈ s.operations.pending.take i, op.delays (.write session data) = false) :
    (∃ queue, (s.channel session).queue = data :: queue) ∧
      channel session { s with
        sessions := transmit (.write session data length none) s.sessions
        operations := s.operations.complete i (.write session data length none) }
      = (s.channel session).accept length := by
  obtain ⟨l₁, l₂, hsplit, htake, herase⟩ := Operations.exists_split hop
  -- no write of the session stands before this one
  have hbefore : l₁.filterMap (Op.message session) = [] := by
    refine List.filterMap_eq_nil_iff.mpr fun op hmem ↦ ?_
    have hdelays := hfirst op (htake ▸ hmem)
    cases op with
    | write session' data' =>
      have hne : session' ≠ session := by simpa [Op.delays] using hdelays
      simp [Op.message, hne]
    | _ => rfl
  have hqueue : (s.channel session).queue = data :: l₂.filterMap (Op.message session) := by
    rw [channel, hsplit, List.filterMap_append, hbefore]
    simp [Op.message]
  refine ⟨⟨_, hqueue⟩, ?_⟩
  have hlt : session < s.sessions.length :=
    hknown (.write session data) (List.mem_of_getElem? hop) (by simp [Op.message])
  have hwire : wire session { s with
      sessions := transmit (.write session data length none) s.sessions
      operations := s.operations.complete i (.write session data length none) }
      = s.wire session ++ data.take length := by
    rw [wire, wire]
    dsimp only [transmit]
    rw [List.getElem?_modify_eq, List.getElem?_eq_getElem hlt]
    rfl
  have hqueue' : (s.operations.complete i (.write session data length none)).pending.filterMap
      (Op.message session) = l₂.filterMap (Op.message session) := by
    rw [Operations.complete, herase, List.filterMap_append, hbefore, List.nil_append]
  by_cases hlength : length < data.length
  · rw [WriteChannel.accept_of_lt hqueue hlength, channel, hwire, hqueue']
    simp [channel, Operations.complete, Completion.rest, hlength]
  · have hle := Nat.le_of_not_lt hlength
    rw [WriteChannel.accept_of_le hqueue hle, channel, hwire, hqueue', List.take_of_length_le hle]
    simp [channel, Operations.complete, Completion.rest, hlength]

/-! ## Handlers -/

theorem channel_take_of_rest {i : ℕ} {completion : Completion}
    (hready : s.operations.ready[i]? = some completion) (hrest : completion.rest session = none) :
    channel session { s with operations := s.operations.take i } = s.channel session := by
  obtain ⟨l₁, l₂, hsplit, -, herase⟩ := Operations.exists_split hready
  have hwaiting : (s.operations.take i).ready.filterMap (Completion.rest session)
      = s.operations.ready.filterMap (Completion.rest session) := by
    rw [Operations.take, herase, hsplit]
    simp [hrest]
  rw [channel, hwaiting]
  rfl

/-- The handler of a part of a message takes the rest of it out. -/
theorem channel_take_of_write {i : ℕ} {data : Bytes} {length : ℕ}
    (hready : s.operations.ready[i]? = some (.write session data length none))
    (hlength : length < data.length) :
    ∃ w₁ w₂, (s.channel session).waiting = w₁ ++ data.drop length :: w₂ ∧
      channel session { s with operations := s.operations.take i }
        = { s.channel session with waiting := w₁ ++ w₂ } := by
  obtain ⟨l₁, l₂, hsplit, -, herase⟩ := Operations.exists_split hready
  refine ⟨l₁.filterMap (Completion.rest session), l₂.filterMap (Completion.rest session), ?_, ?_⟩
  · rw [channel, hsplit]
    simp [Completion.rest, hlength]
  · rw [channel, Operations.take, herase, List.filterMap_append]
    rfl

theorem exists_of_rest {completion : Completion} (h : completion.rest session ≠ none) :
    ∃ data length, completion = .write session data length none ∧ length < data.length := by
  rcases completion with _ | _ | _ | ⟨session', data, length, _ | ec⟩
  · exact absurd rfl h
  · exact absurd rfl h
  · exact absurd rfl h
  · rw [Completion.rest] at h
    split_ifs at h with hlength
    · obtain ⟨rfl, hlength⟩ := hlength
      exact ⟨data, length, rfl, hlength⟩
    · exact absurd rfl h
  · exact absurd rfl h

/-! ## Steps -/

/-- The step lets no write of the session fail. -/
def WritesSucceed (cb : Callbacks) (session : ℕ) (s : TcpServer) (a : Action) : Prop :=
  ∀ r ∈ step cb s a, r.1.Unfailed session

/-- A message is sent on the session only if none waits to be gone on with, and the socket accepts a
part of a message only if no other is outstanding. -/
def OneAtATime (session : ℕ) (s : TcpServer) : Action → Prop
  | .asyncSend session' data =>
    session' = session → data ≠ [] → (s.channel session).waiting = []
  | .broadcast data order => session ∈ order → data ≠ [] → (s.channel session).waiting = []
  | .complete _ (.write session' data length none) =>
    session' = session → length < data.length → (s.channel session).queue.length = 1
  | _ => True

instance (session : ℕ) (s : TcpServer) : Decidable (s.Unfailed session) :=
  inferInstanceAs (Decidable (∀ c ∈ s.operations.ready, _))

instance (cb : Callbacks) (session : ℕ) (s : TcpServer) (a : Action) :
    Decidable (WritesSucceed cb session s a) :=
  inferInstanceAs (Decidable (∀ r ∈ step cb s a, _))

instance (session : ℕ) (s : TcpServer) (a : Action) : Decidable (s.OneAtATime session a) := by
  rcases a with _ | _ | _ | _ | _ | ⟨_, _ | _ | _ | ⟨_, _, _, _ | _⟩⟩ | _ <;> unfold OneAtATime <;>
    infer_instance

/-- After the history `h`, the session has its messages on the wire or on the way there, in
order. -/
structure InOrder (session : ℕ) (s : TcpServer) (h : List Event) : Prop where
  known : s.Known session
  unfailed : s.Unfailed session
  orderly : WriteChannel.Orderly (messages session h).flatten (s.channel session)

theorem messages_settle (session : ℕ) (o : Outcome TcpServer Event) :
    messages session (settle o).2 = messages session o.outputs := by
  rw [settle]
  dsimp only
  split_ifs
  · simp [messages, Event.message]
  · rfl

/-- What leaves the channel alone and sends nothing on the session keeps the order. -/
theorem InOrder.of_satisfies {h : List Event} (hI : InOrder session s h) {s' : TcpServer}
    {es : List Event} (hknown : s'.Known session) (hunfailed : s'.Unfailed session)
    (hkeeps : s'.Keeps session (s.channel session) ∧ ∀ e ∈ es, e.message session = none) :
    InOrder session s' (h ++ es) := by
  refine ⟨hknown, hunfailed, ?_⟩
  rw [hkeeps.1 hunfailed, messages_append, messages_eq_nil hkeeps.2, List.append_nil]
  exact hI.orderly

/-- The socket accepts a part of a message, or something else completes. -/
theorem complete_orderly {sent : Bytes} (horder : WriteChannel.Orderly sent (s.channel session))
    (hknown : s.Known session) {i : ℕ} {op : Op} {completion : Completion}
    (hop : s.operations.pending[i]? = some op) (hcompletes : op.Completes completion)
    (hfirst : ∀ op' ∈ s.operations.pending.take i, op'.delays op = false)
    (halone : s.OneAtATime session (.complete i completion))
    (hunfailed : Unfailed session { s with
      sessions := transmit completion s.sessions
      operations := s.operations.complete i completion }) :
    WriteChannel.Orderly sent (channel session { s with
      sessions := transmit completion s.sessions
      operations := s.operations.complete i completion }) := by
  by_cases hmessage : op.message session = none
  · rw [channel_complete_of_message hop hcompletes hmessage]
    exact horder
  · obtain ⟨data, rfl⟩ := Op.exists_of_message hmessage
    rcases completion with _ | _ | ⟨_, _ | _⟩ | ⟨session', data', length, _ | ec⟩
    · exact hcompletes.elim
    · exact hcompletes.elim
    · exact hcompletes.elim
    · exact hcompletes.elim
    · obtain ⟨rfl, rfl, -, -⟩ := hcompletes
      obtain ⟨⟨queue, hqueue⟩, hchannel⟩ := channel_complete_write length hknown hop hfirst
      rw [hchannel]
      refine horder.accept hqueue fun hlength ↦ ?_
      have hone := halone rfl hlength
      rw [hqueue] at hone
      exact List.length_eq_zero_iff.mp (by simpa using hone)
    · -- the write would have failed
      obtain ⟨rfl, -⟩ := hcompletes
      have hfails := hunfailed _ (Operations.mem_ready_complete _ _ _)
      exact absurd hfails (by simp [Completion.failsOn])

/-- The handler of a part of a message starts the next one. -/
theorem resume_orderly {sent : Bytes} (horder : WriteChannel.Orderly sent (s.channel session))
    {i : ℕ} {data : Bytes} {length : ℕ}
    (hready : s.operations.ready[i]? = some (.write session data length none))
    (hlength : length < data.length)
    (hunfailed : (writeSome session (data.drop length)
      { s with operations := s.operations.take i }).Unfailed session) :
    WriteChannel.Orderly sent ((writeSome session (data.drop length)
      { s with operations := s.operations.take i }).channel session) := by
  obtain ⟨w₁, w₂, hwaiting, htaken⟩ := channel_take_of_write hready hlength
  have hchannel := channel_writeSome hunfailed
  rw [htaken] at hchannel
  rw [hchannel]
  exact horder.resume hwaiting

/-- One step keeps the order. -/
theorem InOrder.step {a : Action} {s' : TcpServer} {h es : List Event}
    (hI : InOrder session s h) (hsucceed : WritesSucceed cb session s a)
    (halone : s.OneAtATime session a) (hstep : step cb s a = some (s', es)) :
    InOrder session s' (h ++ es) := by
  have hknown := hI.known.step hstep
  have hunfailed : s'.Unfailed session := hsucceed _ hstep
  have hkeeps : s.Keeps session (s.channel session) := fun _ ↦ rfl
  have hQ : ∀ e : Event, e.Incidental → e.message session = none := fun _ ↦ message_of_incidental
  have hquiet : ∀ {o : Outcome TcpServer Event},
      o.Satisfies (Keeps session (s.channel session)) (fun e ↦ e.message session = none) →
        (s', es) = settle o → InOrder session s' (h ++ es) := by
    intro o ho heq
    have hr := settle_satisfies ho hQ
    rw [← heq] at hr
    exact hI.of_satisfies hknown hunfailed hr
  cases a with
  | start =>
    exact hquiet (doAccept_satisfies (kept_keeps _ _) hQ hkeeps) (Option.some_inj.mp hstep).symm
  | stop =>
    obtain ⟨rfl, rfl⟩ := Prod.mk.inj (Option.some_inj.mp hstep)
    exact hI.of_satisfies hknown hunfailed ⟨hkeeps.post rfl, by simp⟩
  | broadcast data order =>
    obtain ⟨-, hr⟩ := step_broadcast_eq_some hstep
    obtain rfl : s' = (broadcast data order s).state := congrArg Prod.fst hr
    obtain rfl : es = (settle (broadcast data order s)).2 := congrArg Prod.snd hr
    refine ⟨hknown, hunfailed, ?_⟩
    rw [messages_append, List.flatten_append, messages_settle]
    exact sendToEach_orderly hI.orderly halone hunfailed
  | asyncSend session' data =>
    obtain ⟨-, hr⟩ := step_asyncSend_eq_some hstep
    obtain rfl : s' = (asyncSend session' data s).state := congrArg Prod.fst hr
    obtain rfl : es = (settle (asyncSend session' data s)).2 := congrArg Prod.snd hr
    refine ⟨hknown, hunfailed, ?_⟩
    rw [messages_append, List.flatten_append, messages_settle]
    exact (asyncSend_orderly hI.orderly session' data halone hunfailed).1
  | close session' =>
    exact hquiet (close_satisfies (kept_keeps _ _) hQ session' hkeeps)
      (Option.some_inj.mp hstep).symm
  | complete i completion =>
    obtain ⟨op, hop, hcompletes, hfirst, hr⟩ := step_complete_eq_some hstep
    obtain ⟨rfl, rfl⟩ := Prod.mk.inj hr
    rw [List.append_nil]
    exact ⟨hknown, hunfailed,
      complete_orderly hI.orderly hI.known hop hcompletes hfirst halone hunfailed⟩
  | handler i answers =>
    obtain ⟨completion, hready, -, hr⟩ := step_handler_eq_some hstep
    by_cases hrest : completion.rest session = none
    · refine hquiet (handle_keeps hrest answers ?_) hr
      intro _
      exact channel_take_of_rest hready hrest
    · obtain ⟨data, length, rfl, hlength⟩ := exists_of_rest hrest
      have hhandle : handle cb (.write session data length none) answers
          { s with operations := s.operations.take i }
          = .done (writeSome session (data.drop length)
            { s with operations := s.operations.take i }) := if_pos hlength
      rw [hhandle] at hr
      obtain rfl : s' = _ := congrArg Prod.fst hr
      obtain rfl : es = [] := congrArg Prod.snd hr
      rw [List.append_nil]
      exact ⟨hknown, hunfailed, resume_orderly hI.orderly hready hlength hunfailed⟩

/-! ## Whole runs -/

theorem inOrder_init (session : ℕ) : InOrder session init [] where
  known op hop := absurd hop (by simp [init, Operations.empty])
  unfailed c hc := absurd hc (by simp [init, Operations.empty])
  orderly := WriteChannel.orderly_empty

/-- **The order on the wire.** In every run in which no write of the session fails, and in which its
messages go out one at a time whenever one goes out in parts, the wire carries the messages in the
order of the calls. -/
theorem wire_in_order (cb : Callbacks) (session : ℕ) :
    ∀ as s h, (system cb).run init as = some (s, h) →
      (system cb).Obeys (WritesSucceed cb session) init as →
        (system cb).Obeys (OneAtATime session) init as →
          s.wire session <+: (messages session h).flatten := by
  intro as s h hrun hsucceed halone
  have horder := System.run_induction (I := InOrder session) (h := [])
    (fun hI hC hst ↦ hI.step hC.1 hC.2 hst) (inOrder_init session) (hsucceed.and halone) hrun
  exact horder.orderly.isPrefix

/-- A client is connected. -/
def welcomeRun : List Action :=
  [.start, .complete 0 (.accept none), .handler 0 .ok]

/-- The first message goes out in two parts, and the second is sent afterwards. -/
def patientRun : List Action :=
  welcomeRun ++ [.broadcast [1, 2, 3] [0], .complete 2 (.write 0 [1, 2, 3] 1 none), .handler 0 .ok,
    .complete 2 (.write 0 [2, 3] 2 none), .broadcast [4, 5] [0],
    .complete 2 (.write 0 [4, 5] 2 none)]

/-- The second message is sent at once, and overtakes the rest of the first. -/
def hastyRun : List Action :=
  welcomeRun ++ [.broadcast [1, 2, 3] [0], .broadcast [4, 5] [0],
    .complete 2 (.write 0 [1, 2, 3] 1 none), .complete 2 (.write 0 [4, 5] 2 none)]

theorem wire_in_order_patientRun :
    ∃ s h, (system .allSet).run init patientRun = some (s, h) ∧
      s.wire 0 <+: (messages 0 h).flatten :=
  ⟨_, _, rfl, wire_in_order .allSet 0 patientRun _ _ rfl (by decide) (by decide)⟩

theorem not_wire_in_order :
    ¬∀ session as s h, (system .allSet).run init as = some (s, h) →
      (system .allSet).Obeys (WritesSucceed .allSet session) init as →
        s.wire session <+: (messages session h).flatten := by
  intro hall
  have hpre := hall 0 hastyRun _ _ rfl (by decide)
  exact absurd hpre (by decide)

end TcpServer

end Server

end PushService
