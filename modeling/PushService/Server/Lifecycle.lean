import PushService.Server.Broadcast
import PushService.Server.Sessions
import PushService.Stream.ReadLoop

/-!
# The life of a session

Seen from one session the server is an endpoint that reads in a loop: it is opened by the handler of
an accept, its reads complete and are handled like those of any other, and whoever closes it, the
callbacks hear of it in the order that a loop has. Everything else the server does leaves the
session alone.
-/

namespace PushService

namespace Server

open ReadLoop

/-- The operation is a read of the session. -/
def Op.readsOn (session : ℕ) : Op → Bool
  | read session' => session' = session
  | _ => false

/-- The result, if the completion is one of a read of the session. -/
def Completion.readResult (session : ℕ) : Completion → Option (Option Bytes)
  | read session' result =>
    if session' = session then
      match result with
      | .ok data => some (some data)
      | .error _ => some none
    else none
  | _ => none

namespace TcpServer

/-- What an output reports of the session with the given id. -/
def Event.mark (id : SessionId) : Event → Option (Mark Bytes)
  | .onConnected id' _ => if id' = id then some .opened else none
  | .onDisconnected id' => if id' = id then some .closed else none
  | .onDataReceived id' data => if id' = id then some (.delivered data) else none
  | _ => none

/-- What the callbacks report of the session. -/
def reports (id : SessionId) (h : List Event) : List (Mark Bytes) := h.filterMap (Event.mark id)

/-- The data that an action brings to the session. -/
def Action.arrival (session : ℕ) : Action → Option Bytes
  | .complete _ (.read session' (.ok data)) => if session' = session then some data else none
  | _ => none

/-- What has come in for the session. -/
def arrivals (session : ℕ) (as : List Action) : List Bytes := as.filterMap (Action.arrival session)

/-- The session as an endpoint. -/
def endpoint (session : ℕ) (s : TcpServer) : ReadLoop Bytes where
  phase :=
    match s.sessions[session]? with
    | some c => if c.socketOpen then .opened else .closed
    | none => .new
  pending := s.operations.pending.countP (Op.readsOn session)
  results := s.operations.ready.filterMap (Completion.readResult session)

variable {cb : Callbacks} {s s' : TcpServer} {session : ℕ} {id : SessionId}

/-! ## Changes that leave a session alone -/

@[simp] theorem reports_append (id : SessionId) (h es : List Event) :
    reports id (h ++ es) = reports id h ++ reports id es := List.filterMap_append

theorem endpoint_start {op : Op} (hop : op.readsOn session = false) :
    endpoint session { s with operations := s.operations.start op } = s.endpoint session := by
  simp [endpoint, Operations.start, List.countP_append, hop]

theorem endpoint_post {c : Completion} (hc : c.readResult session = none) :
    endpoint session { s with operations := s.operations.post c } = s.endpoint session := by
  simp [endpoint, Operations.post, hc]

theorem endpoint_doRead {session' : ℕ} (hne : session' ≠ session) :
    (s.doRead session').endpoint session = s.endpoint session :=
  doRead_cases (P := fun s' ↦ s'.endpoint session = s.endpoint session)
    (endpoint_start (by simp [Op.readsOn, hne]))
    (endpoint_post (by simp [Completion.readResult, hne]))

/-- The next read of an open session is under way, and that of a closed one fails. -/
theorem endpoint_doRead_self :
    (s.doRead session).endpoint session = ⟨(s.endpoint session).phase,
      if s.isOpen session then (s.endpoint session).pending + 1 else (s.endpoint session).pending,
      if s.isOpen session then (s.endpoint session).results
        else (s.endpoint session).results ++ [none]⟩ := by
  rw [doRead]
  split_ifs
  · simp [endpoint, Operations.start, List.countP_append, Op.readsOn]
  · simp [endpoint, Operations.post, Completion.readResult]

theorem endpoint_doAccept : s.doAccept.state.endpoint session = s.endpoint session :=
  doAccept_cases (P := fun s' ↦ s'.endpoint session = s.endpoint session) (endpoint_start rfl)
    (endpoint_post rfl)

theorem endpoint_writeSome (session' : ℕ) (data : Bytes) :
    (s.writeSome session' data).endpoint session = s.endpoint session :=
  writeSome_cases (P := fun s' ↦ s'.endpoint session = s.endpoint session)
    (fun _ ↦ endpoint_start rfl) (endpoint_post rfl)

/-! ## The pieces -/

/-- The session is the one that has the id. -/
def Tells (session : ℕ) (id : SessionId) (s : TcpServer) : Prop :=
  ∀ n c, s.sessions[n]? = some c → (c.id = id ↔ n = session)

/-- What has happened to the session in between is what has been reported of it. -/
def Follows (session : ℕ) (id : SessionId) (s : TcpServer) (es : List Event)
    (s' : TcpServer) : Prop :=
  s.Tells session id → s'.Tells session id ∧
    Moves (s.endpoint session) (reports id es) (s'.endpoint session)

theorem composes_follows : System.Composes (Follows session id) where
  nil s h := ⟨h, .refl _⟩
  append h h' hs := by
    obtain ⟨ht, hmoves⟩ := h hs
    obtain ⟨hu, hmoves'⟩ := h' ht
    rw [reports_append]
    exact ⟨hu, hmoves.trans hmoves'⟩

/-- Nothing happens to the session, and nothing is reported of it. -/
theorem Follows.of_quiet {es : List Event} (hsessions : s'.sessions = s.sessions)
    (hendpoint : s'.endpoint session = s.endpoint session) (hes : reports id es = []) :
    Follows session id s es s' := by
  intro h
  refine ⟨fun n c hc ↦ h n c (hsessions ▸ hc), ?_⟩
  rw [hendpoint, hes]
  exact .refl _

theorem tells_shut {session' : ℕ} {c : ClientSession} (h : s.Tells session id)
    (hc : s.sessions[session']? = some c) : (s.shut session' c).Tells session id := by
  intro n c' hc'
  rw [shut, List.getElem?_set] at hc'
  split_ifs at hc' with heq hlt
  · subst heq
    obtain rfl := Option.some.inj hc'
    exact h session' c hc
  · exact h n c' hc'

/-- The reads of a session fail when its socket is closed. -/
theorem filterMap_readResult_aborted (session session' : ℕ) (pending : List Op) :
    ((pending.filter (Op.onSession session')).map Op.aborted).filterMap
        (Completion.readResult session)
      = if session' = session then List.replicate (pending.countP (Op.readsOn session)) none
        else [] := by
  induction pending with
  | nil => simp
  | cons op pending ih =>
    rw [List.filter_cons, List.countP_cons]
    cases op with
    | accept => simpa [Op.onSession, Op.readsOn] using ih
    | read n =>
      by_cases hn : n = session'
      · by_cases heq : session' = session
        · subst hn heq
          simpa [Op.onSession, Op.readsOn, Op.aborted, Completion.readResult, List.replicate_succ]
            using ih
        · subst hn
          simpa [Op.onSession, Op.aborted, Completion.readResult, heq] using ih
      · by_cases heq : session' = session
        · subst heq
          simpa [Op.onSession, Op.readsOn, hn] using ih
        · simpa [Op.onSession, hn, heq] using ih
    | write n data =>
      -- a write is aborted too, but it has no result here
      by_cases hn : n = session'
      · rw [if_pos (by simp [Op.onSession, hn]), List.map_cons, List.filterMap_cons_none rfl, ih]
        rfl
      · rw [if_neg (by simp [Op.onSession, hn]), ih]
        rfl

/-- Closing the session aborts its read. -/
theorem moves_shut {c : ClientSession} (hc : s.sessions[session]? = some c)
    (hopen : c.socketOpen = true) :
    Moves (s.endpoint session) [.closed] ((s.shut session c).endpoint session) := by
  have hlt : session < s.sessions.length := (List.getElem?_eq_some_iff.mp hc).1
  have hbefore : s.endpoint session = ⟨.opened, s.operations.pending.countP (Op.readsOn session),
      s.operations.ready.filterMap (Completion.readResult session)⟩ := by
    simp [endpoint, hc, hopen]
  have hnone : (s.operations.pending.filter fun op ↦ !op.onSession session).countP
      (Op.readsOn session) = 0 := by
    refine List.countP_eq_zero.mpr fun op hop hreads ↦ ?_
    have hother := (List.mem_filter.mp hop).2
    cases op with
    | read n => simp_all [Op.onSession, Op.readsOn]
    | accept => exact absurd hreads (by simp [Op.readsOn])
    | write n data => exact absurd hreads (by simp [Op.readsOn])
  have hafter : (s.shut session c).endpoint session = ⟨.closed, 0,
      s.operations.ready.filterMap (Completion.readResult session)
        ++ List.replicate (s.operations.pending.countP (Op.readsOn session)) none⟩ := by
    simp only [endpoint, shut, Operations.abort, List.filterMap_append,
      filterMap_readResult_aborted,
      hnone, if_true, List.getElem?_set_self hlt]
    rfl
  rw [hbefore, hafter]
  exact .close

theorem endpoint_shut_of_ne {session' : ℕ} (hne : session' ≠ session) (c : ClientSession) :
    (s.shut session' c).endpoint session = s.endpoint session := by
  have hcount : (s.operations.pending.filter fun op ↦ !op.onSession session').countP
      (Op.readsOn session) = s.operations.pending.countP (Op.readsOn session) := by
    rw [List.countP_filter]
    refine List.countP_congr fun op _ ↦ ?_
    cases op with
    | read n =>
      by_cases hn : n = session
      · simp [Op.onSession, Op.readsOn, hn, Ne.symm hne]
      · simp [Op.readsOn, hn]
    | accept => simp [Op.readsOn]
    | write n data => simp [Op.readsOn]
  simp only [endpoint, shut, Operations.abort, List.filterMap_append, filterMap_readResult_aborted,
    if_neg hne, List.append_nil, hcount, List.getElem?_set_ne hne]

theorem close_follows (hcb : cb.onDisconnected = true) (session' : ℕ) :
    (close cb session' s).Relates (Follows session id) s := by
  by_cases hopen : s.isOpen session' = true
  · obtain ⟨c, hc, hco⟩ := isOpen_iff.mp hopen
    rw [close_of_open hc hco, invoke, if_pos hcb]
    intro h
    refine ⟨tells_shut h hc, ?_⟩
    by_cases heq : session' = session
    · subst heq
      have hid : c.id = id := (h _ c hc).mpr rfl
      have hreport : reports id [Event.onDisconnected c.id] = [.closed] := by
        rw [reports, List.filterMap_cons_some (by rw [Event.mark, if_pos hid]), List.filterMap_nil]
      change Moves _ (reports id [Event.onDisconnected c.id]) _
      rw [hreport]
      exact moves_shut hc hco
    · have hid : c.id ≠ id := fun hid ↦ heq ((h _ c hc).mp hid)
      have hreport : reports id [Event.onDisconnected c.id] = [] := by
        simp [reports, Event.mark, hid]
      change Moves _ (reports id [Event.onDisconnected c.id]) ((s.shut session' c).endpoint session)
      rw [hreport, endpoint_shut_of_ne heq]
      exact .refl _
  · rw [close_of_not_open (by simpa using hopen)]
    exact composes_follows.nil s

theorem closeEach_follows (hcb : cb.onDisconnected = true) (order : List ℕ) :
    (closeEach cb order s).Relates (Follows session id) s := by
  induction order generalizing s with
  | nil => exact composes_follows.nil s
  | cons session' order ih => exact (close_follows hcb session').andThen composes_follows ih

theorem writeSome_follows (session' : ℕ) (data : Bytes) :
    Follows session id s [] (s.writeSome session' data) :=
  .of_quiet (sessions_writeSome session' data) (endpoint_writeSome session' data) rfl

theorem asyncSend_follows (session' : ℕ) (data : Bytes) :
    (asyncSend session' data s).Relates (Follows session id) s := by
  rw [asyncSend]
  split_ifs
  · exact .of_quiet rfl (endpoint_post rfl) rfl
  · exact .of_quiet (sessions_writeSome session' data) (endpoint_writeSome session' data) rfl

theorem sendToEach_follows (data : Bytes) (order : List ℕ) :
    (sendToEach data order s).Relates (Follows session id) s := by
  induction order generalizing s with
  | nil => exact composes_follows.nil s
  | cons session' order ih => exact (asyncSend_follows session' data).andThen composes_follows ih

theorem doAccept_follows : s.doAccept.Relates (Follows session id) s :=
  .of_quiet sessions_doAccept endpoint_doAccept rfl

theorem endpoint_enroll_of_ne (hne : s.sessions.length ≠ session) :
    s.enroll.endpoint session = s.endpoint session := by
  have hget : s.enroll.sessions[session]? = s.sessions[session]? := by
    rw [enroll, List.getElem?_append]
    split_ifs with hlt
    · rfl
    · rw [List.getElem?_eq_none (Nat.le_of_not_lt hlt), List.getElem?_singleton, if_neg (by omega)]
  simp only [endpoint, hget]
  rfl

/-- A new session is opened, and its first read started unless the owner throws. -/
theorem moves_enroll (hidle : (s.endpoint session).phase = .new → (s.endpoint session).Idle)
    (hnumber : s.sessions.length = session) (reads : Bool) :
    Moves (s.endpoint session) [.opened]
      ((if reads then s.enroll.doRead session else s.enroll).endpoint session) := by
  have hget : s.enroll.sessions[session]? = some ⟨s.nextSessionId, true, []⟩ := by
    rw [enroll, ← hnumber]
    exact List.getElem?_concat_length
  have hnew : (s.endpoint session).phase = .new := by
    rw [endpoint, List.getElem?_eq_none (Nat.le_of_eq hnumber)]
  obtain ⟨hpending, hresults⟩ := hidle hnew
  have hbefore : s.endpoint session = ⟨.new, 0, []⟩ := by
    rw [← hnew, ← hpending, ← hresults]
  have hopened : s.enroll.endpoint session = ⟨.opened, 0, []⟩ := by
    rw [← hpending, ← hresults]
    simp only [endpoint, hget]
    rfl
  rw [hbefore]
  cases reads with
  | false =>
    rw [if_neg Bool.false_ne_true, hopened]
    exact .open false
  | true =>
    have hopen : s.enroll.isOpen session = true := isOpen_iff.mpr ⟨_, hget, rfl⟩
    have hread : (s.enroll.doRead session).endpoint session = ⟨.opened, 1, []⟩ := by
      rw [endpoint_doRead_self, hopened, if_pos hopen, if_pos hopen]
    rw [if_pos rfl, hread]
    exact .open true

theorem tells_enroll (h : s.Tells session id)
    (hnext : s.nextSessionId = id ↔ s.sessions.length = session) : s.enroll.Tells session id := by
  intro n c hc
  rw [enroll, List.getElem?_append] at hc
  split_ifs at hc with hlt
  · exact h n c hc
  · rw [List.getElem?_singleton] at hc
    split_ifs at hc with hzero
    obtain rfl := Option.some.inj hc
    rw [hnext, show n = s.sessions.length by omega]

/-- A connection. -/
theorem welcome_follows (hcb : cb.onConnected = true) (answers : Answers)
    (hidle : (s.endpoint session).phase = .new → (s.endpoint session).Idle)
    (hnext : s.nextSessionId = id ↔ s.sessions.length = session) :
    (welcome cb answers s).Relates (Follows session id) s := by
  have hrelates : ∀ reads : Bool,
      Follows session id s [.onConnected s.nextSessionId s.sessions.length]
      (if reads then s.enroll.doRead s.sessions.length else s.enroll) := by
    intro reads h
    have htells := tells_enroll h hnext
    refine ⟨?_, ?_⟩
    · cases reads
      · exact htells
      · rw [if_pos rfl, Tells, sessions_doRead]
        exact htells
    by_cases hnumber : s.sessions.length = session
    · have hreport : reports id [.onConnected s.nextSessionId s.sessions.length] = [.opened] := by
        simp [reports, Event.mark, hnext.mpr hnumber]
      rw [hreport, hnumber]
      exact moves_enroll hidle hnumber reads
    · have hreport : reports id [.onConnected s.nextSessionId s.sessions.length] = [] := by
        simp [reports, Event.mark, mt hnext.mp hnumber]
      have hsame : (if reads then s.enroll.doRead s.sessions.length else s.enroll).endpoint session
          = s.endpoint session := by
        cases reads
        · exact endpoint_enroll_of_ne hnumber
        · rw [if_pos rfl, endpoint_doRead hnumber, endpoint_enroll_of_ne hnumber]
      rw [hreport, hsame]
      exact .refl _
  rw [welcome]
  split
  · exact composes_follows.nil s
  · dsimp only
    rw [invoke, if_pos hcb, Outcome.emit_andThen]
    split_ifs
    · exact hrelates false
    · exact hrelates true

theorem acceptHandler_follows (hcb : cb.onConnected = true) (ec : Option ErrorCode)
    (answers : Answers) (hidle : (s.endpoint session).phase = .new → (s.endpoint session).Idle)
    (hnext : s.nextSessionId = id ↔ s.sessions.length = session) :
    (acceptHandler cb ec answers s).Relates (Follows session id) s := by
  refine Outcome.Relates.andThen composes_follows ?_ ?_
  · cases ec with
    | none => exact welcome_follows hcb answers hidle hnext
    | some ec => exact composes_follows.nil s
  · split_ifs
    · exact doAccept_follows
    · exact composes_follows.nil _

/-! ## Handlers -/

/-- The results of the session's reads, before and after the handler of one is taken. -/
theorem endpoint_take (session : ℕ) {i : ℕ} {completion : Completion}
    (hready : s.operations.ready[i]? = some completion) :
    ∃ l r, (s.endpoint session).results = l ++ (completion.readResult session).toList ++ r ∧
      endpoint session { s with operations := s.operations.take i }
        = ⟨(s.endpoint session).phase, (s.endpoint session).pending, l ++ r⟩ := by
  obtain ⟨l₁, l₂, hsplit, -, herase⟩ := Operations.exists_split hready
  refine ⟨l₁.filterMap (Completion.readResult session),
    l₂.filterMap (Completion.readResult session),
    ?_, ?_⟩
  · rw [endpoint]
    dsimp only
    rw [hsplit, List.filterMap_append, List.filterMap_cons, List.append_assoc]
    cases completion.readResult session <;> rfl
  · simp only [endpoint, Operations.take, herase, List.filterMap_append]

/-- The handler of something that is no result of the session. -/
theorem endpoint_take_of_none {i : ℕ} {completion : Completion}
    (hready : s.operations.ready[i]? = some completion)
    (hnone : completion.readResult session = none) :
    endpoint session { s with operations := s.operations.take i } = s.endpoint session := by
  obtain ⟨l, r, hresults, htaken⟩ := endpoint_take session hready
  rw [hnone, Option.toList_none, List.append_nil] at hresults
  rw [htaken, ← hresults]

/-- The handler of a failed read, before it closes the session. -/
theorem take_follows_of_error {i session' : ℕ} {ec : ErrorCode}
    (hready : s.operations.ready[i]? = some (.read session' (.error ec))) :
    Follows session id s [] { s with operations := s.operations.take i } := by
  intro h
  refine ⟨h, ?_⟩
  by_cases heq : session' = session
  · subst heq
    obtain ⟨l, r, hresults, htaken⟩ := endpoint_take session' hready
    have hfailed : (Completion.read session' (.error ec)).readResult session' = some none := by
      simp [Completion.readResult]
    have hbefore : s.endpoint session'
        = ⟨(s.endpoint session').phase, (s.endpoint session').pending,
        l ++ none :: r⟩ := by
      rw [hfailed, Option.toList_some, List.append_assoc] at hresults
      exact congrArg _ hresults
    rw [htaken, hbefore]
    exact .drop
  · rw [endpoint_take_of_none hready (by simp [Completion.readResult, heq])]
    exact .refl _

/-- A piece of data for the session is handed over, and the next read is started. -/
theorem moves_deliver {i : ℕ} {data : Bytes} {c : ClientSession}
    (hready : s.operations.ready[i]? = some (.read session (.ok data)))
    (hc : s.sessions[session]? = some c) :
    Moves (s.endpoint session) [.delivered data]
      ((doRead session { s with operations := s.operations.take i }).endpoint session) := by
  obtain ⟨l, r, hresults, htaken⟩ := endpoint_take session hready
  have hread : (Completion.read session (.ok data)).readResult session = some (some data) := by
    simp [Completion.readResult]
  rw [hread, Option.toList_some, List.append_assoc] at hresults
  have hopen : isOpen { s with operations := s.operations.take i } session = c.socketOpen := by
    rw [isOpen]
    dsimp only
    rw [hc]
  rw [endpoint_doRead_self, hopen, htaken]
  have hphase : (s.endpoint session).phase = if c.socketOpen then .opened else .closed := by
    rw [endpoint, hc]
  have hbefore : s.endpoint session = ⟨(s.endpoint session).phase, (s.endpoint session).pending,
      l ++ some data :: r⟩ := congrArg _ hresults
  rw [hbefore, hphase]
  cases c.socketOpen
  · exact .deliverLate data
  · exact .deliver data

/-- The handler of a read. -/
theorem readHandler_follows (hcb : cb.onDisconnected = true) (hcb' : cb.onDataReceived = true)
    {i session' : ℕ} {result : Except ErrorCode Bytes}
    (hready : s.operations.ready[i]? = some (.read session' result))
    (hidle : (s.endpoint session).phase = .new → (s.endpoint session).Idle) :
    (readHandler cb session' result { s with operations := s.operations.take i }).Relates
      (Follows session id) s := by
  cases result with
  | error ec =>
    exact composes_follows.append (take_follows_of_error hready)
      (close_follows hcb session')
  | ok data =>
    rw [readHandler]
    dsimp only
    cases hc : s.sessions[session']? with
    | none =>
      -- a session that is not there has no results
      by_cases heq : session' = session
      · subst heq
        obtain ⟨l, r, hresults, -⟩ := endpoint_take session' hready
        have hnew : (s.endpoint session').phase = .new := by rw [endpoint, hc]
        rw [(hidle hnew).2] at hresults
        simp [Completion.readResult] at hresults
      · exact .of_quiet rfl (endpoint_take_of_none hready (by simp [Completion.readResult, heq]))
          rfl
    | some c =>
      dsimp only
      rw [invoke, if_pos hcb', Outcome.emit_andThen]
      intro h
      refine ⟨?_, ?_⟩
      · change Tells session id (doRead session' _)
        rw [Tells, sessions_doRead]
        exact h
      by_cases heq : session' = session
      · subst heq
        have hreport : reports id [.onDataReceived c.id data] = [.delivered data] := by
          simp [reports, Event.mark, (h _ c hc).mpr rfl]
        change Moves _ (reports id [.onDataReceived c.id data]) _
        rw [hreport]
        exact moves_deliver hready hc
      · have hreport : reports id [.onDataReceived c.id data] = [] := by
          simp [reports, Event.mark, mt (h _ c hc).mp heq]
        change Moves _ (reports id [.onDataReceived c.id data])
          ((doRead session' _).endpoint session)
        rw [hreport, endpoint_doRead heq,
          endpoint_take_of_none hready (by simp [Completion.readResult, heq])]
        exact .refl _

/-- The handler of a write. -/
theorem writeHandler_follows (hcb : cb.onDisconnected = true) (session' : ℕ) (data : Bytes)
    (length : ℕ)
    (ec : Option ErrorCode) :
    (writeHandler cb session' data length ec s).Relates (Follows session id) s := by
  cases ec with
  | some ec => exact close_follows hcb session'
  | none =>
    rw [writeHandler]
    split_ifs
    · exact writeSome_follows session' _
    · exact composes_follows.nil s

/-- Closing the acceptor aborts no read. -/
theorem stopHandler_follows (hcb : cb.onDisconnected = true) (order : List ℕ) :
    (stopHandler cb order s).Relates (Follows session id) s := by
  have hcount : (s.operations.pending.filter fun op ↦ !op.onAcceptor).countP (Op.readsOn session)
      = s.operations.pending.countP (Op.readsOn session) := by
    rw [List.countP_filter]
    refine List.countP_congr fun op _ ↦ ?_
    cases op <;> simp [Op.onAcceptor, Op.readsOn]
  have hresults : ((s.operations.pending.filter Op.onAcceptor).map Op.aborted).filterMap
      (Completion.readResult session) = [] := by
    refine List.filterMap_eq_nil_iff.mpr fun c hc ↦ ?_
    obtain ⟨op, hop, rfl⟩ := List.mem_map.mp hc
    have hacceptor := (List.mem_filter.mp hop).2
    cases op with
    | accept => rfl
    | read n => exact absurd hacceptor (by simp [Op.onAcceptor])
    | write n data => rfl
  have hclosed : Follows session id s [] { s.shutAcceptor with registry := ∅ } := by
    refine .of_quiet rfl ?_ rfl
    simp only [endpoint, shutAcceptor, Operations.abort, List.filterMap_append, hcount, hresults,
      List.append_nil]
  exact composes_follows.append hclosed (closeEach_follows hcb order)

/-- Every handler. -/
theorem handle_follows {i : ℕ} {completion : Completion}
    (hready : s.operations.ready[i]? = some completion)
    (hidle : (s.endpoint session).phase = .new → (s.endpoint session).Idle)
    (hnext : s.nextSessionId = id ↔ s.sessions.length = session) (answers : Answers) :
    (handle .allSet completion answers { s with operations := s.operations.take i }).Relates
      (Follows session id) s := by
  have htake : ∀ {o : Outcome TcpServer Event}, completion.readResult session = none →
      o.Relates (Follows session id) { s with operations := s.operations.take i } →
      o.Relates (Follows session id) s := by
    intro o hnone ho
    have hquiet : Follows session id s [] { s with operations := s.operations.take i } :=
      .of_quiet rfl (endpoint_take_of_none hready hnone) rfl
    exact composes_follows.append hquiet ho
  cases completion with
  | read session' result => exact readHandler_follows rfl rfl hready hidle
  | stop => exact htake rfl (stopHandler_follows rfl answers.order)
  | write session' data length ec =>
    exact htake rfl (writeHandler_follows rfl session' data length ec)
  | accept ec =>
    refine htake rfl (acceptHandler_follows rfl ec answers ?_ hnext)
    rw [endpoint_take_of_none hready rfl]
    exact hidle

/-! ## Steps and runs -/

theorem settle_follows {o : Outcome TcpServer Event} (ho : o.Relates (Follows session id) s) :
    Follows session id s (settle o).2 (settle o).1 :=
  ho.reported composes_follows fun _ ↦ .of_quiet rfl rfl rfl

theorem phase_endpoint (s : TcpServer) (session : ℕ) :
    (s.endpoint session).phase = ((s.sessions.map ClientSession.socketOpen)[session]?).elim .new
      fun isOpen ↦ if isOpen then .opened else .closed := by
  rw [endpoint, List.getElem?_map]
  cases s.sessions[session]? <;> rfl

/-- The completion of an operation that is no read of the session. -/
theorem result_of_not_readsOn {op : Op} {completion : Completion}
    (hcompletes : op.Completes completion) (hop : op.readsOn session = false) (i : ℕ) :
    completion.readResult session = none ∧
      Action.arrival session (.complete i completion) = none := by
  cases completion with
  | read n result =>
    cases op with
    | read n' =>
      have hne : n ≠ session := by
        have hn' : n' ≠ session := by simpa [Op.readsOn] using hop
        cases result <;> exact hcompletes.1 ▸ hn'
      exact ⟨by simp [Completion.readResult, hne], by cases result <;> simp [Action.arrival, hne]⟩
    | accept => exact absurd hcompletes (by cases result <;> simp [Op.Completes])
    | write n' data => exact absurd hcompletes (by cases result <;> simp [Op.Completes])
  | accept ec => exact ⟨rfl, rfl⟩
  | stop => exact ⟨rfl, rfl⟩
  | write n data length ec => exact ⟨rfl, rfl⟩

/-- An operation completes: a read of the session, or another. -/
theorem moves_complete {i : ℕ} {op : Op} {completion : Completion}
    (hop : s.operations.pending[i]? = some op) (hcompletes : op.Completes completion) :
    Moves (s.endpoint session)
      ((Action.arrival session (.complete i completion)).toList.map .arrived)
      (endpoint session { s with
        sessions := transmit completion s.sessions
        operations := s.operations.complete i completion }) := by
  have hcount := Operations.countP_eraseIdx (p := Op.readsOn session) hop
  have hafter : endpoint session { s with
      sessions := transmit completion s.sessions
      operations := s.operations.complete i completion }
      = ⟨(s.endpoint session).phase, (s.operations.pending.eraseIdx i).countP (Op.readsOn session),
        (s.endpoint session).results ++ (completion.readResult session).toList⟩ := by
    rw [phase_endpoint, ← map_transmit (fun _ _ ↦ rfl) completion s.sessions, ← phase_endpoint
      { s with
        sessions := transmit completion s.sessions
        operations := s.operations.complete i completion }]
    simp only [endpoint, Operations.complete, List.filterMap_append]
    cases hresult : completion.readResult session <;> simp [hresult]
  rw [hafter]
  cases hreads : op.readsOn session with
  | false =>
    obtain ⟨hresult, harrival⟩ := result_of_not_readsOn hcompletes hreads i
    rw [hreads, if_neg Bool.false_ne_true, Nat.add_zero] at hcount
    rw [hresult, harrival, hcount, Option.toList_none, Option.toList_none, List.append_nil]
    exact .refl _
  | true =>
    rw [hreads, if_pos rfl] at hcount
    have hbefore : s.endpoint session = ⟨(s.endpoint session).phase,
        (s.operations.pending.eraseIdx i).countP (Op.readsOn session) + 1,
        (s.endpoint session).results⟩ := by
      rw [hcount]
      rfl
    obtain ⟨n, rfl⟩ : ∃ n, op = .read n := by
      cases op with
      | read n => exact ⟨n, rfl⟩
      | accept => exact absurd hreads (by simp [Op.readsOn])
      | write n data => exact absurd hreads (by simp [Op.readsOn])
    obtain rfl : n = session := by simpa [Op.readsOn] using hreads
    rw [hbefore]
    rcases completion with _ | _ | ⟨n', _ | data⟩ | ⟨_, _, _, _ | _⟩
    any_goals exact hcompletes.elim
    · obtain rfl : n = n' := hcompletes.1
      simpa [Completion.readResult, Action.arrival] using Moves.fail
    · obtain rfl : n = n' := hcompletes.1
      simpa [Completion.readResult, Action.arrival] using Moves.arrive data

/-- What a step does to the session: something arrives for it, or something is reported of it. -/
theorem step_follows {a : Action} {es : List Event} (hstep : step .allSet s a = some (s', es))
    (htells : s.Tells session id)
    (hidle : (s.endpoint session).phase = .new → (s.endpoint session).Idle)
    (hnext : s.nextSessionId = id ↔ s.sessions.length = session) :
    Moves (s.endpoint session) ((a.arrival session).toList.map .arrived ++ reports id es)
      (s'.endpoint session) := by
  have hsettle : ∀ {o : Outcome TcpServer Event}, o.Relates (Follows session id) s →
      (s', es) = settle o →
      Moves (s.endpoint session) (reports id es) (s'.endpoint session) := by
    intro o ho heq
    have hr := settle_follows ho
    rw [← heq] at hr
    exact (hr htells).2
  cases a with
  | start => exact hsettle doAccept_follows (Option.some_inj.mp hstep).symm
  | stop =>
    obtain ⟨rfl, rfl⟩ := Prod.mk.inj (Option.some_inj.mp hstep)
    change Moves _ [] (endpoint session { s with operations := s.operations.post .stop })
    rw [endpoint_post rfl]
    exact .refl _
  | broadcast data order =>
    obtain ⟨-, hr⟩ := step_broadcast_eq_some hstep
    exact hsettle (sendToEach_follows data order) hr
  | asyncSend session' data =>
    obtain ⟨-, hr⟩ := step_asyncSend_eq_some hstep
    exact hsettle (asyncSend_follows session' data) hr
  | close session' => exact hsettle (close_follows rfl session') (Option.some_inj.mp hstep).symm
  | complete i completion =>
    obtain ⟨op, hop, hcompletes, -, hr⟩ := step_complete_eq_some hstep
    obtain ⟨rfl, rfl⟩ := Prod.mk.inj hr
    change Moves _ (_ ++ []) _
    rw [List.append_nil]
    exact moves_complete hop hcompletes
  | handler i answers =>
    obtain ⟨completion, hready, -, hr⟩ := step_handler_eq_some hstep
    exact hsettle (handle_follows hready hidle hnext answers) hr

/-- Sessions are never forgotten. -/
theorem le_length_of_step {a : Action} {es : List Event} {n : ℕ}
    (hstep : step cb s a = some (s', es)) (h : n ≤ s.sessions.length) : n ≤ s'.sessions.length := by
  have hkept : Kept fun s ↦ n ≤ s.sessions.length :=
    .of_operations (fun s session c h _ ↦ by simpa [shut] using h) fun _ _ h ↦ h
  refine (step_keeps (Q := fun _ ↦ True) hkept (fun _ _ ↦ trivial) ?_ ?_ ?_ ?_ h hstep).1
  · intro s session data h
    refine Outcome.satisfies_emit ?_ trivial
    split_ifs
    · exact h
    · rw [sessions_writeSome]
      exact h
  · exact fun _ h ↦ h
  · intro s i op completion h _ _
    exact (length_transmit completion s.sessions).symm ▸ h
  · intro s i completion answers h _ _
    refine handle_satisfies hkept (fun _ _ ↦ trivial) completion answers h (fun _ ↦ ?_) (fun _ ↦ h)
      ?_
    · refine welcome_satisfies hkept answers h ?_ trivial
      rw [enroll, List.length_append]
      exact Nat.le_add_right_of_le h
    · intro session data length _ _
      rw [sessions_writeSome]
      exact h

theorem le_length_of_run {as : List Action} {h : List Event}
    (hrun : (system cb).run s as = some (s', h)) : s.sessions.length ≤ s'.sessions.length :=
  System.run_invariant (I := fun t _ ↦ s.sessions.length ≤ t.sessions.length) (h := [])
    (fun hle hstep ↦ le_length_of_step hstep hle) le_rfl hrun

theorem ofNat_succ_inj {m n : ℕ} (hm : m < 2 ^ 64) (hn : n < 2 ^ 64)
    (h : UInt64.ofNat (m + 1) = UInt64.ofNat (n + 1)) : m = n := by
  have htoNat := congrArg UInt64.toNat h
  rw [UInt64.toNat_ofNat', UInt64.toNat_ofNat'] at htoNat
  omega

/-- As long as the ids do not come round, they tell the sessions apart. -/
theorem Numbered.tells (h : s.Numbered) (hlt : s.sessions.length < 2 ^ 64)
    (hsession : session < 2 ^ 64) :
    s.Tells session (UInt64.ofNat (session + 1)) ∧
      (s.nextSessionId = UInt64.ofNat (session + 1) ↔ s.sessions.length = session) := by
  refine ⟨fun n c hc ↦ ?_, ?_⟩
  · have hn : n < s.sessions.length := (List.getElem?_eq_some_iff.mp hc).1
    rw [h.ids n c hc]
    exact ⟨ofNat_succ_inj (by omega) hsession, fun heq ↦ by rw [heq]⟩
  · rw [h.next]
    exact ⟨ofNat_succ_inj hlt hsession, fun heq ↦ by rw [heq]⟩

/-- The marks of a step, seen from outside. -/
theorem reports_marks (session : ℕ) (id : SessionId) (a : Action) (es : List Event) :
    ReadLoop.reports ((a.arrival session).toList.map .arrived ++ reports id es) = reports id es ∧
      ReadLoop.arrivals ((a.arrival session).toList.map .arrived ++ reports id es)
        = (a.arrival session).toList := by
  have hmark : ∀ m ∈ reports id es, m.isReport = true ∧ m.arrival? = none := by
    intro m hm
    obtain ⟨e, -, he⟩ := List.mem_filterMap.mp hm
    cases m with
    | arrived data => cases e <;> simp [Event.mark] at he
    | _ => exact ⟨rfl, rfl⟩
  rw [ReadLoop.reports_append, ReadLoop.arrivals_append]
  have hreports : ReadLoop.reports (reports id es) = reports id es :=
    List.filter_eq_self.mpr fun m hm ↦ (hmark m hm).1
  have harrivals : ReadLoop.arrivals (reports id es) = [] :=
    List.filterMap_eq_nil_iff.mpr fun m hm ↦ (hmark m hm).2
  rw [hreports, harrivals]
  cases a.arrival session <;> exact ⟨rfl, rfl⟩

/-- A run, seen from one session. -/
theorem exists_marks {as : List Action} {h : List Event} {old : List (Mark Bytes)}
    (hbook : s.Bookkept) (hsound : (s.endpoint session).Sound old) (hsession : session < 2 ^ 64)
    (hrun : (system .allSet).run s as = some (s', h)) (hlt : s'.sessions.length < 2 ^ 64) :
    ∃ ms, (s'.endpoint session).Sound (old ++ ms) ∧
      ReadLoop.reports ms = reports (UInt64.ofNat (session + 1)) h ∧
      ReadLoop.arrivals ms = arrivals session as := by
  induction as generalizing s h old with
  | nil =>
    obtain ⟨rfl, rfl⟩ : s = s' ∧ [] = h := by simpa using hrun
    exact ⟨[], by rwa [List.append_nil], rfl, rfl⟩
  | cons a as ih =>
    have hs : s.sessions.length < 2 ^ 64 := (le_length_of_run hrun).trans_lt hlt
    obtain ⟨t, es, fs, hstep, hrest, rfl⟩ := System.run_cons_eq_some.mp hrun
    obtain ⟨htells, hnext⟩ := hbook.toNumbered.tells hs hsession
    have hmoves := step_follows hstep htells hsound.idle hnext
    obtain ⟨ms, hsound', hreports, harrivals⟩ := ih (hbook.step hstep) (hsound.moves hmoves) hrest
    obtain ⟨hreports', harrivals'⟩ := reports_marks session (UInt64.ofNat (session + 1)) a es
    refine ⟨_, by rwa [List.append_assoc] at hsound', ?_, ?_⟩
    · rw [ReadLoop.reports_append, hreports, hreports', reports_append]
    · rw [ReadLoop.arrivals_append, harrivals, harrivals', arrivals, arrivals, List.filterMap_cons]
      cases a.arrival session <;> rfl

/-- The data that `onDataReceived_` was given for the session. -/
def received (id : SessionId) (h : List Event) : List Bytes := ReadLoop.deliveries (reports id h)

/-- **The life of a session.** With all callbacks set, whatever the owner, the peers and the order
of the handlers do, the callbacks hear of each session in this order: that it is connected, then its
data, then that it is disconnected, and after that of at most one piece of data more. The data are
what has come in for the session, in order, but perhaps for the last piece. -/
theorem session_lifecycle (as : List Action) (s : TcpServer) (h : List Event)
    (hrun : (system .allSet).run init as = some (s, h)) (hlt : s.sessions.length < 2 ^ 64)
    (session : ℕ)
    (hsession : session < 2 ^ 64) :
    ReadLoop.Orderly (reports (UInt64.ofNat (session + 1)) h) ∧
      received (UInt64.ofNat (session + 1)) h <+: arrivals session as ∧
      (arrivals session as).length ≤ (received (UInt64.ofNat (session + 1)) h).length + 1 := by
  have hbook : Bookkept init :=
    bookkept_of_run (System.run_nil (M := system .allSet) init)
  obtain ⟨ms, hsound, hreports, harrivals⟩ :=
    exists_marks hbook ReadLoop.sound_new hsession hrun hlt
  obtain ⟨hpre, hlength⟩ := hsound.isPrefix
  rw [List.nil_append] at hsound hpre hlength
  rw [received, ← hreports, ReadLoop.deliveries_reports, ← harrivals]
  exact ⟨hsound.orderly, hpre, hlength⟩

/-- A client sends something, and is disconnected by the owner before the server has read it. -/
def lateDataRun : List Action :=
  closedRun.take 3 ++ [.complete 0 (.read 0 (.ok [104, 105])), .close 0, .handler 0 .ok,
    .handler 0 .ok]

theorem session_lifecycle_lateDataRun : ∃ s h, (system .allSet).run init lateDataRun = some (s, h) ∧
    reports 1 h = [.opened, .closed, .delivered [104, 105]] ∧
    ReadLoop.Orderly (reports 1 h) ∧ received 1 h <+: arrivals 0 lateDataRun := by
  have hrun : (system .allSet).run init lateDataRun = some (_, _) := rfl
  have hlife := session_lifecycle lateDataRun _ _ hrun (by decide) 0 (by decide)
  exact ⟨_, _, hrun, by decide, hlife.1, hlife.2.1⟩

end TcpServer

end Server

end PushService
