import PushService.Client.Delivery
import PushService.Server.Lifecycle

/-!
# From a broadcast to the event handler of a client

A broadcast is sent once on every session that is open, and on no other (`messages_eq`). A session
is opened once and closed once, so it gets the broadcasts without gaps (`messages_segment`).
Together with the order on the wire and the laws of the reader this says what a client is told: the
beginning of what has been sent on its session, each push once and in order (`calls_of_broadcasts`).
-/

namespace PushService

namespace Server

namespace TcpServer

variable {cb : Callbacks} {s s' : TcpServer} {session : ℕ}

/-! ## What is sent on a session -/

/-- What an action sends on the session. -/
def Action.sends (session : ℕ) (s : TcpServer) : Action → List Bytes
  | .broadcast data _ => if s.isOpen session then [data] else []
  | .asyncSend session' data => if session' = session then [data] else []
  | _ => []

/-- What is sent on the session in a run: the broadcasts made while it is open, and what is sent on
it alone. -/
def sentOn (cb : Callbacks) (session : ℕ) : TcpServer → List Action → List Bytes
  | _, [] => []
  | s, a :: as =>
    a.sends session s ++
      match step cb s a with
      | some (t, _) => sentOn cb session t as
      | none => []

theorem messages_asyncSend (session' : ℕ) (data : Bytes) :
    messages session (asyncSend session' data s).outputs
      = if session' = session then [data] else [] := by
  change messages session [Event.asyncSend session' data] = _
  by_cases h : session' = session <;> simp [messages, Event.message, h]

/-- `ForEachClient` sends once for every time it comes to the session. -/
theorem messages_sendToEach (data : Bytes) (order : List ℕ) :
    messages session (sendToEach data order s).outputs
      = List.replicate (order.count session) data := by
  induction order generalizing s with
  | nil => rfl
  | cons session' order ih =>
    rw [sendToEach_cons, messages_append, messages_asyncSend, ih, List.count_cons]
    by_cases h : session' = session
    · simp [h, List.replicate_succ]
    · simp [h]

/-- The registry has every session once. -/
theorem Bookkept.nodup_registered (h : s.Bookkept) (hlt : s.sessions.length < 2 ^ 64) :
    s.registered.Nodup := by
  refine List.Nodup.map_on ?_ s.registry.nodupKeys.nodup
  rintro ⟨id, n⟩ hmem ⟨id', n'⟩ hmem' heq
  obtain rfl : n = n' := heq
  have hlookup := (h.lookup hlt id n).mp (AList.mem_lookup_iff.mpr hmem)
  have hlookup' := (h.lookup hlt id' n).mp (AList.mem_lookup_iff.mpr hmem')
  rw [hlookup.1, hlookup'.1]

theorem Bookkept.mem_registered_iff (h : s.Bookkept) (hlt : s.sessions.length < 2 ^ 64) :
    session ∈ s.registered ↔ s.isOpen session = true := by
  rw [mem_registered]
  constructor
  · rintro ⟨id, hlookup⟩
    exact ((h.lookup hlt id session).mp hlookup).2
  · intro hopen
    exact ⟨_, (h.lookup hlt _ session).mpr ⟨rfl, hopen⟩⟩

/-- A step sends on a session what its action says. -/
theorem messages_of_step {a : Action} {es : List Event} (hstep : step cb s a = some (s', es))
    (hbook : s.Bookkept) (hlt : s.sessions.length < 2 ^ 64) :
    messages session es = a.sends session s := by
  have hkept : Kept fun _ ↦ True :=
    .of_operations (fun _ _ _ _ _ ↦ trivial) fun _ _ _ ↦ trivial
  have hQ : ∀ e : Event, e.Incidental → e.message session = none := fun e ↦ message_of_incidental
  have hsettle : ∀ {o : Outcome TcpServer Event}, (s', es) = settle o →
      messages session es = messages session o.outputs := by
    intro o heq
    obtain rfl : es = (settle o).2 := congrArg Prod.snd heq
    exact messages_settle session o
  cases a with
  | start => exact hsettle (Option.some_inj.mp hstep).symm
  | stop =>
    obtain ⟨-, rfl⟩ := Prod.mk.inj (Option.some_inj.mp hstep)
    rfl
  | broadcast data order =>
    obtain ⟨horder, hr⟩ := step_broadcast_eq_some hstep
    rw [hsettle hr, broadcast, messages_sendToEach, horder.count_eq, Action.sends]
    by_cases hopen : s.isOpen session = true
    · have hmem := (hbook.mem_registered_iff hlt).mpr hopen
      rw [List.count_eq_one_of_mem (hbook.nodup_registered hlt) hmem, if_pos hopen]
      rfl
    · have hmem := mt (hbook.mem_registered_iff hlt).mp hopen
      rw [List.count_eq_zero_of_not_mem hmem, if_neg hopen]
      rfl
  | asyncSend session' data =>
    obtain ⟨-, hr⟩ := step_asyncSend_eq_some hstep
    rw [hsettle hr, messages_asyncSend, Action.sends]
  | close session' =>
    rw [hsettle (Option.some_inj.mp hstep).symm]
    exact messages_eq_nil (close_satisfies (P := fun _ ↦ True) hkept hQ session' trivial).2
  | complete i completion =>
    obtain ⟨-, -, -, -, hr⟩ := step_complete_eq_some hstep
    obtain ⟨-, rfl⟩ := Prod.mk.inj hr
    rfl
  | handler i answers =>
    obtain ⟨completion, -, -, hr⟩ := step_handler_eq_some hstep
    rw [hsettle hr]
    refine messages_eq_nil (handle_satisfies (P := fun _ ↦ True) hkept hQ completion answers trivial
      (fun _ ↦ ?_) (fun _ ↦ trivial) fun _ _ _ _ _ ↦ trivial).2
    exact welcome_satisfies hkept answers trivial trivial rfl

theorem messages_eq {as : List Action} {h : List Event} (hbook : s.Bookkept)
    (hrun : (system cb).run s as = some (s', h)) (hlt : s'.sessions.length < 2 ^ 64) :
    messages session h = sentOn cb session s as := by
  induction as generalizing s h with
  | nil =>
    obtain ⟨rfl, rfl⟩ : s = s' ∧ [] = h := by simpa using hrun
    rfl
  | cons a as ih =>
    have hs : s.sessions.length < 2 ^ 64 := (le_length_of_run hrun).trans_lt hlt
    obtain ⟨t, es, fs, hstep, hrest, rfl⟩ := System.run_cons_eq_some.mp hrun
    have hnext : step cb s a = some (t, es) := hstep
    rw [messages_append, messages_of_step hstep hbook hs, ih (hbook.step hstep) hrest, sentOn,
      hnext]

/-- **A broadcast reaches every open session.** In a run, what a session sends is what is sent on it
alone and every broadcast made while it is open, once each, in order; nothing else. -/
theorem broadcast_reaches_open (cb : Callbacks) (session : ℕ) (as : List Action) (s : TcpServer)
    (h : List Event) (hrun : (system cb).run init as = some (s, h))
    (hlt : s.sessions.length < 2 ^ 64) :
    messages session h = sentOn cb session init as :=
  messages_eq (bookkept_of_run (System.run_nil (M := system cb) init)) hrun hlt

/-- A second client comes, and the first one goes. -/
def comeAndGoRun : List Action :=
  welcomeRun ++ [.broadcast [1] [0], .complete 1 (.accept none), .handler 0 .ok,
    .broadcast [2] [1, 0],
    .close 0, .broadcast [3] [1]]

theorem broadcast_reaches_open_comeAndGoRun :
    ∃ s h, (system .allSet).run init comeAndGoRun = some (s, h) ∧
      messages 0 h = [[1], [2]] ∧ messages 1 h = [[2], [3]] := by
  have hrun : (system .allSet).run init comeAndGoRun = some (_, _) := rfl
  exact ⟨_, _, hrun, broadcast_reaches_open .allSet 0 _ _ _ hrun (by decide),
    broadcast_reaches_open .allSet 1 _ _ _ hrun (by decide)⟩

/-! ## What a session misses -/

/-- The messages of the broadcasts. -/
def broadcasts (as : List Action) : List Bytes :=
  as.filterMap fun
    | .broadcast data _ => some data
    | _ => none

/-- The session has come and gone. -/
def Gone (session : ℕ) (s : TcpServer) : Prop :=
  session < s.sessions.length ∧ s.isOpen session = false

theorem Gone.of_sessions (h : s.Gone session) (hsame : s'.sessions = s.sessions) :
    s'.Gone session := by
  rw [Gone, isOpen, hsame]
  exact h

theorem kept_gone (session : ℕ) : Kept (Gone session) := by
  refine .of_operations (fun s session' c h _ ↦ ⟨by simpa [shut] using h.1, ?_⟩) fun _ _ h ↦ h
  rw [isOpen_shut, h.2, Bool.false_and]

/-- A closed socket is not opened again. -/
theorem Gone.step {a : Action} {es : List Event} (h : s.Gone session)
    (hstep : step cb s a = some (s', es)) : s'.Gone session := by
  refine (step_keeps (Q := fun _ ↦ True) (kept_gone session) (fun _ _ ↦ trivial) ?_ ?_ ?_ ?_ h
    hstep).1
  · intro s session' data h
    refine Outcome.satisfies_emit ?_ trivial
    split_ifs
    · exact h
    · exact h.of_sessions (sessions_writeSome session' data)
  · exact fun _ h ↦ h
  · intro s i op completion h _ _
    exact ⟨by simpa [length_transmit] using h.1, (isOpen_transmit completion _ session).trans h.2⟩
  · intro s i completion answers h _ _
    refine handle_satisfies (kept_gone session) (fun _ _ ↦ trivial) completion answers h
      (fun _ ↦ ?_)
      (fun _ ↦ h) fun session' data length _ _ ↦ ?_
    · refine welcome_satisfies (kept_gone session) answers h ⟨?_, ?_⟩ trivial
      · rw [enroll, List.length_append]
        exact Nat.lt_add_right _ h.1
      · rw [isOpen_enroll, Bool.or_eq_false_iff, decide_eq_false_iff_not]
        exact ⟨h.2, h.1.ne⟩
    · exact h.of_sessions (sessions_writeSome session' (data.drop length))

/-- A session that is open remains open or is gone. -/
theorem isOpen_or_gone {a : Action} {es : List Event} (h : s.isOpen session = true)
    (hstep : step cb s a = some (s', es)) : s'.isOpen session = true ∨ s'.Gone session := by
  cases hopen : s'.isOpen session with
  | true => exact .inl rfl
  | false => exact .inr ⟨le_length_of_step hstep (Nat.succ_le_of_lt (lt_of_isOpen h)), hopen⟩

/-- Nothing is sent on the session alone. -/
def OnlyBroadcasts (session : ℕ) (as : List Action) : Prop := ∀ data, .asyncSend session data ∉ as

theorem OnlyBroadcasts.sends {a : Action} {as : List Action}
    (h : OnlyBroadcasts session (a :: as)) :
    a.sends session s = if s.isOpen session then broadcasts [a] else [] := by
  cases a with
  | broadcast data order => rfl
  | asyncSend session' data =>
    have hne : session' ≠ session := by
      rintro rfl
      exact h data List.mem_cons_self
    rw [Action.sends, if_neg hne]
    exact (ite_self []).symm
  | _ => exact (ite_self []).symm

theorem OnlyBroadcasts.tail {a : Action} {as : List Action} (h : OnlyBroadcasts session (a :: as)) :
    OnlyBroadcasts session as :=
  fun data hmem ↦ h data (List.mem_cons_of_mem a hmem)

theorem broadcasts_cons (a : Action) (as : List Action) :
    broadcasts (a :: as) = broadcasts [a] ++ broadcasts as := by
  rw [← List.singleton_append, broadcasts, List.filterMap_append]
  rfl

theorem sentOn_cons {t : TcpServer} {a : Action} {as : List Action} {es : List Event}
    (honly : OnlyBroadcasts session (a :: as)) (hstep : step cb s a = some (t, es)) :
    sentOn cb session s (a :: as)
      = (if s.isOpen session then broadcasts [a] else []) ++ sentOn cb session t as := by
  rw [sentOn, hstep, honly.sends]

theorem sentOn_of_gone {as : List Action} {h : List Event} (hgone : s.Gone session)
    (honly : OnlyBroadcasts session as) (hrun : (system cb).run s as = some (s', h)) :
    sentOn cb session s as = [] ∧ s'.Gone session := by
  induction as generalizing s h with
  | nil =>
    obtain ⟨rfl, -⟩ : s = s' ∧ [] = h := by simpa using hrun
    exact ⟨rfl, hgone⟩
  | cons a as ih =>
    obtain ⟨t, es, fs, hstep, hrest, -⟩ := System.run_cons_eq_some.mp hrun
    obtain ⟨hsent, hgone'⟩ := ih (hgone.step hstep) honly.tail hrest
    rw [sentOn_cons honly hstep, hgone.2, hsent]
    exact ⟨rfl, hgone'⟩

/-- From an open session on: the first of the broadcasts, or all of them. -/
theorem sentOn_of_isOpen {as : List Action} {h : List Event} (hopen : s.isOpen session = true)
    (honly : OnlyBroadcasts session as) (hrun : (system cb).run s as = some (s', h)) :
    ∃ late, broadcasts as = sentOn cb session s as ++ late ∧
      (s'.isOpen session = true → late = []) := by
  induction as generalizing s h with
  | nil => exact ⟨[], rfl, fun _ ↦ rfl⟩
  | cons a as ih =>
    obtain ⟨t, es, fs, hstep, hrest, -⟩ := System.run_cons_eq_some.mp hrun
    rw [sentOn_cons honly hstep, if_pos hopen, broadcasts_cons]
    obtain hopen' | hgone := isOpen_or_gone hopen hstep
    · obtain ⟨late, hlate, hnone⟩ := ih hopen' honly.tail hrest
      exact ⟨late, by rw [hlate, List.append_assoc], hnone⟩
    · obtain ⟨hsent, hgone'⟩ := sentOn_of_gone hgone honly.tail hrest
      refine ⟨broadcasts as, by rw [hsent, List.append_nil], fun hopen' ↦ ?_⟩
      exact absurd hopen' (by simp [hgone'.2])

theorem sentOn_segment {as : List Action} {h : List Event} (honly : OnlyBroadcasts session as)
    (hrun : (system cb).run s as = some (s', h)) :
    ∃ missed late, broadcasts as = missed ++ sentOn cb session s as ++ late ∧
      (s'.isOpen session = true → late = []) := by
  induction as generalizing s h with
  | nil => exact ⟨[], [], rfl, fun _ ↦ rfl⟩
  | cons a as ih =>
    by_cases hopen : s.isOpen session = true
    · obtain ⟨late, hlate, hnone⟩ := sentOn_of_isOpen hopen honly hrun
      exact ⟨[], late, hlate, hnone⟩
    · obtain ⟨t, es, fs, hstep, hrest, -⟩ := System.run_cons_eq_some.mp hrun
      obtain ⟨missed, late, hlate, hnone⟩ := ih honly.tail hrest
      refine ⟨broadcasts [a] ++ missed, late, ?_, hnone⟩
      rw [sentOn_cons honly hstep, if_neg hopen, broadcasts_cons, hlate]
      simp only [List.nil_append, List.append_assoc]

/-- **No gaps.** In a run in which nothing is sent on single sessions, what a session sends is a
part of the broadcasts without gaps: it misses the ones before it came and those after it has gone.
So of two sessions that are open, the one has sent exactly the last messages of the other. -/
theorem messages_segment (cb : Callbacks) (as : List Action) (s : TcpServer) (h : List Event)
    (hrun : (system cb).run init as = some (s, h)) (hlt : s.sessions.length < 2 ^ 64)
    (session : ℕ) (honly : OnlyBroadcasts session as) :
    (∃ missed late, broadcasts as = missed ++ messages session h ++ late ∧
      (s.isOpen session = true → late = [])) ∧
    ∀ other, OnlyBroadcasts other as → s.isOpen session = true → s.isOpen other = true →
      messages session h <:+ messages other h ∨ messages other h <:+ messages session h := by
  have hbook : Bookkept init := bookkept_of_run (System.run_nil (M := system cb) init)
  have hsegment : ∀ k, OnlyBroadcasts k as → ∃ missed late,
      broadcasts as = missed ++ messages k h ++ late ∧ (s.isOpen k = true → late = []) := by
    intro k honly
    rw [messages_eq hbook hrun hlt]
    exact sentOn_segment honly hrun
  have hsuffix : ∀ k, OnlyBroadcasts k as → s.isOpen k = true → messages k h <:+ broadcasts as := by
    intro k honly hopen
    obtain ⟨missed, late, hlate, hnone⟩ := hsegment k honly
    rw [hlate, hnone hopen, List.append_nil]
    exact List.suffix_append missed _
  refine ⟨hsegment session honly, fun other honly' hopen hopen' ↦ ?_⟩
  exact List.suffix_or_suffix_of_suffix (hsuffix session honly hopen) (hsuffix other honly' hopen')

theorem messages_segment_comeAndGoRun :
    ∃ s h, (system .allSet).run init comeAndGoRun = some (s, h) ∧
      ∃ missed late, broadcasts comeAndGoRun = missed ++ messages 1 h ++ late ∧
        (s.isOpen 1 = true → late = []) := by
  have hrun : (system .allSet).run init comeAndGoRun = some (_, _) := rfl
  exact ⟨_, _, hrun, (messages_segment .allSet _ _ _ hrun (by decide) 1
    (by simp [OnlyBroadcasts, comeAndGoRun, welcomeRun])).1⟩

/-! ## What the client is told -/

section Client

open Protocol Client Client.ClientApp

/-- What a connected client with a fresh adapter tells its event handler, when it has read `cs` of
what the server has sent on its session: the first of these messages. If `cs` is all of them and
each chunk completes at most one, it is told of all. -/
theorem calls_of_sentOn {sent : List Sent} {fs cs : List Bytes} {app app' : ClientApp}
    {calls : List HandlerCall} (hframes : List.Forall₂ (fun m f ↦ m.toFrame = .ok f) sent fs)
    (hpre : cs.flatten <+: fs.flatten) (hfresh : app.protocol = {})
    (hrun : receiving.run app cs = some (app', calls)) :
    calls <+: sent.map Sent.call ∧
      (cs.flatten = fs.flatten → CompletesAtMostOne fs cs → calls = sent.map Sent.call) := by
  obtain ⟨hcalls, -⟩ := calls_of_receiving hframes hpre hfresh hrun
  refine ⟨?_, fun hall hone ↦ ?_⟩
  · rw [hcalls]
    exact (List.take_prefix _ sent).map Sent.call
  · have hzero := arrived_zero_of_carries (Sent.forall₂_carries hframes)
    have htaken := (FrameCode.taken_eq_arrived_iff hzero cs).mpr hone cs.length le_rfl
    rw [List.take_length, hall, arrived_flatten] at htaken
    rw [hcalls, htaken, ← hframes.length_eq, List.take_length]

/-- What goes out on a session is the beginning of what is sent on it. -/
theorem wire_prefix_sentOn {as : List Action} {h : List Event}
    (hrun : (system cb).run init as = some (s, h)) (hlt : s.sessions.length < 2 ^ 64)
    (hsucceed : (system cb).Obeys (WritesSucceed cb session) init as)
    (halone : (system cb).Obeys (OneAtATime session) init as) :
    s.wire session <+: (sentOn cb session init as).flatten := by
  have hbook : Bookkept init := bookkept_of_run (System.run_nil (M := system cb) init)
  have horder := System.run_induction (I := InOrder session) (h := [])
    (fun hI hC hst ↦ hI.step hC.1 hC.2 hst) (inOrder_init session) (hsucceed.and halone) hrun
  rw [← messages_eq hbook hrun hlt]
  exact horder.orderly.isPrefix

/-- **From the server to the event handler.** In a run in which no write of a session fails and its
messages go out one at a time, the client that reads the session is told of the pushes, answers and
errors sent on it from the first on, each once and in order; and of all of them, when it has read
them all and each chunk completes at most one. -/
theorem calls_of_broadcasts (cb : Callbacks) (session : ℕ) (as : List Action) (s : TcpServer)
    (h : List Event) (hrun : (system cb).run init as = some (s, h))
    (hlt : s.sessions.length < 2 ^ 64)
    (hsucceed : (system cb).Obeys (WritesSucceed cb session) init as)
    (halone : (system cb).Obeys (OneAtATime session) init as)
    (sent : List Sent) (hframes : List.Forall₂ (fun m f ↦ m.toFrame = .ok f) sent
      (sentOn cb session init as))
    (cs : List Bytes) (hread : cs.flatten <+: s.wire session)
    (app app' : ClientApp) (hfresh : app.protocol = {}) (calls : List HandlerCall)
    (hreceive : receiving.run app cs = some (app', calls)) :
    calls <+: sent.map Sent.call ∧
      (cs.flatten = (sentOn cb session init as).flatten →
        CompletesAtMostOne (sentOn cb session init as) cs →
        calls = sent.map Sent.call) :=
  calls_of_sentOn hframes (hread.trans (wire_prefix_sentOn hrun hlt hsucceed halone)) hfresh
    hreceive

/-- A push goes out in two parts, and the answer to one of the client's own behind it. -/
def pushedSent : List Sent :=
  [⟨⟨.normal, .notification, .source1, [104, 105]⟩, 7, .push⟩,
    ⟨⟨.normal, .notification, .source1, []⟩, 8, .accepted⟩]

def pushedFrames : List Bytes :=
  [[0, 0, 0, 14, 0, 0, 0, 7, 1, 0, 0, 0, 0, 0, 0, 2, 104, 105],
    [0, 0, 0, 12, 0, 0, 0, 8, 2, 0, 0, 0, 0, 0, 0, 0]]

def pushedRun : List Action :=
  welcomeRun ++
    [.broadcast [0, 0, 0, 14, 0, 0, 0, 7, 1, 0, 0, 0, 0, 0, 0, 2, 104, 105] [0],
      .complete 2 (.write 0 [0, 0, 0, 14, 0, 0, 0, 7, 1, 0, 0, 0, 0, 0, 0, 2, 104, 105] 10 none),
      .handler 0 .ok, .complete 2 (.write 0 [0, 0, 0, 0, 0, 2, 104, 105] 8 none),
      .asyncSend 0 [0, 0, 0, 12, 0, 0, 0, 8, 2, 0, 0, 0, 0, 0, 0, 0],
      .complete 2 (.write 0 [0, 0, 0, 12, 0, 0, 0, 8, 2, 0, 0, 0, 0, 0, 0, 0] 16 none)]

theorem calls_of_broadcasts_pushedRun :
    ∃ s h app calls, (system .allSet).run init pushedRun = some (s, h) ∧
      receiving.run Client.ClientApp.init pushedFrames = some (app, calls) ∧
      calls = [.onPushReceived 7 ⟨.normal, .notification, .source1, [104, 105]⟩,
        .onAcceptPush 8] := by
  have hrun : (system .allSet).run init pushedRun = some (_, _) := rfl
  have hreceive : receiving.run Client.ClientApp.init pushedFrames = some (_, _) := rfl
  have htold := calls_of_broadcasts .allSet 0 pushedRun _ _ hrun (by decide) (by decide)
    (by decide) pushedSent
    (.cons rfl (.cons rfl .nil)) pushedFrames (by decide) _ _ rfl _ hreceive
  exact ⟨_, _, _, _, hrun, hreceive, htold.2 rfl (by decide)⟩

end Client

end TcpServer

end Server

end PushService
