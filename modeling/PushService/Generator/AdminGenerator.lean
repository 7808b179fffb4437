import PushService.Client.Rules
import PushService.Protocol.Push

/-!
# The admin generator and its authorisation

`AdminPushGenerator` sends the AUTH push before its first push. `asyncSend` only starts a write;
whether it goes through is known later, on the io thread, and the generator does not ask: it records
`authorized_` as soon as the send is started.

## Writing

The generator runs on its own thread over the `TcpClient` of the process. A push counts as written
when a write of its bytes completes without an error. The bytes stand in a vector on the stack of
the worker: those of the AUTH push until `SendAuthIfNeeded` returns, and those of any other push
until its round is over. A write that completes later reads freed memory. What it finds there may be
anything (`freed`).

## The condition

An admin push is written before the AUTH push, or without it, in two ways. `SendAuthIfNeeded`
returns while the write of the AUTH push is in flight, as it does when the connect of `main` is
still under way: then it is not the AUTH push that is written. Or this write has failed, and an
admin push is sent on an open socket: for that it is enough that the connection is lost when the
generator starts, and comes back. `Prompt` excludes the two.
-/

namespace PushService

namespace Generator

open Client

variable (login password : Bytes) (cb : Callbacks) (freed : ℕ → ℕ → UInt8)

/-! ## The pushes -/

/-- The push of `SendAuthIfNeeded`, whose text is `AUTH|login|password`. -/
def authPush : Push :=
  ⟨.high, .notification, .source1, [65, 85, 84, 72, 124] ++ login ++ [124] ++ password⟩

/-- `RandomPushFactory::CreateAdminPush`, whose text is `[ADMIN] System alert`. -/
def createAdminPush : Push :=
  ⟨.critical, .error, .source1,
    [91, 65, 68, 77, 73, 78, 93, 32, 83, 121, 115, 116, 101, 109, 32, 97, 108, 101, 114, 116]⟩

def authBytes : Bytes :=
  BinaryPushSerializer.serialize (authPush login password)

def adminBytes : Bytes :=
  BinaryPushSerializer.serialize createAdminPush

theorem authBytes_ne_nil : authBytes login password ≠ [] :=
  List.cons_ne_nil _ _

theorem adminBytes_ne_nil : adminBytes ≠ [] :=
  List.cons_ne_nil _ _

/-- The two differ in their first byte, the priority. -/
theorem authBytes_ne_adminBytes : authBytes login password ≠ adminBytes := by
  intro h
  have hpriority : PushPriority.high.toByte = PushPriority.critical.toByte := (List.cons.inj h).1
  exact absurd hpriority (by decide)

/-! ## The generator -/

/-- Where the worker thread is. -/
inductive Worker
  /-- There is no thread. -/
  | none
  /-- In `Run`, before the test of `running_`. -/
  | loop
  /-- In `SendAuthIfNeeded`, before the test of `authorized_`. -/
  | test
  /-- Before the `asyncSend` of the AUTH push. -/
  | sendAuth
  /-- Before `authorized_ = true`, with which `SendAuthIfNeeded` ends. -/
  | record
  /-- In `Run`, before the `asyncSend` of the push. -/
  | send
  /-- In `sleep_for`, with which the round ends. -/
  | sleep
  deriving DecidableEq, Repr

/-- The generator and its client. -/
structure AdminGenerator where
  running : Bool
  authorized : Bool
  worker : Worker
  /-- The vector on the stack of the worker, if it has been handed to `asyncSend`: the number of the
  call, and the bytes. -/
  bytes : Option (ℕ × Bytes)
  client : TcpClient

/-- What can be observed. -/
inductive Event
  | client (e : TcpClient.Event)
  /-- A write of these bytes has completed without an error. -/
  | written (data : Bytes)
  /-- `[ADMIN] Authorization sent` is printed. -/
  | authorizationSent
  deriving DecidableEq, Repr

inductive Action
  | start
  /-- `Stop` writes `running_`. -/
  | stop
  /-- The worker thread takes its next step. -/
  | run
  /-- Something happens to the client, other than a send. -/
  | client (a : TcpClient.Action)

namespace AdminGenerator

/-- The generator as it is constructed, over a client. -/
def init (client : TcpClient) : AdminGenerator :=
  ⟨false, false, .none, none, client⟩

variable (g : AdminGenerator)

/-- `client_.asyncSend(bytes)`, after which the worker thread is at `place`. -/
def asyncSend (data : Bytes) (place : Worker) (es : List Event) :
    AdminGenerator × List Event :=
  let (client, outputs) := TcpClient.settle (TcpClient.asyncSend data g.client)
  ({ g with client := client, worker := place, bytes := some (g.client.sends, data) },
    outputs.map .client ++ es)

/-- The next step of the worker thread. -/
def run : Option (AdminGenerator × List Event) :=
  match g.worker with
  | .none => none
  | .loop => some ({ g with worker := if g.running then .test else .none }, [])
  | .test => some ({ g with worker := if g.authorized then .send else .sendAuth }, [])
  | .sendAuth => some (g.asyncSend (authBytes login password) .record [.authorizationSent])
  | .record => some ({ g with authorized := true, worker := .send, bytes := none }, [])
  | .send => some (g.asyncSend adminBytes .sleep [])
  | .sleep => some ({ g with worker := .loop, bytes := none }, [])

/-- What a write finds where the vector of the call is, or was: `freed` says what stands in memory
that has been freed, for each call and byte by byte. -/
def found (call size : ℕ) : Bytes :=
  match g.bytes with
  | some (n, data) => if n = call then data else (List.range size).map (freed call)
  | none => (List.range size).map (freed call)

/-- The bytes whose write completes without an error. -/
def written : TcpClient.Action → List Event
  | .complete i (.write .none _) =>
    match g.client.operations.pending[i]? with
    | some (.write call size) => [.written (g.found freed call size)]
    | _ => []
  | _ => []

/-- Something happens to the client. -/
def clientStep : TcpClient.Action → Option (AdminGenerator × List Event)
  | .asyncSend _ => none
  | a =>
    (TcpClient.step cb g.client a).map fun r ↦
      ({ g with client := r.1 }, r.2.map .client ++ g.written freed a)

def step : Action → Option (AdminGenerator × List Event)
  | .start =>
    match g.worker with
    | .none => some ({ g with running := true, worker := .loop }, [])
    | _ => none
  | .stop => some ({ g with running := false }, [])
  | .run => g.run login password
  | .client a => g.clientStep cb freed a

/-- The generator with its client. -/
def system : System AdminGenerator Action Event :=
  ⟨step login password cb freed⟩

end AdminGenerator

/-! ## The condition -/

/-- The AUTH push has been written. -/
def authWritten (w : Bool) : Event → Bool
  | .written data => w || data == authBytes login password
  | .client _ | .authorizationSent => w

/-- The generator, with whether the AUTH push has been written. -/
def observedSystem : System (AdminGenerator × Bool) Action Event :=
  (AdminGenerator.system login password cb freed).observed (authWritten login password)

/-- The write from the vector on the stack of the worker is in flight. -/
def InFlight (g : AdminGenerator) : Prop :=
  ∃ b ∈ g.bytes, .write b.1 b.2.length ∈ g.client.operations.pending

instance (g : AdminGenerator) : Decidable (InFlight g) :=
  inferInstanceAs (Decidable (∃ b ∈ g.bytes, _))

/-- Until the AUTH push has been written, `SendAuthIfNeeded` does not return while its write is in
flight, and no admin push is sent on an open socket. -/
def Prompt (p : AdminGenerator × Bool) : Action → Prop
  | .run =>
    p.2 = false → (p.1.worker = .record → ¬InFlight p.1) ∧
      (p.1.worker = .send → p.1.client.socketOpen = false)
  | .start | .stop | .client _ => True

instance (p : AdminGenerator × Bool) : ∀ a, Decidable (Prompt p a)
  | .run => inferInstanceAs (Decidable (_ → _))
  | .start | .stop | .client _ => isTrue trivial

/-! ## The writes in flight -/

/-- Until the AUTH push has been written, nothing is in flight but its write, and that only while
its vector is there. -/
def Guarded (p : AdminGenerator × Bool) : Prop :=
  p.2 = false → ∀ call size, .write call size ∈ p.1.client.operations.pending →
    p.1.worker = .record ∧ p.1.bytes = some (call, authBytes login password) ∧
      size = (authBytes login password).length

variable {login password cb freed} {w : Bool} {c c' : TcpClient} {g g' : AdminGenerator}

theorem kept_writes (W : ℕ → ℕ → Prop) :
    TcpClient.Kept fun c ↦ ∀ call size, .write call size ∈ c.operations.pending → W call size where
  lastOpSuccess _ _ h := h
  wasConnected _ _ h := h
  reconnectCount _ _ h := h
  endpoints _ _ h := h
  stopReconnect _ h := h
  ioStopped _ _ h := h
  abortSocket _ h := fun call size hmem ↦ h call size (List.mem_filter.mp hmem).1
  closeSocket _ _ h := h
  abortTimer _ h := fun call size hmem ↦ h call size (List.mem_filter.mp hmem).1

/-- Only a send starts a write. -/
theorem writes_of_step {W : ℕ → ℕ → Prop} {a : TcpClient.Action} {es : List TcpClient.Event}
    (h : ∀ call size, .write call size ∈ c.operations.pending → W call size)
    (hsend : ∀ data, a ≠ .asyncSend data) (hcomplete : ∀ i completion, a ≠ .complete i completion)
    (hstep : TcpClient.step cb c a = some (c', es)) :
    ∀ call size, .write call size ∈ c'.operations.pending → W call size := by
  refine (TcpClient.step_keeps_of_starts (kept_writes W) (fun _ _ h ↦ h) (fun _ h ↦ h) ?_ ?_ ?_ h
    hsend hcomplete hstep).1
  · intro c h
    rw [TcpClient.doConnect]
    split
    · exact h
    · intro call size hmem
      rcases List.mem_append.mp hmem with hmem | hmem
      · exact h call size (List.mem_filter.mp hmem).1
      · exact absurd hmem (by simp)
  · intro c h
    rw [TcpClient.doRead]
    split_ifs
    · intro call size hmem
      rcases List.mem_append.mp hmem with hmem | hmem
      · exact h call size hmem
      · exact absurd hmem (by simp)
    · exact h
  · intro c h call size hmem
    rcases List.mem_append.mp hmem with hmem | hmem
    · exact h call size (List.mem_filter.mp hmem).1
    · exact absurd hmem (by simp)

/-- A send starts a write on an open socket and none on a closed one. -/
theorem pending_asyncSend {data : Bytes} (hdata : data ≠ []) (c : TcpClient) :
    (TcpClient.asyncSend data c).state.operations.pending =
      if c.socketOpen then c.operations.pending ++ [.write c.sends data.length]
      else c.operations.pending := by
  dsimp only [TcpClient.asyncSend, Outcome.emit]
  rw [if_neg hdata]
  cases c.socketOpen with
  | true => rfl
  | false => rfl

theorem Guarded.of_written (hw : w = true) : Guarded login password (g, w) :=
  fun hnot ↦ absurd (hnot.symm.trans hw) (by simp)

/-- What is in flight afterwards was in flight before, and the worker has not moved. -/
theorem Guarded.of_client (h : Guarded login password (g, w))
    (hsubset : ∀ call size, .write call size ∈ c.operations.pending →
      .write call size ∈ g.client.operations.pending) :
    Guarded login password ({ g with client := c }, w) :=
  fun hw call size hmem ↦ h hw call size (hsubset call size hmem)

theorem Guarded.eq_nil (h : Guarded login password (g, w)) (hw : w = false)
    (hworker : g.worker ≠ .record) :
    ∀ call size, .write call size ∉ g.client.operations.pending :=
  fun call size hmem ↦ hworker (h hw call size hmem).1

/-- The worker moves where nothing is in flight. -/
theorem Guarded.move
    (hg : w = false → ∀ call size, .write call size ∉ g'.client.operations.pending) :
    Guarded login password (g', w) :=
  fun hw call size hmem ↦ absurd hmem (hg hw call size)

/-- The worker sends the AUTH push. -/
theorem Guarded.sendAuth (h : Guarded login password (g, w)) (hworker : g.worker = .sendAuth) :
    Guarded login password
      ((g.asyncSend (authBytes login password) .record [.authorizationSent]).1, w) := by
  intro hw call size hmem
  change _ ∈ (TcpClient.asyncSend (authBytes login password) g.client).state.operations.pending
    at hmem
  rw [pending_asyncSend (authBytes_ne_nil login password)] at hmem
  have hnone := h.eq_nil hw (by simp [hworker]) call size
  split_ifs at hmem
  · obtain ⟨rfl, rfl⟩ := Op.write.inj (List.mem_singleton.mp
      ((List.mem_append.mp hmem).resolve_left hnone))
    exact ⟨rfl, rfl, rfl⟩
  · exact absurd hmem hnone

/-! ## The order of the writes -/

/-- The AUTH push is written before any admin push is. -/
def AuthFirst (login password : Bytes) (h : List Event) : Prop :=
  System.EachOutput
    (fun before e ↦ e = .written adminBytes → .written (authBytes login password) ∈ before) h

/-- The invariant of the generator: what is in flight is guarded, what is known of the AUTH push is
true, and so far it came first. -/
structure Inv (login password : Bytes) (p : AdminGenerator × Bool) (h : List Event) : Prop where
  guarded : Guarded login password p
  known : p.2 = true → .written (authBytes login password) ∈ h
  authFirst : AuthFirst login password h

variable {h es : List Event}

/-- What the summary of a history says. -/
theorem foldl_authWritten : es.foldl (authWritten login password) w = true ↔
    w = true ∨ .written (authBytes login password) ∈ es := by
  induction es generalizing w with
  | nil => simp
  | cons e es ih =>
    rw [List.foldl_cons, ih]
    cases e with
    | written data =>
      simp only [authWritten, Bool.or_eq_true, beq_iff_eq, List.mem_cons, Event.written.injEq,
        or_assoc, eq_comm (a := data)]
    | client e | authorizationSent => simp [authWritten]

/-- Where nothing is written the order of the writes stays, and so does what is known. -/
theorem Inv.silent (hI : Inv login password (g, w) h) (hes : ∀ data, .written data ∉ es)
    (hguarded : Guarded login password (g', w)) :
    Inv login password (g', es.foldl (authWritten login password) w) (h ++ es) := by
  have hfold : es.foldl (authWritten login password) w = w :=
    Bool.eq_iff_iff.mpr (foldl_authWritten.trans (or_iff_left (hes _)))
  rw [hfold]
  refine ⟨hguarded, fun hw ↦ List.mem_append_left _ (hI.known hw), hI.authFirst.append ?_⟩
  rintro es₁ e es₂ rfl rfl
  exact absurd (by simp) (hes adminBytes)

/-- A write completes without an error. -/
theorem Inv.write {data : Bytes} (hI : Inv login password (g, w) h)
    (hdata : w = true ∨ data = authBytes login password) :
    Inv login password (g', authWritten login password w (.written data))
      (h ++ [.written data]) := by
  have hwritten : authWritten login password w (.written data) = true := by
    rcases hdata with hw | rfl
    · simp [authWritten, hw]
    · simp [authWritten]
  refine ⟨Guarded.of_written hwritten, fun _ ↦ ?_, hI.authFirst.concat fun hadmin ↦ ?_⟩
  · rcases hdata with hw | rfl
    · exact List.mem_append_left _ (hI.known hw)
    · exact List.mem_append_right _ List.mem_cons_self
  · rcases hdata with hw | rfl
    · exact hI.known hw
    · exact absurd (Event.written.inj hadmin) (authBytes_ne_adminBytes login password)

/-- A step of the client is one of the `TcpClient`. -/
theorem clientStep_eq_some {a : TcpClient.Action}
    (hstep : g.clientStep cb freed a = some (g', es)) :
    (∀ data, a ≠ .asyncSend data) ∧
      ∃ c' outputs, TcpClient.step cb g.client a = some (c', outputs) ∧
      g' = { g with client := c' } ∧ es = outputs.map .client ++ g.written freed a := by
  have hmap : (∀ data, a ≠ .asyncSend data) ∧ (TcpClient.step cb g.client a).map (fun r ↦
      ({ g with client := r.1 }, r.2.map Event.client ++ g.written freed a)) = some (g', es) := by
    cases a with
    | asyncSend data => exact absurd hstep (by simp [AdminGenerator.clientStep])
    | setEndpoint | connect | close | complete | handler | ioStop | ioRestart =>
      exact ⟨by simp, hstep⟩
  obtain ⟨⟨c', outputs⟩, hclient, heq⟩ := Option.map_eq_some_iff.mp hmap.2
  obtain ⟨rfl, rfl⟩ := Prod.mk.inj heq
  exact ⟨hmap.1, c', outputs, hclient, rfl, rfl⟩

/-- A write completes, or something else does. -/
theorem Inv.complete {i : ℕ} {completion : Completion} (hI : Inv login password (g, w) h)
    (hstep : g.clientStep cb freed (.complete i completion) = some (g', es)) :
    Inv login password (g', es.foldl (authWritten login password) w) (h ++ es) := by
  obtain ⟨-, c', outputs, hclient, rfl, rfl⟩ := clientStep_eq_some hstep
  obtain ⟨op, hop, hcompletes, hr⟩ := TcpClient.step_complete_eq_some hclient
  obtain ⟨rfl, rfl⟩ := Prod.mk.inj hr
  have hsilent : g.written freed (.complete i completion) = [] →
      Inv login password ({ g with client := { g.client with
          operations := g.client.operations.complete i completion } },
        (g.written freed (.complete i completion)).foldl (authWritten login password) w)
        (h ++ g.written freed (.complete i completion)) := by
    intro hnone
    rw [hnone]
    exact hI.silent (by simp) (hI.guarded.of_client fun _ _ hmem ↦ List.eraseIdx_subset hmem)
  cases completion with
  | connect ec | read connection result | wait ec => exact hsilent rfl
  | write ec length =>
    cases ec with
    | some ec => exact hsilent rfl
    | none =>
      cases op with
      | connect | read | wait => exact hcompletes.elim
      | write call size =>
        have hes : g.written freed (.complete i (.write none length))
            = [.written (g.found freed call size)] := by
          simp [AdminGenerator.written, hop]
        simp only [hes, List.map_nil, List.nil_append]
        refine hI.write ?_
        cases hw : w with
        | true => exact .inl rfl
        | false =>
          -- nothing else is in flight, so it is the AUTH push that is found
          have hbytes : g.bytes = some (call, authBytes login password) :=
            (hI.guarded hw call size (List.mem_of_getElem? hop)).2.1
          exact .inr (by simp [AdminGenerator.found, hbytes])

theorem Inv.clientStep {a : TcpClient.Action} (hI : Inv login password (g, w) h)
    (hstep : g.clientStep cb freed a = some (g', es)) :
    Inv login password (g', es.foldl (authWritten login password) w) (h ++ es) := by
  obtain ⟨hsend, c', outputs, hclient, rfl, rfl⟩ := clientStep_eq_some hstep
  cases a with
  | asyncSend data => exact absurd rfl (hsend data)
  | complete i completion => exact hI.complete hstep
  | setEndpoint | connect | close | handler | ioStop | ioRestart =>
    refine hI.silent (by simp [AdminGenerator.written]) (hI.guarded.of_client ?_)
    exact writes_of_step (W := fun call size ↦ .write call size ∈ g.client.operations.pending)
      (fun _ _ hmem ↦ hmem) (by simp) (by simp) hclient

theorem Inv.runStep (hI : Inv login password (g, w) h) (hC : Prompt (g, w) .run)
    (hstep : g.run login password = some (g', es)) :
    Inv login password (g', es.foldl (authWritten login password) w) (h ++ es) := by
  unfold AdminGenerator.run at hstep
  cases hworker : g.worker with
  | none => simp [hworker] at hstep
  | loop | test | sleep =>
    simp only [hworker] at hstep
    obtain ⟨rfl, rfl⟩ := Prod.mk.inj (Option.some_inj.mp hstep)
    exact hI.silent (by simp)
      (Guarded.move fun hw ↦ hI.guarded.eq_nil hw (by simp [hworker]))
  | sendAuth =>
    simp only [hworker] at hstep
    obtain ⟨rfl, rfl⟩ := Prod.mk.inj (Option.some_inj.mp hstep)
    exact hI.silent (by simp) (hI.guarded.sendAuth hworker)
  | record =>
    simp only [hworker] at hstep
    obtain ⟨rfl, rfl⟩ := Prod.mk.inj (Option.some_inj.mp hstep)
    refine hI.silent (by simp) (Guarded.move fun hw call size hmem ↦ ?_)
    obtain ⟨-, hbytes, rfl⟩ := hI.guarded hw call size hmem
    exact (hC hw).1 hworker ⟨_, hbytes, hmem⟩
  | send =>
    simp only [hworker] at hstep
    obtain ⟨rfl, rfl⟩ := Prod.mk.inj (Option.some_inj.mp hstep)
    refine hI.silent (by simp) (Guarded.move fun hw ↦ ?_)
    change ∀ call size,
      _ ∉ (TcpClient.asyncSend adminBytes g.client).state.operations.pending
    rw [pending_asyncSend adminBytes_ne_nil, (hC hw).2 hworker]
    exact hI.guarded.eq_nil hw (by simp [hworker])

theorem Inv.step {p q : AdminGenerator × Bool} {a : Action} (hI : Inv login password p h)
    (hC : Prompt p a) (hstep : (observedSystem login password cb freed).step p a = some (q, es)) :
    Inv login password q (h ++ es) := by
  obtain ⟨g, w⟩ := p
  obtain ⟨g', w'⟩ := q
  obtain ⟨hstep, hw⟩ := System.observed_step_eq_some.mp hstep
  obtain rfl : w' = es.foldl (authWritten login password) w := hw
  cases a with
  | start =>
    simp only [AdminGenerator.system, AdminGenerator.step] at hstep
    split at hstep
    · rename_i hworker
      obtain ⟨rfl, rfl⟩ := Prod.mk.inj (Option.some_inj.mp hstep)
      exact hI.silent (by simp)
        (Guarded.move fun hw ↦ hI.guarded.eq_nil hw (by simp [hworker]))
    · exact absurd hstep (by simp)
  | stop =>
    obtain ⟨rfl, rfl⟩ := Prod.mk.inj (Option.some_inj.mp hstep)
    exact hI.silent (by simp) hI.guarded
  | run => exact hI.runStep hC hstep
  | client a => exact hI.clientStep hstep

/-- The generator as `main` constructs it. -/
def AdminGenerator.start : AdminGenerator :=
  .init .init

/-- In every run whose steps are prompt the AUTH push is written before any admin push is, whatever
stands in freed memory. -/
theorem authFirst_of_prompt {as : List Action}
    (hC : (observedSystem login password cb freed).Obeys Prompt (.start, false) as)
    (hrun : (AdminGenerator.system login password cb freed).run .start as = some (g, h)) :
    AuthFirst login password h := by
  have hobserved := System.run_observed_of_run (authWritten login password) false hrun
  have hinit : Inv login password (.start, false) [] :=
    ⟨fun _ _ _ hmem ↦ absurd hmem List.not_mem_nil, by simp, System.eachOutput_nil⟩
  exact (System.run_induction (I := Inv login password) (h := [])
    (fun hI hC hstep ↦ hI.step hC hstep) hinit hC hobserved).authFirst

/-- The callbacks of `main`, which sets none. -/
def mainCallbacks : Callbacks :=
  ⟨false, false, false, false, false, false⟩

/-- The client connects before the generator starts, and the socket takes both writes at once. -/
def authorizedRun : List Action :=
  [.client (.setEndpoint (.ok [⟨"127.0.0.1", 8080⟩])), .client .connect,
    .client (.complete 0 (.connect none)), .client (.handler 0 .ok), .start, .run, .run, .run,
    .client (.complete 1 (.write none 15)), .run, .run, .client (.complete 1 (.write none 27))]

theorem authFirst_of_prompt_authorizedRun :
    ∃ g h, (AdminGenerator.system [97] [98] mainCallbacks fun _ _ ↦ 0).run .start authorizedRun
      = some (g, h) ∧ .written adminBytes ∈ h ∧ AuthFirst [97] [98] h :=
  have hC : (observedSystem [97] [98] mainCallbacks fun _ _ ↦ 0).Obeys Prompt (.start, false)
    authorizedRun := by decide
  ⟨_, _, rfl, by decide, authFirst_of_prompt hC rfl⟩

/-- The connection is lost before the AUTH push goes out. The next push finds the socket closed, the
one after it is written on a new connection. -/
def unauthorizedRun : List Action :=
  [.client (.setEndpoint (.ok [⟨"127.0.0.1", 8080⟩])), .client .connect,
    .client (.complete 0 (.connect none)), .client (.handler 0 .ok), .start, .run, .run, .run,
    .client (.complete 1 (.write (some (.other "Connection reset by peer")) 0)), .run,
    .client (.complete 0 (.read 1 (.error (.other "Connection reset by peer")))),
    .client (.handler 0 .ok), .client (.handler 0 .ok), .run, .client (.handler 0 .ok), .run,
    .client (.complete 0 (.wait none)), .client (.handler 0 .ok),
    .client (.complete 0 (.connect none)), .client (.handler 0 .ok), .run, .run, .run,
    .client (.complete 1 (.write none 27))]

/-- What `main` does when the worker is faster than the connect. The write of the AUTH push waits
until the socket is connected, and finds zeros. -/
def deferredRun : List Action :=
  [.client (.setEndpoint (.ok [⟨"127.0.0.1", 8080⟩])), .client .connect, .start, .run, .run, .run,
    .run, .run, .client (.complete 0 (.connect none)), .client (.handler 0 .ok),
    .client (.complete 0 (.write none 15)), .client (.complete 0 (.write none 27))]

theorem not_authFirst_unauthorizedRun_deferredRun :
    (∃ g h, (AdminGenerator.system [97] [98] mainCallbacks fun _ _ ↦ 0).run .start unauthorizedRun
        = some (g, h) ∧
      .written adminBytes ∈ h ∧ .written (authBytes [97] [98]) ∉ h) ∧
    ∃ g h, (AdminGenerator.system [97] [98] mainCallbacks fun _ _ ↦ 0).run .start deferredRun
        = some (g, h) ∧
      .written adminBytes ∈ h ∧ .written (authBytes [97] [98]) ∉ h :=
  ⟨⟨_, _, rfl, by decide, by decide⟩, ⟨_, _, rfl, by decide, by decide⟩⟩

/-! ## Steps that are not prompt -/

/-- The operations of the client run on its open socket. -/
theorem grounded_of_step {a : Action} (hg : g.client.Grounded)
    (hstep : (AdminGenerator.system login password cb freed).step g a = some (g', es)) :
    g'.client.Grounded := by
  cases a with
  | start =>
    simp only [AdminGenerator.system, AdminGenerator.step] at hstep
    split at hstep
    · obtain ⟨rfl, -⟩ := Prod.mk.inj (Option.some_inj.mp hstep)
      exact hg
    · exact absurd hstep (by simp)
  | stop =>
    obtain ⟨rfl, -⟩ := Prod.mk.inj (Option.some_inj.mp hstep)
    exact hg
  | run =>
    replace hstep : g.run login password = some (g', es) := hstep
    unfold AdminGenerator.run at hstep
    split at hstep
    · exact absurd hstep (by simp)
    all_goals obtain ⟨rfl, -⟩ := Prod.mk.inj (Option.some_inj.mp hstep)
    · exact hg
    · exact hg
    · exact hg.asyncSend _
    · exact hg
    · exact hg.asyncSend _
    · exact hg
  | client a =>
    obtain ⟨-, c', outputs, hclient, rfl, -⟩ := clientStep_eq_some hstep
    exact hg.step hclient

theorem grounded_of_run {as : List Action}
    (hrun : (AdminGenerator.system login password cb freed).run .start as = some (g, h)) :
    g.client.Grounded :=
  System.run_invariant (I := fun g _ ↦ g.client.Grounded) (h := [])
    (fun hI hstep ↦ grounded_of_step hI hstep) (fun _ _ hop ↦ absurd hop List.not_mem_nil) hrun

/-- An admin push that is sent on an open socket can be written at once. -/
theorem exists_written_of_send (cb : Callbacks) (freed : ℕ → ℕ → UInt8)
    (hworker : g.worker = .send) (hopen : g.client.socketOpen = true)
    (hauth : .written (authBytes login password) ∉ h) :
    ∃ a g' es, (AdminGenerator.system login password cb freed).run g [.run, a] = some (g', es) ∧
      ¬AuthFirst login password (h ++ es) := by
  obtain ⟨g₁, hg₁⟩ : ∃ g₁, (g.asyncSend adminBytes .sleep []).1 = g₁ := ⟨_, rfl⟩
  have hsend : (AdminGenerator.system login password cb freed).step g .run
      = some (g₁, [.client (.asyncWrite adminBytes)]) := by
    simp [AdminGenerator.system, AdminGenerator.step, AdminGenerator.run, hworker, ← hg₁,
      AdminGenerator.asyncSend, TcpClient.settle, TcpClient.asyncSend, Outcome.emit]
  have hpending : g₁.client.operations.pending[g.client.operations.pending.length]?
      = some (.write g.client.sends adminBytes.length) := by
    have hall := pending_asyncSend adminBytes_ne_nil g.client
    rw [if_pos hopen] at hall
    rw [← hg₁]
    change (TcpClient.asyncSend adminBytes g.client).state.operations.pending[_]? = _
    rw [hall, List.getElem?_concat_length]
  have hbytes : g₁.bytes = some (g.client.sends, adminBytes) := by
    rw [← hg₁]
    rfl
  have hwrite : (AdminGenerator.system login password cb freed).step g₁
      (.client (.complete g.client.operations.pending.length (.write none adminBytes.length)))
      = some ({ g₁ with client := { g₁.client with
          operations := g₁.client.operations.complete g.client.operations.pending.length
            (.write none adminBytes.length) } }, [.written adminBytes]) := by
    simp [AdminGenerator.system, AdminGenerator.step, AdminGenerator.clientStep, TcpClient.step,
      hpending, Op.Completes, AdminGenerator.written, AdminGenerator.found, hbytes]
  refine ⟨_, _, _, System.run_cons_eq_some.mpr ⟨_, _, _, hsend, System.run_singleton hwrite, rfl⟩,
    fun hfirst ↦ ?_⟩
  have hbefore := hfirst (h ++ [.client (.asyncWrite adminBytes)]) (.written adminBytes) []
    (by simp) rfl
  exact hauth (by simpa using hbefore)

/-- When `SendAuthIfNeeded` returns while the write of the AUTH push is in flight, its vector is
gone, and the worker goes on to the admin push. -/
theorem exists_written_of_record (cb : Callbacks) (freed : ℕ → ℕ → UInt8)
    (hworker : g.worker = .record) (hin : InFlight g) (hg : g.client.Grounded)
    (hauth : .written (authBytes login password) ∉ h) :
    ∃ a g' es, (AdminGenerator.system login password cb freed).run g [.run, .run, a]
        = some (g', es) ∧
      ¬AuthFirst login password (h ++ es) := by
  obtain ⟨b, hb, hmem⟩ := hin
  have hopen : g.client.socketOpen = true := by
    by_contra hclosed
    exact absurd (hg (by simpa using hclosed) _ hmem) (by simp [Op.onSocket])
  have hstep : (AdminGenerator.system login password cb freed).step g .run
      = some ({ g with authorized := true, worker := .send, bytes := none }, []) := by
    simp [AdminGenerator.system, AdminGenerator.step, AdminGenerator.run, hworker]
  obtain ⟨a, g', es, hrun, hviolated⟩ := exists_written_of_send cb freed
    (g := { g with authorized := true, worker := .send, bytes := none }) rfl hopen hauth
  exact ⟨a, g', es, System.run_cons_eq_some.mpr ⟨_, _, _, hstep, hrun, rfl⟩, hviolated⟩

/-- **A step that is not prompt is close to a violation.** The first one of a run can be continued,
by two steps at most, to a run in which an admin push is written and the AUTH push was not. -/
theorem exists_not_authFirst_of_not_obeys {as : List Action}
    (hrun : (AdminGenerator.system login password cb freed).run .start as = some (g, h))
    (hnot : ¬(observedSystem login password cb freed).Obeys Prompt (.start, false) as) :
    ∃ bs a cs g' h', bs ++ [a] <+: as ∧
      (observedSystem login password cb freed).Obeys Prompt (.start, false) bs ∧
      ¬(observedSystem login password cb freed).Obeys Prompt (.start, false) (bs ++ [a]) ∧
      cs.length ≤ 2 ∧
      (AdminGenerator.system login password cb freed).run .start (bs ++ a :: cs) = some (g', h') ∧
      ¬AuthFirst login password h' := by
  have hobserved := System.run_observed_of_run (authWritten login password) false hrun
  obtain ⟨bs, a, cs, u, fs, rfl, hbs, hobeys, hbreach⟩ := System.exists_first_breach hobserved hnot
  obtain ⟨g₁, h₁, _, hrun₁, -, -⟩ := System.run_append_eq_some.mp hrun
  -- the state of the observed run is that of the run with its summary
  have hsame := System.run_observed_of_run (authWritten login password) false hrun₁
  obtain ⟨rfl, rfl⟩ := Prod.mk.inj (Option.some_inj.mp (hsame.symm.trans hbs))
  have hbreak : ¬(observedSystem login password cb freed).Obeys Prompt (.start, false)
      (bs ++ [a]) := fun hall ↦ hbreach ((System.obeys_append.mp hall).2 _ hbs).1
  cases a with
  | start | stop | client => exact absurd trivial hbreach
  | run =>
    obtain ⟨hw, hbad⟩ := Classical.not_imp.mp hbreach
    have hauth : .written (authBytes login password) ∉ h₁ := fun hmem ↦
      absurd (foldl_authWritten.mpr (.inr hmem)) (by simpa using hw)
    rcases not_and_or.mp hbad with hrecord | hsend
    · obtain ⟨hworker, hin⟩ := Classical.not_imp.mp hrecord
      obtain ⟨a, g', es, hrun₂, hviolated⟩ := exists_written_of_record cb freed hworker
        (not_not.mp hin) (grounded_of_run hrun₁) hauth
      refine ⟨bs, .run, [.run, a], g', h₁ ++ es, ⟨cs, by simp⟩, hobeys, hbreak, le_rfl, ?_,
        hviolated⟩
      exact System.run_append_eq_some.mpr ⟨g₁, h₁, es, hrun₁, hrun₂, rfl⟩
    · obtain ⟨hworker, hopen⟩ := Classical.not_imp.mp hsend
      obtain ⟨a, g', es, hrun₂, hviolated⟩ :=
        exists_written_of_send cb freed hworker (by simpa using hopen) hauth
      refine ⟨bs, .run, [a], g', h₁ ++ es, ⟨cs, by simp⟩, hobeys, hbreak, by simp, ?_, hviolated⟩
      exact System.run_append_eq_some.mpr ⟨g₁, h₁, es, hrun₁, hrun₂, rfl⟩

end Generator

end PushService
