import PushService.Client.Closing

/-!
# Every connect and every write is reported once

`connect` and `asyncSend` return nothing: what became of the operation, the owner hears from one of
the callbacks, and the handlers of a connect and of a write call exactly one of two. No operation is
lost on the way. Closing the socket or opening it anew does not take an operation back but aborts
it, and its handler still runs; a socket that is not open, an empty list of endpoints and an empty
message complete at once. So the operations started are those reported and those in flight
(`started_eq_reported`), whatever the order in which they complete and their handlers run.
-/

namespace PushService

namespace Client

/-- The operations whose result is reported. -/
inductive Reported
  | connect
  | write
  deriving DecidableEq, Repr

namespace Reported

variable (k : Reported)

def isOp : Reported → Op → Bool
  | connect, .connect => true
  | write, .write _ _ => true
  | _, _ => false

def isCompletion : Reported → Completion → Bool
  | connect, .connect _ => true
  | write, .write _ _ => true
  | _, _ => false

/-- The event starts such an operation. -/
def starts : Reported → TcpClient.Event → Bool
  | connect, .asyncConnect _ => true
  | write, .asyncWrite _ => true
  | _, _ => false

/-- The event reports the result of such an operation, one that has failed by its message. -/
def reports : Reported → TcpClient.Event → Bool
  | connect, .onConnected _ => true
  | connect, .onError message => message == "Connect error"
  | write, .onDataSend _ => true
  | write, .onError message => "Send error: ".toList.isPrefixOf message.toList
  | _, _ => false

theorem isCompletion_aborted (op : Op) : k.isCompletion op.aborted = k.isOp op := by
  cases k <;> cases op <;> rfl

theorem isCompletion_of_completes {op : Op} {d : Completion} (h : op.Completes d) :
    k.isCompletion d = k.isOp op := by
  cases op <;> rcases d with _ | ⟨_, (_ | _) | _⟩ | ⟨_ | _, _⟩ | _ <;>
    first | cases k <;> rfl | exact h.elim

/-- Neither starts an operation nor reports its result. -/
def Silent (e : TcpClient.Event) : Prop := k.starts e = false ∧ k.reports e = false

/-- The texts the other messages of `onError_` begin with. -/
def otherErrors : List String :=
  ["Error when canceling operations: ", "Shutdown error: ", "Error closing the socket: ",
    "Error when resolving of an endpoint: ", "Read error: "]

/-- A message that begins otherwise than `other` is another one. -/
theorem append_ne_of_take {text other : String} {n : ℕ} (hn : n ≤ text.toList.length)
    (h : text.toList.take n ≠ other.toList.take n) (message : String) :
    text ++ message ≠ other := by
  rintro rfl
  exact h (by rw [String.toList_append, List.take_append_of_le_length hn])

/-- The other messages are not taken for a report. -/
theorem silent_onError {text : String} (h : text ∈ otherErrors) (message : String) :
    k.Silent (.onError (text ++ message)) := by
  simp only [otherErrors, List.mem_cons, List.not_mem_nil, or_false] at h
  refine ⟨by cases k <;> rfl, ?_⟩
  cases k with
  | connect =>
    refine beq_eq_false_iff_ne.mpr (append_ne_of_take (n := 1) ?_ ?_ message)
    · rcases h with rfl | rfl | rfl | rfl | rfl <;> decide
    · rcases h with rfl | rfl | rfl | rfl | rfl <;> decide
  | write =>
    dsimp only [reports]
    rw [String.toList_append]
    rcases h with rfl | rfl | rfl | rfl | rfl <;> simp [List.isPrefixOf]

theorem reports_sendError (message : String) :
    k.reports (.onError ("Send error: " ++ message)) = k.isCompletion (.write none 0) := by
  cases k with
  | connect =>
    exact beq_eq_false_iff_ne.mpr (append_ne_of_take (n := 1) (by decide) (by decide) message)
  | write =>
    dsimp only [reports, isCompletion]
    rw [String.toList_append]
    simp

end Reported

/-- The callbacks that report the results are set. -/
structure Callbacks.Reporting (cb : Callbacks) : Prop where
  onConnected : cb.onConnected = true
  onDataSend : cb.onDataSend = true
  onError : cb.onError = true

namespace TcpClient

open Reported

variable {cb : Callbacks} {c c' : TcpClient} {k : Reported}

/-- The operations whose handler has not run yet. -/
def inFlight (k : Reported) (c : TcpClient) : ℕ := c.operations.count k.isOp k.isCompletion

/-- Every operation started is reported or in flight. -/
def Accounted (k : Reported) : TcpClient → List Event → TcpClient → Prop :=
  System.Balanced (inFlight k) k.starts k.reports

theorem composes_accounted (k : Reported) : System.Composes (Accounted k) :=
  System.composes_balanced ..

theorem Accounted.of_nothing (h : c'.inFlight k = c.inFlight k) : Accounted k c [] c' :=
  .of_silent h (by simp)

theorem Accounted.of_started {e : Event} {b : Bool}
    (h : c'.inFlight k = c.inFlight k + if b then 1 else 0) (hstarts : k.starts e = b)
    (hreports : k.reports e = false) : Accounted k c [e] c' := by
  rw [Accounted, System.Balanced, h, List.countP_singleton, List.countP_singleton, hstarts,
    hreports,
    if_neg Bool.false_ne_true, Nat.zero_add]

theorem Accounted.of_reported {e : Event} {d : Completion}
    (h : c'.inFlight k + (if k.isCompletion d then 1 else 0) = c.inFlight k)
    (hstarts : k.starts e = false) (hreports : k.reports e = k.isCompletion d) :
    Accounted k c [e] c' := by
  rw [Accounted, System.Balanced, ← h, List.countP_singleton, List.countP_singleton, hstarts,
    hreports, if_neg Bool.false_ne_true, Nat.add_zero, Nat.add_comm]

/-! ## Operations -/

theorem inFlight_abortSocket (c : TcpClient) : c.abortSocket.inFlight k = c.inFlight k :=
  Operations.count_abort _ fun op _ ↦ k.isCompletion_aborted op

theorem inFlight_abortTimer (c : TcpClient) : c.abortTimer.inFlight k = c.inFlight k :=
  Operations.count_abort _ fun op _ ↦ k.isCompletion_aborted op

theorem inFlight_take {i : ℕ} {d : Completion} (hready : c.operations.ready[i]? = some d) :
    inFlight k { c with operations := c.operations.take i }
      + (if k.isCompletion d then 1 else 0) = c.inFlight k :=
  Operations.count_take hready

theorem inFlight_doRead (c : TcpClient) : c.doRead.inFlight k = c.inFlight k := by
  have hop : k.isOp (.read c.connection) = false := by cases k <;> rfl
  have hcompletion : k.isCompletion (.read c.connection (.error .badDescriptor)) = false := by
    cases k <;> rfl
  rw [doRead]
  split_ifs
  · exact (Operations.count_start ..).trans (by simp [hop, inFlight])
  · exact (Operations.count_post ..).trans (by simp [hcompletion, inFlight])

/-- Opening the socket anew aborts what is in flight there, and none of it is lost. -/
theorem doConnect_accounted : c.doConnect.Relates (Accounted k) c := by
  have hreports : ∀ endpoints, k.reports (.asyncConnect endpoints) = false := by
    intro endpoints
    cases k <;> rfl
  rw [doConnect]
  split
  · exact .of_started (Operations.count_post ..) (by cases k <;> rfl) (hreports _)
  · refine .of_started (b := k.isOp .connect) ?_ (by cases k <;> rfl) (hreports _)
    rw [← c.inFlight_abortSocket]
    exact Operations.count_start ..

theorem asyncSend_accounted (data : Bytes) : (c.asyncSend data).Relates (Accounted k) c := by
  have hreports : k.reports (.asyncWrite data) = false := by cases k <;> rfl
  rw [asyncSend]
  split_ifs
  · exact .of_started (Operations.count_post ..) (by cases k <;> rfl) hreports
  · exact .of_started (Operations.count_start ..) (by cases k <;> rfl) hreports
  · exact .of_started (Operations.count_post ..) (by cases k <;> rfl) hreports

/-! ## Calls and handlers -/

theorem invoke_silent {isSet : Bool} {e : Event} (he : k.Silent e)
    (h : c'.inFlight k = c.inFlight k) : (invoke isSet e c').Relates (Accounted k) c := by
  rw [invoke]
  split_ifs
  · exact .of_silent h (by simpa [Outcome.emit, Silent] using he)
  · exact .of_nothing h

theorem invokeUntested_silent {isSet : Bool} {e : Event} (he : k.Silent e)
    (h : c'.inFlight k = c.inFlight k) : (invokeUntested isSet e c').Relates (Accounted k) c := by
  rw [invokeUntested]
  split_ifs
  · exact .of_silent h (by simpa [Outcome.emit, Silent] using he)
  · exact .of_nothing h

theorem cancelSocket_accounted (result : Option ErrorCode) :
    (cancelSocket cb result c).Relates (Accounted k) c := by
  cases result with
  | none => exact .of_nothing c.inFlight_abortSocket
  | some ec => exact invokeUntested_silent (silent_onError k (by simp [otherErrors]) _) rfl

theorem shutdownSocket_accounted (result : Option ErrorCode) :
    (shutdownSocket cb result c).Relates (Accounted k) c := by
  cases result with
  | none => exact .of_nothing rfl
  | some ec => exact invokeUntested_silent (silent_onError k (by simp [otherErrors]) _) rfl

theorem closeSocket_accounted (result : Option ErrorCode) :
    (closeSocket cb result c).Relates (Accounted k) c := by
  cases result with
  | none => exact .of_nothing c.inFlight_abortSocket
  | some ec =>
    exact invokeUntested_silent (silent_onError k (by simp [otherErrors]) _) c.inFlight_abortSocket

theorem closeConnection_accounted (r : CloseResults) :
    (closeConnection cb r c).Relates (Accounted k) c := by
  have hR := composes_accounted k
  refine (cancelSocket_accounted r.cancel).andThen hR ?_
  refine (shutdownSocket_accounted r.shutdown).andThen hR ?_
  refine (closeSocket_accounted r.close).andThen hR ?_
  exact invoke_silent (by cases k <;> exact ⟨rfl, rfl⟩) rfl

theorem close_accounted (r : CloseResults) : (close cb r c).Relates (Accounted k) c :=
  (closeConnection_accounted (c := { c with shouldReconnect := false }) r).andThen
    (composes_accounted k) (.of_nothing (inFlight_abortTimer _))

theorem setEndpoint_accounted (resolved : Except ErrorCode (List Endpoint)) :
    (setEndpoint cb resolved c).Relates (Accounted k) c := by
  cases resolved with
  | ok endpoints => exact .of_nothing rfl
  | error ec => exact invoke_silent (silent_onError k (by simp [otherErrors]) _) rfl

/-- The timer is neither a connect nor a write; its operations may come and go. -/
theorem scheduleReconnect_accounted : (scheduleReconnect cb c).Relates (Accounted k) c := by
  refine Outcome.Relates.andThen (composes_accounted k)
    (invoke_silent (by cases k <;> exact ⟨rfl, rfl⟩) rfl) ?_
  have hwait : k.isOp .wait = false := by cases k <;> rfl
  refine .of_silent ?_ (by cases k <;> simp [Outcome.emit, starts, reports])
  have hcount : ∀ c : TcpClient,
      inFlight k { c with operations := (c.operations.abort Op.onTimer Op.aborted).start .wait }
        = c.inFlight k := by
    intro c
    rw [← c.inFlight_abortTimer]
    exact (Operations.count_start ..).trans (by simp [hwait, inFlight, abortTimer])
  dsimp only [Outcome.emit]
  split_ifs
  · exact hcount _
  · exact hcount _

theorem retry_accounted :
    (if c.shouldReconnect then scheduleReconnect cb c else .done c).Relates (Accounted k) c := by
  split_ifs
  · exact scheduleReconnect_accounted
  · exact .of_nothing rfl

theorem readHandler_accounted (connection : ℕ) (result : Except ErrorCode Bytes)
    (r : CloseResults) : (readHandler cb connection result r c).Relates (Accounted k) c := by
  have hR := composes_accounted k
  rcases result with (_ | message) | data
  · exact .of_nothing rfl
  · rw [readHandler_other]
    refine Outcome.Relates.andThen hR
      (invoke_silent (silent_onError k (by simp [otherErrors]) message) rfl) ?_
    exact (closeConnection_accounted r).andThen hR retry_accounted
  · refine Outcome.Relates.andThen hR (invoke_silent (by cases k <;> exact ⟨rfl, rfl⟩) rfl) ?_
    exact .of_nothing (inFlight_doRead _)

/-- A handler reports its own operation, if it is a connect or a write. -/
theorem handle_accounted (hcb : cb.Reporting) {i : ℕ} {d : Completion}
    (hready : c.operations.ready[i]? = some d) (r : CloseResults) :
    (handle cb d r { c with operations := c.operations.take i }).Relates (Accounted k) c := by
  have hR := composes_accounted k
  have htake := inFlight_take (k := k) hready
  -- nothing to report: the completion has just been taken out
  have htaken : k.isCompletion d = false →
      Accounted k c [] { c with operations := c.operations.take i } := by
    intro hd
    exact .of_nothing (by simpa [hd] using htake)
  rcases d with (_ | ec) | ⟨connection, result⟩ | ⟨_ | ec, length⟩ | (_ | ec)
  · refine Outcome.Relates.andThen hR ?_ (.of_nothing (inFlight_doRead _))
    rw [invoke, hcb.onConnected]
    exact .of_reported htake (by cases k <;> rfl) (by cases k <;> rfl)
  · refine Outcome.Relates.andThen hR ?_ retry_accounted
    rw [invoke, hcb.onError]
    exact .of_reported htake (by cases k <;> rfl) (by cases k <;> rfl)
  · exact hR.append (htaken (by cases k <;> rfl)) (readHandler_accounted connection result r)
  · dsimp only [handle, writeHandler]
    rw [invoke, hcb.onDataSend]
    exact .of_reported htake (by cases k <;> rfl) (by cases k <;> rfl)
  · dsimp only [handle, writeHandler]
    rw [invoke, hcb.onError]
    exact .of_reported htake (by cases k <;> rfl)
      ((reports_sendError k ec.message).trans (by cases k <;> rfl))
  · exact hR.append (htaken (by cases k <;> rfl)) doConnect_accounted
  · exact hR.append (htaken (by cases k <;> rfl)) (.of_nothing rfl)

theorem settle_accounted {o : Outcome TcpClient Event} (ho : o.Relates (Accounted k) c) :
    Accounted k c (settle o).2 (settle o).1 :=
  ho.reported (composes_accounted k) fun _ ↦
    .of_silent rfl (by cases k <;> simp [starts, reports])

theorem step_accounted (hcb : cb.Reporting) {a : Action} {es : List Event}
    (hstep : step cb c a = some (c', es)) : Accounted k c es c' := by
  have hsettle : ∀ {o : Outcome TcpClient Event}, o.Relates (Accounted k) c →
      some (settle o) = some (c', es) → Accounted k c es c' := by
    intro o ho heq
    have hr := settle_accounted ho
    rwa [Option.some_inj.mp heq] at hr
  cases a with
  | setEndpoint resolved => exact hsettle (setEndpoint_accounted resolved) hstep
  | connect =>
    refine hsettle ?_ hstep
    rw [connect]
    split_ifs
    · exact doConnect_accounted
    · exact .of_nothing rfl
  | asyncSend data => exact hsettle (asyncSend_accounted data) hstep
  | close r => exact hsettle (close_accounted r) hstep
  | complete i d =>
    obtain ⟨op, hop, hcompletes, hr⟩ := step_complete_eq_some hstep
    obtain ⟨rfl, rfl⟩ := Prod.mk.inj hr
    exact .of_nothing (Operations.count_complete hop (k.isCompletion_of_completes hcompletes))
  | handler i r =>
    obtain ⟨d, hready, -, hr⟩ := step_handler_eq_some hstep
    exact hsettle (handle_accounted hcb hready r) (by rw [hr])
  | ioStop =>
    obtain ⟨rfl, rfl⟩ := Prod.mk.inj (Option.some_inj.mp hstep)
    exact .of_nothing rfl
  | ioRestart =>
    obtain ⟨rfl, rfl⟩ := Prod.mk.inj (Option.some_inj.mp hstep)
    exact .of_nothing rfl

/-! ## Whole runs -/

/-- **Every operation is reported once**: at every point of every run, the connects (the writes)
started so far are those that have been reported and those that are in flight. -/
theorem started_eq_reported (cb : Callbacks) (hcb : cb.Reporting) (k : Reported) :
    ∀ as c h, (system cb).run init as = some (c, h) →
      h.countP k.starts = h.countP k.reports + c.inFlight k := by
  intro as c h hrun
  have hbalanced : Accounted k init h c := System.run_relates (C := fun _ _ ↦ True)
    (composes_accounted k) (fun _ hstep ↦ step_accounted hcb hstep)
    (System.obeys_of_all (fun _ _ ↦ trivial) init as) hrun
  have hnone : inFlight k init = 0 := rfl
  rw [Accounted, System.Balanced, hnone, Nat.zero_add] at hbalanced
  exact hbalanced

/-- Three writes: the first is reported, the second is aborted by `close`, and the third finds the
socket closed. -/
def threeWritesRun : List Action :=
  connectedRun ++ [.asyncSend [1, 2], .asyncSend [3], .complete 1 (.write none 2), .handler 0 .ok,
    .close .ok, .asyncSend [4], .handler 1 .ok]

theorem started_eq_reported_threeWritesRun : ∃ c h,
    (system allSet).run init threeWritesRun = some (c, h) ∧
      h.countP Reported.write.starts = h.countP Reported.write.reports + c.inFlight .write ∧
      c.inFlight .write = 1 := by
  have hrun : (system allSet).run init threeWritesRun = some (_, _) := rfl
  exact ⟨_, _, hrun, started_eq_reported allSet ⟨rfl, rfl, rfl⟩ .write _ _ _ hrun, by decide⟩

end TcpClient

end Client

end PushService
