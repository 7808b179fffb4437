import PushService.Client.Closing

/-!
# How often the client tries again

A successful connect sets `shouldReconnect_` and allows `reconnect_max_count_` further attempts;
every `scheduleReconnect` uses up one of them, and the last one resets the flag. `retriesLeft` is
what remains of that allowance. Only the handler of a successful connect renews it, and nothing is
scheduled once it is used up (`Budgeted`).
-/

namespace PushService

namespace Client

namespace TcpClient

variable {cb : Callbacks} {c c' : TcpClient} {es : List Event}

/-- How often `scheduleReconnect` can still be called. -/
def retriesLeft (c : TcpClient) : ℤ :=
  if c.shouldReconnect then reconnectMaxCount - c.reconnectCount else 0

/-- The counter is below the limit. -/
def CountInRange (c : TcpClient) : Prop :=
  0 ≤ c.reconnectCount ∧ c.reconnectCount < reconnectMaxCount

/-- What was scheduled in between has been paid for. -/
def Budgeted (c : TcpClient) (es : List Event) (c' : TcpClient) : Prop :=
  c.CountInRange → c'.CountInRange ∧ c'.retriesLeft + es.count .asyncWait ≤ c.retriesLeft

theorem composes_budgeted : System.Composes Budgeted where
  nil c h := ⟨h, by simp⟩
  append {c d e es fs} h h' hrange := by
    obtain ⟨hrange, hleft⟩ := h hrange
    obtain ⟨hrange, hleft'⟩ := h' hrange
    refine ⟨hrange, ?_⟩
    rw [List.count_append]
    push_cast
    omega

theorem CountInRange.retriesLeft_nonneg (h : c.CountInRange) : 0 ≤ c.retriesLeft := by
  obtain ⟨-, hlt⟩ := h
  rw [retriesLeft]
  split_ifs
  · omega
  · exact le_rfl

/-- Nothing is scheduled, and the flag is at most reset. -/
theorem Budgeted.of_flags (hcount : c'.reconnectCount = c.reconnectCount)
    (hflag : c'.shouldReconnect = true → c.shouldReconnect = true)
    (hes : ∀ e ∈ es, e ≠ .asyncWait) : Budgeted c es c' := by
  intro h
  have hzero : es.count .asyncWait = 0 :=
    List.count_eq_zero_of_not_mem fun hmem ↦ hes _ hmem rfl
  refine ⟨by rwa [CountInRange, hcount], ?_⟩
  rw [hzero, Nat.cast_zero, add_zero]
  cases hc' : c'.shouldReconnect with
  | false =>
    rw [retriesLeft, hc']
    exact h.retriesLeft_nonneg
  | true => rw [retriesLeft, retriesLeft, hc', hflag hc', hcount]

theorem ne_asyncWait_of_incidental {e : Event} (h : e.Incidental) : e ≠ .asyncWait := by
  rintro rfl
  exact h.elim

/-! ## The pieces -/

theorem invoke_budgeted {isSet : Bool} {e : Event} (he : e ≠ .asyncWait)
    (hcount : c'.reconnectCount = c.reconnectCount)
    (hflag : c'.shouldReconnect = true → c.shouldReconnect = true) :
    (invoke isSet e c').Relates Budgeted c := by
  rw [invoke]
  split_ifs
  · exact .of_flags hcount hflag (by simpa [Outcome.emit] using he)
  · exact .of_flags hcount hflag (by simp [Outcome.done])

theorem doConnect_budgeted : c.doConnect.Relates Budgeted c := by
  rw [doConnect]
  split
  · exact .of_flags rfl id (by simp [Outcome.emit])
  · exact .of_flags rfl id (by simp [Outcome.emit])

theorem doRead_budgeted : Budgeted c [] c.doRead := by
  rw [doRead]
  split_ifs
  · exact .of_flags rfl id (by simp)
  · exact .of_flags rfl id (by simp)

theorem asyncSend_budgeted (data : Bytes) : (c.asyncSend data).Relates Budgeted c := by
  rw [asyncSend]
  split_ifs
  · exact .of_flags rfl id (by simp [Outcome.emit])
  · exact .of_flags rfl id (by simp [Outcome.emit])
  · exact .of_flags rfl id (by simp [Outcome.emit])

/-- What `scheduleReconnect` does to the counter and the flag. -/
theorem scheduleReconnect_spec (cb : Callbacks) (c : TcpClient) :
    (scheduleReconnect cb c).outputs.count .asyncWait = 1 ∧
      (scheduleReconnect cb c).state.shouldReconnect
        = (c.shouldReconnect && decide (c.reconnectCount + 1 ≠ reconnectMaxCount)) ∧
      (scheduleReconnect cb c).state.reconnectCount
        = if c.reconnectCount + 1 = reconnectMaxCount then 0 else c.reconnectCount + 1 := by
  rw [scheduleReconnect, invoke]
  cases cb.onReconnect <;> by_cases hlast : c.reconnectCount + 1 = reconnectMaxCount <;>
    simp [hlast, Outcome.done, Outcome.emit, Outcome.andThen]

/-- Each call takes one of the attempts that are left, and the last one resets the flag. -/
theorem scheduleReconnect_budgeted (h : c.shouldReconnect = true) :
    (scheduleReconnect cb c).Relates Budgeted c := by
  rintro ⟨hle, hlt⟩
  obtain ⟨houtputs, hflag, hcount⟩ := scheduleReconnect_spec cb c
  rw [CountInRange, retriesLeft, retriesLeft, houtputs, hflag, hcount, h]
  by_cases hlast : c.reconnectCount + 1 = reconnectMaxCount
  -- the last attempt: the flag is reset, and nothing is left
  · have hdone : (true && decide (c.reconnectCount + 1 ≠ reconnectMaxCount)) = false := by
      simp [hlast]
    rw [if_pos hlast, hdone, if_neg Bool.false_ne_true, if_pos rfl]
    simp only [reconnectMaxCount] at hlast ⊢
    omega
  -- one attempt of several
  · have hgoon : (true && decide (c.reconnectCount + 1 ≠ reconnectMaxCount)) = true := by
      simp [hlast]
    rw [if_neg hlast, hgoon, if_pos rfl, if_pos rfl]
    simp only [reconnectMaxCount] at hlast hlt ⊢
    omega

theorem retry_budgeted :
    (if c.shouldReconnect then scheduleReconnect cb c else .done c).Relates Budgeted c := by
  split_ifs with h
  · exact scheduleReconnect_budgeted h
  · exact composes_budgeted.nil c

theorem closeConnection_budgeted (r : CloseResults) :
    (closeConnection cb r c).Relates Budgeted c := by
  obtain ⟨⟨isOpen, operations, hstate⟩, houtputs⟩ := closeConnection_spec cb r c
  exact .of_flags (by rw [hstate]) (by rw [hstate]; exact id)
    fun e he ↦ ne_asyncWait_of_incidental (houtputs e he)

theorem close_budgeted (r : CloseResults) : (close cb r c).Relates Budgeted c := by
  have hreset : Budgeted c [] { c with shouldReconnect := false } :=
    .of_flags rfl (fun h ↦ absurd h (by simp)) (by simp)
  have hclosed : (close cb r c).Relates Budgeted { c with shouldReconnect := false } :=
    (closeConnection_budgeted r).andThen composes_budgeted
      (.of_flags rfl id (by simp [Outcome.done]))
  exact composes_budgeted.append hreset hclosed

theorem setEndpoint_budgeted (resolved : Except ErrorCode (List Endpoint)) :
    (setEndpoint cb resolved c).Relates Budgeted c := by
  cases resolved with
  | ok endpoints =>
    exact .of_flags rfl (fun h ↦ absurd h (by simp [setEndpoint, Outcome.done]))
      (by simp [setEndpoint, Outcome.done])
  | error ec => exact invoke_budgeted (by simp) rfl fun h ↦ absurd h (by simp)

theorem readHandler_budgeted (connection : ℕ) (result : Except ErrorCode Bytes) (r : CloseResults) :
    (readHandler cb connection result r c).Relates Budgeted c := by
  rcases result with (_ | message) | data
  · exact .of_flags rfl id (by simp [readHandler, Outcome.done])
  · rw [readHandler_other]
    refine Outcome.Relates.andThen composes_budgeted (invoke_budgeted (by simp) rfl id) ?_
    exact (closeConnection_budgeted r).andThen composes_budgeted retry_budgeted
  · refine Outcome.Relates.andThen composes_budgeted (invoke_budgeted (by simp) rfl id) ?_
    exact doRead_budgeted

/-- All handlers but that of a successful connect keep to the budget. -/
theorem handle_budgeted (cb : Callbacks) (completion : Completion)
    (hne : completion ≠ .connect none) (r : CloseResults) :
    (handle cb completion r c).Relates Budgeted c := by
  rcases completion with (_ | ec) | ⟨connection, result⟩ | ⟨_ | ec, length⟩ | (_ | ec)
  · exact absurd rfl hne
  · refine Outcome.Relates.andThen composes_budgeted (invoke_budgeted (by simp) rfl id) ?_
    exact retry_budgeted
  · exact readHandler_budgeted connection result r
  · exact invoke_budgeted (by simp) rfl id
  · exact invoke_budgeted (by simp) rfl id
  · exact doConnect_budgeted
  · exact composes_budgeted.nil c

theorem settle_budgeted {o : Outcome TcpClient Event} (ho : o.Relates Budgeted c) :
    Budgeted c (settle o).2 (settle o).1 :=
  ho.reported composes_budgeted fun _ ↦ .of_flags rfl id (by simp)

/-- All steps but the handler of a successful connect keep to the budget. -/
theorem step_budgeted {a : Action} (ha : ¬Connects c a) (hstep : step cb c a = some (c', es)) :
    Budgeted c es c' := by
  have hsettle : ∀ {o : Outcome TcpClient Event}, o.Relates Budgeted c →
      some (settle o) = some (c', es) → Budgeted c es c' := by
    intro o ho heq
    have hr := settle_budgeted ho
    rwa [Option.some_inj.mp heq] at hr
  cases a with
  | setEndpoint resolved => exact hsettle (setEndpoint_budgeted resolved) hstep
  | connect =>
    refine hsettle ?_ hstep
    rw [connect]
    split_ifs
    · exact doConnect_budgeted
    · exact composes_budgeted.nil c
  | asyncSend data => exact hsettle (asyncSend_budgeted data) hstep
  | close r => exact hsettle (close_budgeted r) hstep
  | complete i completion =>
    obtain ⟨-, -, -, hr⟩ := step_complete_eq_some hstep
    obtain ⟨rfl, rfl⟩ := Prod.mk.inj hr
    exact .of_flags rfl id (by simp)
  | handler i r =>
    obtain ⟨completion, hready, -, hr⟩ := step_handler_eq_some hstep
    have hne : completion ≠ .connect none := fun heq ↦
      ha (connects_handler_iff.mpr (heq ▸ hready))
    have hhandled := settle_budgeted
      (handle_budgeted cb completion hne r (c := { c with operations := c.operations.take i }))
    rw [← hr] at hhandled
    exact hhandled
  | ioStop =>
    obtain ⟨rfl, rfl⟩ := Prod.mk.inj (Option.some_inj.mp hstep)
    exact .of_flags rfl id (by simp)
  | ioRestart =>
    obtain ⟨rfl, rfl⟩ := Prod.mk.inj (Option.some_inj.mp hstep)
    exact .of_flags rfl id (by simp)

/-- A successful connect resets the counter. -/
theorem connectHandler_none_reconnectCount (cb : Callbacks) (c : TcpClient) :
    (connectHandler cb none c).state.reconnectCount = 0 := by
  rw [connectHandler, invoke_andThen_state]
  dsimp only [Outcome.done]
  rw [doRead]
  split_ifs <;> rfl

theorem CountInRange.step {a : Action} (h : c.CountInRange) (hstep : step cb c a = some (c', es)) :
    c'.CountInRange := by
  by_cases ha : Connects c a
  · obtain ⟨i, r, rfl, hready⟩ := ha.exists_handler
    obtain ⟨completion, hready', -, hr⟩ := step_handler_eq_some hstep
    obtain rfl := Option.some_inj.mp (hready.symm.trans hready')
    obtain ⟨rfl, -⟩ := Prod.mk.inj hr
    dsimp only [handle]
    rw [CountInRange, connectHandler_none_reconnectCount]
    decide
  · exact (step_budgeted ha hstep h).1

/-! ## Whole runs -/

/-- A stretch of a run without a successful connect schedules no more than what is left. -/
theorem count_asyncWait_le {as : List Action} (hrange : c.CountInRange)
    (hno : (system cb).Obeys (fun c a ↦ ¬Connects c a) c as)
    (hrun : (system cb).run c as = some (c', es)) : es.count .asyncWait ≤ c.retriesLeft := by
  have hbudget : Budgeted c es c' := System.run_relates composes_budgeted
    (fun ha hstep ↦ step_budgeted ha hstep) hno hrun
  obtain ⟨hrange', hleft⟩ := hbudget hrange
  have hnonneg := hrange'.retriesLeft_nonneg
  omega

theorem CountInRange.retriesLeft_le (h : c.CountInRange) : c.retriesLeft ≤ reconnectMaxCount := by
  obtain ⟨hle, -⟩ := h
  rw [retriesLeft]
  split_ifs
  · omega
  · decide

/-- **Reconnecting is bounded.** In every run the counter stays in its range, nothing is scheduled
before the first successful connect, and from any point on at most `reconnect_max_count_` times
until the next one. -/
theorem reconnecting_bounded (cb : Callbacks) :
    ∀ as c h, (system cb).run init as = some (c, h) →
      (0 ≤ c.reconnectCount ∧ c.reconnectCount < reconnectMaxCount) ∧
      ((system cb).Obeys (fun c a ↦ ¬Connects c a) init as → h.count .asyncWait = 0) ∧
      ∀ bs c' es, (system cb).Obeys (fun c a ↦ ¬Connects c a) c bs →
        (system cb).run c bs = some (c', es) → es.count .asyncWait ≤ reconnectMaxCount := by
  intro as c h hrun
  have hinit : init.CountInRange := ⟨le_rfl, by decide⟩
  have hrange : c.CountInRange := System.run_invariant (I := fun c _ ↦ c.CountInRange) (h := [])
    (fun hc hstep ↦ hc.step hstep) hinit hrun
  refine ⟨hrange, fun hno ↦ ?_, fun bs c' es hno hrun' ↦ ?_⟩
  · have hcount := count_asyncWait_le hinit hno hrun
    change _ ≤ (0 : ℤ) at hcount
    omega
  · exact (count_asyncWait_le hrange hno hrun').trans hrange.retriesLeft_le

/-- The connection is lost, and a further connect fails. -/
def refusedRun : List Action :=
  [.complete 0 (.read 1 (.error (.other "End of file"))), .handler 0 .ok, .complete 0 (.wait none),
    .handler 0 .ok, .complete 0 (.connect (some (.other "Connection refused"))), .handler 0 .ok]

theorem reconnecting_bounded_refusedRun : ∃ c c' h es,
    (system allSet).run init connectedRun = some (c, h) ∧
    (system allSet).run c refusedRun = some (c', es) ∧ es.count .asyncWait ≤ reconnectMaxCount :=
  ⟨_, _, _, _, rfl, rfl,
    (reconnecting_bounded allSet connectedRun _ _ rfl).2.2 refusedRun _ _ (by decide) rfl⟩

end TcpClient

end Client

end PushService
