import PushService.Dispatcher.Delivery

/-!
# Numbered posts

The dispatcher moves pointers about and looks at nothing but the priority behind them. Replacing
every pointer by another one to the same push, in the actions of a run, replaces it in the states
and in the history and changes nothing else (`isImage_relabel`). In particular every run is the
image of one in which the pushes are numbered by their posts (`exists_numbered_run`), so that two
posts of one pointer can be told apart.
-/

namespace PushService

namespace Dispatcher

/-! ## Replacing pointers -/

/-- Another pointer to the same push. -/
def PushPtr.relabel (f : ℕ → ℕ) (p : PushPtr) : PushPtr := { p with addr := f p.addr }

def Client.relabel (f : ℕ → ℕ) (c : Client) : Client :=
  { c with receivedPushes := c.receivedPushes.map (PushPtr.relabel f) }

def Worker.relabel (f : ℕ → ℕ) : Worker → Worker
  | .sending p next => .sending (p.relabel f) next
  | worker => worker

def Event.relabel (f : ℕ → ℕ) : Event → Event
  | .accepted p => .accepted (p.relabel f)
  | .selected p => .selected (p.relabel f)
  | .sent client p => .sent client (p.relabel f)
  | e => e

def Action.relabel (f : ℕ → ℕ) : Action → Action
  | .post push => .post (push.map (PushPtr.relabel f))
  | a => a

def relabel (f : ℕ → ℕ) (d : Dispatcher) : Dispatcher where
  pushQueue := d.pushQueue.map (PushPtr.relabel f)
  stopped := d.stopped
  clients := d.clients.map (Client.relabel f)
  worker := d.worker.relabel f
  faulted := d.faulted

/-- A state and the events that led to it, relabelled. -/
def relabelled (f : ℕ → ℕ) (r : Dispatcher × List Event) : Dispatcher × List Event :=
  (r.1.relabel f, r.2.map (Event.relabel f))

variable (f : ℕ → ℕ) (d : Dispatcher)

theorem priority_relabel (p : PushPtr) : (p.relabel f).priority = p.priority := rfl

@[simp] theorem stopped_relabel : (d.relabel f).stopped = d.stopped := rfl

@[simp] theorem empty_relabel : (d.relabel f).pushQueue.empty = d.pushQueue.empty := rfl

theorem notifyOne_relabel : (d.relabel f).notifyOne = d.notifyOne.relabel f := by
  obtain ⟨queue, stopped, clients, worker, faulted⟩ := d
  cases worker <;> rfl

theorem post_relabel (push : Option PushPtr) :
    (d.relabel f).post (push.map (PushPtr.relabel f)) = relabelled f (d.post push) := by
  cases push with
  | none => rfl
  | some p =>
    rw [Option.map_some, post, post, enqueueOrNot, enqueueOrNot]
    simp only [relabel, PushQueue.push_map (priority_relabel f)]
    split_ifs
    · rfl
    · cases d.pushQueue.push PushPtr.priority p with
      | none => rfl
      | some q => exact Prod.ext (notifyOne_relabel f { d with pushQueue := q }) rfl

theorem stop_relabel : (d.relabel f).stop = d.stop.relabel f :=
  notifyOne_relabel f { d with stopped := true }

theorem takeFront_relabel : (d.relabel f).takeFront = relabelled f d.takeFront := by
  have hfront : (d.relabel f).pushQueue.front = d.pushQueue.front.map (PushPtr.relabel f) :=
    PushQueue.front_map ..
  rw [takeFront, takeFront, stopped_relabel, empty_relabel]
  by_cases hfin : (d.stopped && d.pushQueue.empty) = true
  · rw [if_pos hfin, if_pos hfin]
    rfl
  · rw [if_neg hfin, if_neg hfin, hfront]
    cases d.pushQueue.front <;> rfl

theorem getPushFromQueue_relabel :
    (d.relabel f).getPushFromQueue = relabelled f d.getPushFromQueue := by
  rw [getPushFromQueue, getPushFromQueue, stopped_relabel, empty_relabel]
  by_cases hwait : (d.pushQueue.empty && !d.stopped) = true
  · rw [if_pos hwait, if_pos hwait]
    rfl
  · rw [if_neg hwait, if_neg hwait, takeFront_relabel]

theorem wakeUp_relabel : (d.relabel f).wakeUp = relabelled f d.wakeUp := by
  rw [wakeUp, wakeUp, stopped_relabel, empty_relabel]
  by_cases hwake : (d.stopped || !d.pushQueue.empty) = true
  · rw [if_pos hwake, if_pos hwake, takeFront_relabel]
  · rw [if_neg hwake, if_neg hwake]
    rfl

theorem sendOrPop_relabel (p : PushPtr) (next : ℕ) :
    (d.relabel f).sendOrPop (p.relabel f) next = relabelled f (d.sendOrPop p next) := by
  have hclient : (d.relabel f).clients[next]? = d.clients[next]?.map (Client.relabel f) :=
    List.getElem?_map
  rw [sendOrPop, sendOrPop, hclient]
  cases d.clients[next]? with
  | some client =>
    have hsent : (client.relabel f).sendPush (p.relabel f) = (client.sendPush p).relabel f := by
      simp [Client.sendPush, Client.relabel]
    have hset : (d.relabel f).clients.set next ((client.relabel f).sendPush (p.relabel f))
        = (d.clients.set next (client.sendPush p)).map (Client.relabel f) := by
      rw [hsent, List.map_set]
      rfl
    dsimp only [Option.map_some]
    rw [hset]
    rfl
  | none =>
    have hpop : (d.relabel f).pushQueue.pop
        = d.pushQueue.pop.map (PushQueue.map (PushPtr.relabel f)) := PushQueue.pop_map ..
    dsimp only [Option.map_none]
    rw [hpop]
    cases d.pushQueue.pop <;> rfl

theorem process_relabel : (d.relabel f).process = d.process.map (relabelled f) := by
  obtain ⟨queue, stopped, clients, worker, faulted⟩ := d
  cases worker with
  | selecting => exact congrArg some (getPushFromQueue_relabel ..)
  | waiting notified => exact congrArg some (wakeUp_relabel ..)
  | sending p next => exact congrArg some (sendOrPop_relabel ..)
  | finished => rfl

/-- **The dispatcher does not look at pointers**, only at what is behind them. -/
theorem isImage_relabel :
    System.IsImage system system (relabel f) (Action.relabel f) (Event.relabel f) := by
  intro d a
  simp only [system]
  rw [show (d.relabel f).faulted = d.faulted from rfl]
  by_cases hfaulted : d.faulted = true
  · rw [if_pos hfaulted, if_pos hfaulted]
    rfl
  · rw [if_neg hfaulted, if_neg hfaulted]
    cases a with
    | post push => exact congrArg some (post_relabel f d push)
    | stop => exact congrArg some (Prod.ext (stop_relabel f d) rfl)
    | work => exact process_relabel f d

/-! ## Numbering the posts -/

/-- If the action posts a push, the push gets this number. -/
def Action.number (i : ℕ) : Action → Action
  | .post push => .post (push.map fun p ↦ { p with addr := i })
  | a => a

/-- The run in which every push that is posted has the number of its post. -/
def numbered (as : List Action) : List Action := as.mapIdx Action.number

/-- The pointer that was posted under a number. -/
def addresses (as : List Action) (i : ℕ) : ℕ :=
  match as[i]? with
  | some (.post (some p)) => p.addr
  | _ => 0

/-- The numbers stand for the pointers. -/
theorem relabel_numbered (as : List Action) :
    (numbered as).map (Action.relabel (addresses as)) = as := by
  refine List.ext_getElem? fun i ↦ ?_
  rw [numbered, List.getElem?_map, List.getElem?_mapIdx]
  cases ha : as[i]? with
  | none => rfl
  | some a =>
    rcases a with (_ | p) | _ | _
    · rfl
    · simp [Action.number, Action.relabel, PushPtr.relabel, addresses, ha]
    · rfl
    · rfl

theorem start_relabel (clients : List ℕ) : (start clients).relabel f = start clients := by
  simp [start, relabel, PushQueue.map, PushQueue.ofCount, Client.relabel, Worker.relabel]

/-- **Every run is a numbered one**, but for the pointers. -/
theorem exists_numbered_run {clients : List ℕ} {as : List Action} {d : Dispatcher} {h : List Event}
    (hrun : system.run (start clients) as = some (d, h)) :
    ∃ d₁ h₁, system.run (start clients) (numbered as) = some (d₁, h₁) ∧
      d₁.relabel (addresses as) = d ∧ h₁.map (Event.relabel (addresses as)) = h := by
  have himage := (isImage_relabel (addresses as)).run (start clients) (numbered as)
  rw [start_relabel, relabel_numbered, hrun] at himage
  obtain ⟨⟨d₁, h₁⟩, hrun₁, heq⟩ := Option.map_eq_some_iff.mp himage.symm
  obtain ⟨hd, hh⟩ := Prod.mk.inj heq
  exact ⟨d₁, h₁, hrun₁, hd, hh⟩

/-! ## Numbers are distinct -/

/-- Nothing is accepted that has not been posted. -/
theorem accepted_of_step {d d' : Dispatcher} {a : Action} {es : List Event}
    (hstep : system.step d a = some (d', es)) : (accepted es).Sublist a.posted.toList := by
  cases steps_of_step hstep with
  | accept hstopped hpush => exact List.Sublist.refl _
  | _ => exact List.nil_sublist _

theorem accepted_of_run {d d' : Dispatcher} {as : List Action} {h : List Event}
    (hrun : system.run d as = some (d', h)) :
    (accepted h).Sublist (as.flatMap fun a ↦ a.posted.toList) := by
  induction as generalizing d h with
  | nil =>
    obtain ⟨-, rfl⟩ : d = d' ∧ [] = h := by simpa using hrun
    exact List.Sublist.refl _
  | cons a as ih =>
    obtain ⟨d₁, es, fs, hstep, hrest, rfl⟩ := System.run_cons_eq_some.mp hrun
    rw [accepted_append, List.flatMap_cons]
    exact (accepted_of_step hstep).append (ih hrest)

/-- The numbers of the posts, in order. -/
theorem sublist_range (as : List Action) :
    (((numbered as).flatMap fun a ↦ a.posted.toList).map PushPtr.addr).Sublist
      (List.range as.length) := by
  induction as using List.reverseRecOn with
  | nil => exact List.Sublist.refl _
  | append_singleton as a ih =>
    have hlast : ((Action.number as.length a).posted.toList.map PushPtr.addr).Sublist
        [as.length] := by
      rcases a with (_ | p) | _ | _
      · exact List.nil_sublist _
      · exact List.Sublist.refl _
      · exact List.nil_sublist _
      · exact List.nil_sublist _
    rw [numbered, List.mapIdx_concat, List.flatMap_append, List.map_append, List.length_append,
      List.length_singleton, List.range_succ]
    refine ih.append ?_
    simpa using hlast

/-- In a numbered run no push is accepted twice. -/
theorem nodup_accepted {d d' : Dispatcher} {as : List Action} {h : List Event}
    (hrun : system.run d (numbered as) = some (d', h)) : (accepted h).Nodup := by
  -- what is accepted is some of what is posted, in this order
  have hsublist := ((accepted_of_run hrun).map PushPtr.addr).trans (sublist_range as)
  exact List.Nodup.of_map PushPtr.addr (hsublist.nodup List.nodup_range)

end Dispatcher

end PushService
