import PushService.Console.EventHandler

/-!
# The push display and the clearing of its queue

The show thread of the console prints the pushes of `push_queue_`: it finds the queue non-empty,
looks at the front, prints it and pops. These are separate calls, each under the lock of the queue.
The main thread clears the queue after a disconnect, and the network thread fills it.

## Pointers

The queue holds pointers that `make_shared` returned. They are numbered in the order of their
making, and `heap` has what they point to; a pointer that somebody holds is never made again.

## What a clear does

A clear between the test and `front` leaves the queue empty unless something is pushed in between,
and then `front` reads a newer push. A clear between `front` and `pop` leaves nothing of what
`front` read, and whatever `pop` removes, if the queue is not empty, was pushed later. `Cleared`
follows both along a run, and a run goes wrong exactly where one of them is at a call that relies on
the contrary.
-/

namespace PushService

namespace Console

variable {α : Type*}

/-- What `make_shared` returns. -/
abbrev PushPtr := ℕ

/-! ## The threads -/

/-- Where the show thread is: before which statement of its loop, of `showMessages` or of
`showPushes`. -/
inductive ShowThread
  /-- Before the test of `running_` in the loop. -/
  | loop
  /-- In `showMessages`: before the test of `show_msg_`. -/
  | msgFlag
  /-- Before `msg_queue_->empty()`. -/
  | msgEmpty
  /-- Before the test of `running_`. -/
  | msgRunning
  /-- Before `msg_queue_->front()`. -/
  | msgFront
  /-- Before `printMsg`. -/
  | msgPrint (m : Message)
  /-- Before `msg_queue_->pop()`. -/
  | msgPop
  /-- Before the prompt is printed. -/
  | msgPrompt
  /-- In `showPushes`: before the test of `show_pushes_`. -/
  | flag
  /-- Before `push_queue_->empty()`. -/
  | empty
  /-- Before `msg_queue_->empty()`. -/
  | messages
  /-- Before the test of `running_`. -/
  | running
  /-- Before `push_queue_->front()`. -/
  | front
  /-- Before `printWithColor`. -/
  | print (push : PushPtr)
  /-- Before `push_queue_->pop()`. -/
  | pop (push : PushPtr)
  /-- Before the hint is printed. -/
  | hint
  /-- A queue was used while it was empty. -/
  | crashed
  | ended
  deriving DecidableEq, Repr

/-- Where the main thread is. -/
inductive MainThread
  /-- Between two steps of `handleDisconnect`'s caller. -/
  | command
  /-- In `handleDisconnect`, waiting for a message. -/
  | loading
  /-- In `handleDisconnect`, before `push_queue_->clear()`. -/
  | clearing
  deriving DecidableEq, Repr

/-- The members of `ConsoleUI` that the threads share, the pushes made, and the threads. -/
structure ConsoleUI (α : Type*) where
  heap : List α
  pushQueue : ThreadSafeQueue PushPtr
  msgQueue : ThreadSafeQueue Message
  showPushes : Bool
  showMsg : Bool
  running : Bool
  showThread : ShowThread
  mainThread : MainThread
  deriving DecidableEq, Repr

/-- What a run tells. -/
inductive DisplayEvent (α : Type*)
  /-- `push_queue_->front()` was called and returned `r`; there was nothing to return for `none`. -/
  | front (r : Option PushPtr)
  /-- A push was printed. -/
  | print (push : PushPtr) (content : Option α)
  /-- `push_queue_->pop()` was called in an iteration that holds `push`; it removed `r`, and there
  was nothing to remove for `none`. -/
  | pop (push : PushPtr) (r : Option PushPtr)
  /-- A message was printed. -/
  | printMsg (m : Message)
  /-- The prompt was printed. -/
  | prompt
  deriving DecidableEq, Repr

inductive DisplayAction (α : Type*)
  /-- The network thread makes a push and queues it. -/
  | push (content : α)
  /-- The network thread queues a message. -/
  | post (m : Message)
  /-- The main thread writes a flag. -/
  | setShowPushes (b : Bool)
  | setShowMsg (b : Bool)
  | setRunning (b : Bool)
  /-- `handleDisconnect` finds the client connected and has it disconnect. -/
  | handleDisconnect
  /-- The main thread takes the next step of `handleDisconnect`. -/
  | mainStep
  /-- The show thread takes its next step. -/
  | showStep
  deriving DecidableEq, Repr

namespace ConsoleUI

variable (c : ConsoleUI α)

/-- Nothing is running yet but the show thread, at the head of its loop. -/
def init : ConsoleUI α :=
  ⟨[], ⟨[]⟩, ⟨[]⟩, false, false, true, .loop, .command⟩

/-- What the main thread does between its commands. -/
def betweenCommands (c' : ConsoleUI α) : Option (ConsoleUI α × List (DisplayEvent α)) :=
  match c.mainThread with
  | .command => some (c', [])
  | _ => none

/-- The next step of `handleDisconnect`. -/
def mainStep : Option (ConsoleUI α × List (DisplayEvent α)) :=
  match c.mainThread with
  | .command => none
  | .loading => some ({ c with mainThread := if c.msgQueue.empty then .loading else .clearing }, [])
  | .clearing => some ({ c with pushQueue := c.pushQueue.clear, mainThread := .command }, [])

/-- The show thread goes on at `place`. -/
def goto (place : ShowThread) : Option (ConsoleUI α × List (DisplayEvent α)) :=
  some ({ c with showThread := place }, [])

/-- The next step of the show thread. -/
def showStep : Option (ConsoleUI α × List (DisplayEvent α)) :=
  match c.showThread with
  | .loop => c.goto (if c.running then .msgFlag else .ended)
  | .msgFlag => c.goto (if c.showMsg then .msgEmpty else .flag)
  | .msgEmpty => c.goto (if c.msgQueue.empty then .flag else .msgRunning)
  | .msgRunning => c.goto (if c.running then .msgFront else .flag)
  | .msgFront =>
    match c.msgQueue.front with
    | some m => c.goto (.msgPrint m)
    | none => c.goto .crashed
  | .msgPrint m => some ({ c with showThread := .msgPop }, [.printMsg m])
  | .msgPop =>
    match c.msgQueue.pop with
    | some queue => some ({ c with msgQueue := queue, showThread := .msgPrompt }, [])
    | none => c.goto .crashed
  | .msgPrompt => some ({ c with showThread := .msgFlag }, [.prompt])
  | .flag => c.goto (if c.showPushes then .empty else .loop)
  | .empty => c.goto (if c.pushQueue.empty then .loop else .messages)
  | .messages => c.goto (if c.msgQueue.empty then .running else .loop)
  | .running => c.goto (if c.running then .front else .loop)
  | .front =>
    match c.pushQueue.front with
    | some push => some ({ c with showThread := .print push }, [.front (some push)])
    | none => some ({ c with showThread := .crashed }, [.front none])
  | .print push => some ({ c with showThread := .pop push }, [.print push c.heap[push]?])
  | .pop push =>
    match c.pushQueue.pop with
    | some queue =>
      some ({ c with pushQueue := queue, showThread := .hint }, [.pop push c.pushQueue.front])
    | none => some ({ c with showThread := .crashed }, [.pop push none])
  | .hint =>
    some ({ c with showThread := .flag },
      [.printMsg ⟨.hint, "Press ENTER to begin enter commands"⟩])
  | .crashed | .ended => none

end ConsoleUI

/-- The console under its three threads. -/
def display (α : Type*) : System (ConsoleUI α) (DisplayAction α) (DisplayEvent α) where
  step c
    | .push content =>
      some ({ c with
        heap := c.heap ++ [content]
        pushQueue := c.pushQueue.push c.heap.length }, [])
    | .post m => some ({ c with msgQueue := c.msgQueue.push m }, [])
    | .setShowPushes b => c.betweenCommands { c with showPushes := b }
    | .setShowMsg b => c.betweenCommands { c with showMsg := b }
    | .setRunning b => c.betweenCommands { c with running := b }
    | .handleDisconnect => c.betweenCommands { c with mainThread := .loading }
    | .mainStep => c.mainStep
    | .showStep => c.showStep

/-! ## Agreement -/

/-- What is asked of the calls of a run: `front` and `pop` find something, and `pop` removes what
the iteration holds. -/
def DisplayEvent.Agrees : DisplayEvent α → Prop
  | .front r => r.isSome
  | .pop push r => r = some push
  | .print _ _ | .printMsg _ | .prompt => True

/-- What the calls of `clear` have done. -/
structure Cleared where
  /-- There was a `clear` since the loop last tested the queue, and no push since that. -/
  unfilled : Bool
  /-- There was a `clear` since `front` was last called. -/
  spoiled : Bool
  deriving DecidableEq, Repr

def Cleared.init : Cleared := ⟨false, false⟩

/-- Follows one step, taken in the state `c`. -/
def Cleared.record (x : Cleared) (c : ConsoleUI α) (a : DisplayAction α) (_ : ConsoleUI α) :
    Cleared :=
  match a with
  | .push _ => { x with unfilled := false }
  | .mainStep => if c.mainThread = .clearing then ⟨true, true⟩ else x
  | .showStep =>
    match c.showThread with
    | .empty => { x with unfilled := false }
    | .front => { x with spoiled := false }
    | _ => x
  | .post _ | .setShowPushes _ | .setShowMsg _ | .setRunning _ | .handleDisconnect => x

/-- The console, with what the calls of `clear` have done. -/
def recordedDisplay (α : Type*) :
    System (ConsoleUI α × Cleared) (DisplayAction α) (DisplayEvent α) :=
  (display α).recorded Cleared.record

/-- The show thread has found the queue non-empty and is on its way to `front`. -/
def ShowThread.isTested : ShowThread → Bool
  | .messages | .running | .front => true
  | _ => false

/-- The push of the current iteration. -/
def ShowThread.held : ShowThread → Option PushPtr
  | .print push | .pop push => some push
  | _ => none

/-- The show thread is before `push_queue_->pop()`. -/
def ShowThread.isPop : ShowThread → Bool
  | .pop _ => true
  | _ => false

/-- `front` is not called in a queue that was cleared after the test and not filled since, and `pop`
is not called in a queue that was cleared after `front`. -/
def NotCleared (p : ConsoleUI α × Cleared) : DisplayAction α → Prop
  | .showStep =>
    (p.1.showThread = .front → p.2.unfilled = false) ∧ (p.1.showThread.isPop → p.2.spoiled = false)
  | .push _ | .post _ | .setShowPushes _ | .setShowMsg _ | .setRunning _ => True
  | .handleDisconnect | .mainStep => True

instance (p : ConsoleUI α × Cleared) : ∀ a, Decidable (NotCleared p a)
  | .showStep => inferInstanceAs (Decidable (_ ∧ _))
  | .push _ | .post _ | .setShowPushes _ | .setShowMsg _ | .setRunning _ => isTrue trivial
  | .handleDisconnect | .mainStep => isTrue trivial

/-! ## The invariant -/

/-- What holds of the queue and what is known of its clearing, wherever the show thread is. -/
structure DisplayInv (p : ConsoleUI α × Cleared) : Prop where
  /-- The queue holds pushes that were made. -/
  made : ∀ q ∈ p.1.pushQueue.queue, q < p.1.heap.length
  /-- After the test only a `clear` makes the queue empty. -/
  tested : p.1.showThread.isTested → (p.1.pushQueue.queue = [] ↔ p.2.unfilled = true)
  /-- The push that is held is at the head of the queue, or a `clear` has removed it for good. -/
  held : ∀ q, p.1.showThread.held = some q → q < p.1.heap.length ∧
    (p.2.spoiled = false → p.1.pushQueue.queue.head? = some q) ∧
    (p.2.spoiled = true → q ∉ p.1.pushQueue.queue)

variable {c c' : ConsoleUI α} {x : Cleared} {es : List (DisplayEvent α)}

theorem displayInv_init : DisplayInv ((.init, .init) : ConsoleUI α × Cleared) :=
  ⟨by simp [ConsoleUI.init], by simp [ConsoleUI.init, ShowThread.isTested],
    by simp [ConsoleUI.init, ShowThread.held]⟩

/-- A step that leaves the queue alone, and with which the show thread does not come nearer to a
call. -/
theorem DisplayInv.quiet (hI : DisplayInv (c, x)) (hheap : c'.heap = c.heap)
    (hqueue : c'.pushQueue = c.pushQueue)
    (htested : c'.showThread.isTested → c.showThread.isTested)
    (hheld : ∀ q, c'.showThread.held = some q → c.showThread.held = some q) :
    DisplayInv (c', x) := by
  refine ⟨?_, fun ht ↦ ?_, fun q hq ↦ ?_⟩
  · dsimp only
    rw [hheap, hqueue]
    exact hI.made
  · dsimp only
    rw [hqueue]
    exact hI.tested (htested ht)
  · dsimp only
    rw [hheap, hqueue]
    exact hI.held q (hheld q hq)

/-- A new push is behind what is there, and it is none of the old ones. -/
theorem DisplayInv.push (hI : DisplayInv (c, x)) (content : α) :
    DisplayInv ({ c with
      heap := c.heap ++ [content]
      pushQueue := c.pushQueue.push c.heap.length }, { x with unfilled := false }) := by
  refine ⟨fun q hq ↦ ?_, fun _ ↦ by simp [ThreadSafeQueue.push], fun q hq ↦ ?_⟩
  · simp only [ThreadSafeQueue.push, List.mem_append, List.mem_singleton] at hq
    rw [List.length_append, List.length_singleton]
    rcases hq with hq | rfl
    · exact Nat.lt_succ_of_lt (hI.made q hq)
    · exact Nat.lt_succ_self _
  · obtain ⟨hmade, hhead, hgone⟩ := hI.held q hq
    refine ⟨?_, fun hs ↦ ?_, fun hs ↦ ?_⟩
    · rw [List.length_append]
      exact Nat.lt_add_right _ hmade
    · have := hhead hs
      simp [ThreadSafeQueue.push, List.head?_append, this]
    · simp only [ThreadSafeQueue.push, List.mem_append, List.mem_singleton, not_or]
      exact ⟨hgone hs, Nat.ne_of_lt hmade⟩

/-- After a `clear` the queue is empty. -/
theorem DisplayInv.clear (hI : DisplayInv (c, x)) :
    DisplayInv ({ c with pushQueue := c.pushQueue.clear, mainThread := .command },
      ⟨true, true⟩) := by
  refine ⟨by simp [ThreadSafeQueue.clear], fun _ ↦ by simp [ThreadSafeQueue.clear], fun q hq ↦ ?_⟩
  exact ⟨(hI.held q hq).1, fun hs ↦ absurd hs (by simp), fun _ ↦ by simp [ThreadSafeQueue.clear]⟩

/-! ## The steps of the show thread -/

/-- The statements of the show thread that call neither `front` nor `pop` of the queue of pushes,
nor test it. -/
def ShowThread.isElsewhere : ShowThread → Bool
  | .empty | .front | .pop _ => false
  | _ => true

theorem DisplayInv.elsewhere (hI : DisplayInv (c, x)) (hc : c.showThread.isElsewhere)
    (hstep : c.showStep = some (c', es)) : DisplayInv (c', x) ∧ ∀ e ∈ es, e.Agrees := by
  unfold ConsoleUI.showStep ConsoleUI.goto at hstep
  cases hs : c.showThread with
  | empty | front | pop => simp [hs, ShowThread.isElsewhere] at hc
  | crashed | ended => simp [hs] at hstep
  | msgFront | msgPop =>
    simp only [hs] at hstep
    split at hstep <;>
    · obtain ⟨rfl, rfl⟩ := Prod.mk.inj (Option.some_inj.mp hstep)
      exact ⟨hI.quiet rfl rfl (by simp [ShowThread.isTested]) (by simp [ShowThread.held]), by simp⟩
  | print push =>
    simp only [hs] at hstep
    obtain ⟨rfl, rfl⟩ := Prod.mk.inj (Option.some_inj.mp hstep)
    refine ⟨hI.quiet rfl rfl (by simp [ShowThread.isTested]) ?_, by simp [DisplayEvent.Agrees]⟩
    simp [hs, ShowThread.held]
  | messages | running =>
    simp only [hs] at hstep
    obtain ⟨rfl, rfl⟩ := Prod.mk.inj (Option.some_inj.mp hstep)
    refine ⟨hI.quiet rfl rfl (by simp [hs, ShowThread.isTested]) ?_, by simp⟩
    intro q
    split <;> simp [ShowThread.held]
  | loop | msgFlag | msgEmpty | msgRunning | flag =>
    simp only [hs] at hstep
    obtain ⟨rfl, rfl⟩ := Prod.mk.inj (Option.some_inj.mp hstep)
    refine ⟨hI.quiet rfl rfl ?_ ?_, by simp⟩
    · dsimp only
      split <;> simp [ShowThread.isTested]
    · dsimp only
      split <;> simp [ShowThread.held]
  | msgPrint | msgPrompt | hint =>
    simp only [hs] at hstep
    obtain ⟨rfl, rfl⟩ := Prod.mk.inj (Option.some_inj.mp hstep)
    exact ⟨hI.quiet rfl rfl (by simp [ShowThread.isTested]) (by simp [ShowThread.held]),
      by simp [DisplayEvent.Agrees]⟩

/-- The test of the queue. -/
theorem DisplayInv.test (hI : DisplayInv (c, x)) (hs : c.showThread = .empty)
    (hstep : c.showStep = some (c', es)) :
    DisplayInv (c', { x with unfilled := false }) ∧ es = [] := by
  simp only [ConsoleUI.showStep, hs, ConsoleUI.goto] at hstep
  obtain ⟨rfl, rfl⟩ := Prod.mk.inj (Option.some_inj.mp hstep)
  refine ⟨⟨hI.made, fun ht ↦ ?_, fun q hq ↦ ?_⟩, rfl⟩
  · have hne : c.pushQueue.queue ≠ [] := by
      intro hnil
      simp [ThreadSafeQueue.empty, hnil, ShowThread.isTested] at ht
    simp [hne]
  · dsimp only at hq
    split at hq <;> simp [ShowThread.held] at hq

/-- `front` finds a push if the queue was not left empty by a `clear`. -/
theorem DisplayInv.front (hI : DisplayInv (c, x)) (hs : c.showThread = .front)
    (hstep : c.showStep = some (c', es)) :
    DisplayInv (c', { x with spoiled := false }) ∧ ((∀ e ∈ es, e.Agrees) ↔ x.unfilled = false) := by
  have htested := hI.tested (by rw [hs]; rfl)
  simp only [ConsoleUI.showStep, hs] at hstep
  cases hq : c.pushQueue.queue with
  | nil =>
    simp only [ThreadSafeQueue.front, hq, List.head?_nil] at hstep
    obtain ⟨rfl, rfl⟩ := Prod.mk.inj (Option.some_inj.mp hstep)
    have hunfilled : x.unfilled = true := htested.mp hq
    refine ⟨⟨hI.made, by simp [ShowThread.isTested], by simp [ShowThread.held]⟩, ?_⟩
    simp [DisplayEvent.Agrees, hunfilled]
  | cons push rest =>
    simp only [ThreadSafeQueue.front, hq, List.head?_cons] at hstep
    obtain ⟨rfl, rfl⟩ := Prod.mk.inj (Option.some_inj.mp hstep)
    have hfilled : x.unfilled = false := by
      rw [← Bool.not_eq_true, ← htested, hq]
      exact List.cons_ne_nil push rest
    refine ⟨⟨hI.made, by simp [ShowThread.isTested], fun q hheld ↦ ?_⟩, by
      simp [DisplayEvent.Agrees, hfilled]⟩
    obtain rfl : push = q := by simpa [ShowThread.held] using hheld
    exact ⟨hI.made push (by simp [hq]), fun _ ↦ by simp [hq], fun h ↦ absurd h (by simp)⟩

/-- `pop` removes what is held if there was no `clear` since `front`. -/
theorem DisplayInv.pop {push : PushPtr} (hI : DisplayInv (c, x)) (hs : c.showThread = .pop push)
    (hstep : c.showStep = some (c', es)) :
    DisplayInv (c', x) ∧ ((∀ e ∈ es, e.Agrees) ↔ x.spoiled = false) := by
  obtain ⟨-, hhead, hgone⟩ := hI.held push (by rw [hs]; rfl)
  simp only [ConsoleUI.showStep, hs] at hstep
  cases hq : c.pushQueue.queue with
  | nil =>
    simp only [ThreadSafeQueue.pop, hq] at hstep
    obtain ⟨rfl, rfl⟩ := Prod.mk.inj (Option.some_inj.mp hstep)
    have hspoiled : x.spoiled = true := by
      rw [← Bool.not_eq_false]
      intro h
      simpa [hq] using hhead h
    refine ⟨⟨hI.made, by simp [ShowThread.isTested], by simp [ShowThread.held]⟩, ?_⟩
    simp [DisplayEvent.Agrees, hspoiled]
  | cons first rest =>
    simp only [ThreadSafeQueue.pop, ThreadSafeQueue.front, hq, List.head?_cons] at hstep
    obtain ⟨rfl, rfl⟩ := Prod.mk.inj (Option.some_inj.mp hstep)
    refine ⟨⟨fun q hmem ↦ ?_, by simp [ShowThread.isTested], by simp [ShowThread.held]⟩, ?_⟩
    · exact hI.made q (by simp [hq, show q ∈ rest from hmem])
    · simp only [List.mem_singleton, forall_eq, DisplayEvent.Agrees, Option.some_inj]
      refine ⟨fun heq ↦ ?_, fun h ↦ by simpa [hq] using hhead h⟩
      rw [← Bool.not_eq_true]
      intro h
      exact hgone h (by simp [hq, heq])

theorem DisplayInv.showStep (hI : DisplayInv (c, x)) (hstep : c.showStep = some (c', es)) :
    DisplayInv (c', x.record c .showStep c') ∧
      ((∀ e ∈ es, e.Agrees) ↔ NotCleared (c, x) .showStep) := by
  cases hs : c.showThread with
  | empty =>
    obtain ⟨hI', rfl⟩ := hI.test hs hstep
    exact ⟨by simpa [Cleared.record, hs] using hI', by simp [NotCleared, hs, ShowThread.isPop]⟩
  | front =>
    obtain ⟨hI', hagrees⟩ := hI.front hs hstep
    exact ⟨by simpa [Cleared.record, hs] using hI',
      by simp [NotCleared, hs, ShowThread.isPop, hagrees]⟩
  | pop push =>
    obtain ⟨hI', hagrees⟩ := hI.pop hs hstep
    exact ⟨by simpa [Cleared.record, hs] using hI',
      by simp [NotCleared, hs, ShowThread.isPop, hagrees]⟩
  | _ =>
    obtain ⟨hI', hagrees⟩ := hI.elsewhere (by simp [hs, ShowThread.isElsewhere]) hstep
    exact ⟨by simpa [Cleared.record, hs] using hI',
      iff_of_true hagrees (by simp [NotCleared, hs, ShowThread.isPop])⟩

/-! ## Runs -/

theorem DisplayInv.step {p q : ConsoleUI α × Cleared} {a : DisplayAction α} (hI : DisplayInv p)
    (hstep : (recordedDisplay α).step p a = some (q, es)) :
    DisplayInv q ∧ ((∀ e ∈ es, e.Agrees) ↔ NotCleared p a) := by
  obtain ⟨c, x⟩ := p
  obtain ⟨c', x'⟩ := q
  obtain ⟨hstep, hrecord⟩ := System.recorded_step_eq_some.mp hstep
  obtain rfl : x' = x.record c a c' := hrecord
  -- the main thread at a command touches neither the queue nor the show thread
  have hcommand : ∀ {d : ConsoleUI α}, c.betweenCommands d = some (c', es) → d.heap = c.heap →
      d.pushQueue = c.pushQueue → d.showThread = c.showThread →
      DisplayInv (c', x) ∧ ((∀ e ∈ es, e.Agrees) ↔ True) := by
    intro d hcmd hheap hqueue hshow
    unfold ConsoleUI.betweenCommands at hcmd
    split at hcmd
    · obtain ⟨rfl, rfl⟩ := Prod.mk.inj (Option.some_inj.mp hcmd)
      exact ⟨hI.quiet hheap hqueue (by rw [hshow]; exact id) (by rw [hshow]; exact fun _ ↦ id),
        by simp⟩
    · exact absurd hcmd (by simp)
  cases a with
  | push content =>
    obtain ⟨rfl, rfl⟩ := Prod.mk.inj (Option.some_inj.mp hstep)
    exact ⟨hI.push content, by simp [NotCleared]⟩
  | post m =>
    obtain ⟨rfl, rfl⟩ := Prod.mk.inj (Option.some_inj.mp hstep)
    exact ⟨hI.quiet rfl rfl id fun _ ↦ id, by simp [NotCleared]⟩
  | setShowPushes | setShowMsg | setRunning | handleDisconnect => exact hcommand hstep rfl rfl rfl
  | mainStep =>
    replace hstep : c.mainStep = some (c', es) := hstep
    unfold ConsoleUI.mainStep at hstep
    cases hm : c.mainThread with
    | command => simp [hm] at hstep
    | loading =>
      simp only [hm] at hstep
      obtain ⟨rfl, rfl⟩ := Prod.mk.inj (Option.some_inj.mp hstep)
      refine ⟨?_, by simp [NotCleared]⟩
      simp only [Cleared.record, hm]
      exact hI.quiet rfl rfl id fun _ ↦ id
    | clearing =>
      simp only [hm] at hstep
      obtain ⟨rfl, rfl⟩ := Prod.mk.inj (Option.some_inj.mp hstep)
      refine ⟨?_, by simp [NotCleared]⟩
      simp only [Cleared.record, hm]
      exact hI.clear
  | showStep => exact hI.showStep hstep

/-- The calls of a run agree exactly if no `clear` comes between the test and a `front` with nothing
pushed since, or between `front` and `pop`. -/
theorem agrees_iff_notCleared {c : ConsoleUI α} {as : List (DisplayAction α)}
    (hrun : (display α).run .init as = some (c, es)) :
    (∀ e ∈ es, e.Agrees) ↔ (recordedDisplay α).Obeys NotCleared (.init, .init) as := by
  have hview := (System.isView_recorded (display α) Cleared.record).run (.init, .init) as
  rw [hrun] at hview
  obtain ⟨⟨q, es'⟩, hrec, heq⟩ := Option.map_eq_some_iff.mp hview.symm
  obtain ⟨-, rfl⟩ := Prod.mk.inj heq
  exact System.forall_outputs_iff_obeys (fun hI hstep ↦ hI.step hstep) displayInv_init hrec

/-- The show thread shows a push; then the user disconnects. -/
def shownRun : List (DisplayAction ℕ) :=
  [.setShowPushes true, .push 7, .showStep, .showStep, .showStep, .showStep, .showStep, .showStep,
    .showStep, .showStep, .showStep, .setShowPushes false, .handleDisconnect,
    .post ⟨.system, "Disconnected"⟩, .mainStep, .mainStep]

theorem agrees_iff_notCleared_shownRun :
    ∃ c es, (display ℕ).run .init shownRun = some (c, es) ∧
      ((∀ e ∈ es, e.Agrees) ↔ (recordedDisplay ℕ).Obeys NotCleared (.init, .init) shownRun) :=
  ⟨_, _, rfl, agrees_iff_notCleared rfl⟩

/-- The show thread has found a push in the queue; before it calls `front` the user disconnects. -/
def clearedRun : List (DisplayAction ℕ) :=
  [.setShowPushes true, .push 7, .showStep, .showStep, .showStep, .showStep, .showStep, .showStep,
    .setShowPushes false, .handleDisconnect, .post ⟨.system, "Disconnected"⟩, .mainStep, .mainStep,
    .showStep]

/-- The show thread prints a push; before it pops, the user disconnects and another push arrives. -/
def spoiledRun : List (DisplayAction ℕ) :=
  [.setShowPushes true, .push 7, .showStep, .showStep, .showStep, .showStep, .showStep, .showStep,
    .showStep, .showStep, .setShowPushes false, .handleDisconnect, .post ⟨.system, "Disconnected"⟩,
    .mainStep, .mainStep, .push 8, .showStep]

/-- One run calls `front` on an empty queue, the other removes a push that was never printed. -/
theorem not_agrees_clearedRun_spoiledRun :
    (∃ c es, (display ℕ).run .init clearedRun = some (c, es) ∧ .front none ∈ es) ∧
      ∃ c es, (display ℕ).run .init spoiledRun = some (c, es) ∧ .pop 0 (some 1) ∈ es ∧
        ∀ content, .print 1 content ∉ es :=
  ⟨⟨_, _, rfl, by decide⟩, _, _, rfl, by decide, by simp [ConsoleUI.init]⟩

end Console

end PushService
