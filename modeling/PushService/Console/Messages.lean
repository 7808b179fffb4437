import PushService.Console.Display

/-!
# The messages of the console

Several threads queue messages, and only the show thread takes them: it finds the queue non-empty,
looks at the front, prints it and pops. Nothing clears this queue, so `front` and `pop` always find
what they should, and each message is printed once and in order (`messages_shown_once`).

With `show_pushes_` or `show_msg_` off the show thread still finishes the iteration it is in. What
it may still show is counted by `upcomingPush` and `upcomingMsg`, and what it may still take from
the queue by `taking`: at most one of it all.
-/

namespace PushService

namespace Console

variable {α : Type*} {c c' : ConsoleUI α} {es : List (DisplayEvent α)}

/-! ## Each message once -/

/-- The hint behind a push is printed without the queue. -/
def Message.isQueued (m : Message) : Bool := m.type ≠ .hint

/-- The messages that are printed, up to the hints. -/
def printedMsgs (h : List (DisplayEvent α)) : List Message :=
  h.filterMap fun
    | .printMsg m => if m.isQueued then some m else none
    | _ => none

/-- What an action adds to the queue of messages. -/
def DisplayAction.posted : DisplayAction α → List Message
  | .post m => [m]
  | _ => []

/-- The queue without the message that is printed and not popped yet. -/
def ConsoleUI.pending (c : ConsoleUI α) : List Message :=
  match c.showThread with
  | .msgPop => c.msgQueue.queue.tail
  | _ => c.msgQueue.queue

/-- Behind the test the queue has a front, and it is the message that is printed. -/
def ConsoleUI.MsgReady (c : ConsoleUI α) : Prop :=
  match c.showThread with
  | .msgRunning | .msgFront | .msgPop => c.msgQueue.queue ≠ []
  | .msgPrint m => c.msgQueue.queue.head? = some m
  | _ => True

theorem printedMsgs_append (h es : List (DisplayEvent α)) :
    printedMsgs (h ++ es) = printedMsgs h ++ printedMsgs es :=
  List.filterMap_append ..

/-- Posting a message does not take away the front. -/
theorem ConsoleUI.MsgReady.post (h : c.MsgReady) (m : Message) :
    ConsoleUI.MsgReady { c with msgQueue := c.msgQueue.push m } ∧
      ConsoleUI.pending { c with msgQueue := c.msgQueue.push m } = c.pending ++ [m] := by
  unfold ConsoleUI.MsgReady ConsoleUI.pending at *
  dsimp only
  cases hs : c.showThread with
  | msgRunning | msgFront => simp [ThreadSafeQueue.push]
  | msgPop =>
    rw [hs] at h
    exact ⟨by simp [ThreadSafeQueue.push], List.tail_append_of_ne_nil h⟩
  | msgPrint m' =>
    rw [hs] at h
    exact ⟨by simp [ThreadSafeQueue.push, List.head?_append,
      show c.msgQueue.queue.head? = some m' from h], rfl⟩
  | _ => exact ⟨trivial, rfl⟩

/-- A step of the show thread prints the front of what is pending, or nothing. -/
theorem ConsoleUI.MsgReady.showStep (h : c.MsgReady) (hstep : c.showStep = some (c', es)) :
    c'.MsgReady ∧
      printedMsgs es ++ c'.pending.filter Message.isQueued = c.pending.filter Message.isQueued := by
  unfold ConsoleUI.showStep ConsoleUI.goto at hstep
  unfold ConsoleUI.MsgReady ConsoleUI.pending at *
  cases hs : c.showThread with
  | crashed | ended => simp [hs] at hstep
  | msgFront =>
    simp only [hs] at hstep h
    split at hstep
    · rename_i m hfront
      obtain ⟨rfl, rfl⟩ := Prod.mk.inj (Option.some_inj.mp hstep)
      exact ⟨hfront, rfl⟩
    · rename_i hfront
      exact absurd (List.head?_eq_none_iff.mp hfront) h
  | msgPrint m =>
    simp only [hs] at hstep h
    obtain ⟨rfl, rfl⟩ := Prod.mk.inj (Option.some_inj.mp hstep)
    obtain ⟨rest, hrest⟩ := List.head?_eq_some_iff.mp h
    rw [hrest]
    exact ⟨List.cons_ne_nil m rest, by cases hm : m.isQueued <;> simp [printedMsgs, hm]⟩
  | msgPop =>
    simp only [hs] at hstep h
    obtain ⟨m, rest, hrest⟩ := List.exists_cons_of_ne_nil h
    simp only [ThreadSafeQueue.pop, hrest] at hstep
    obtain ⟨rfl, rfl⟩ := Prod.mk.inj (Option.some_inj.mp hstep)
    exact ⟨trivial, by simp [printedMsgs, hrest]⟩
  | msgEmpty =>
    simp only [hs] at hstep
    obtain ⟨rfl, rfl⟩ := Prod.mk.inj (Option.some_inj.mp hstep)
    dsimp only
    by_cases hempty : c.msgQueue.empty = true
    · rw [if_pos hempty]
      exact ⟨trivial, rfl⟩
    · rw [if_neg hempty]
      exact ⟨by simpa [ThreadSafeQueue.empty] using hempty, rfl⟩
  | msgRunning =>
    simp only [hs] at hstep h
    obtain ⟨rfl, rfl⟩ := Prod.mk.inj (Option.some_inj.mp hstep)
    dsimp only
    split_ifs
    · exact ⟨h, rfl⟩
    · exact ⟨trivial, rfl⟩
  | front | pop =>
    simp only [hs] at hstep
    split at hstep <;>
    · obtain ⟨rfl, rfl⟩ := Prod.mk.inj (Option.some_inj.mp hstep)
      exact ⟨trivial, rfl⟩
  | loop | msgFlag | flag | empty | messages | running =>
    simp only [hs] at hstep
    obtain ⟨rfl, rfl⟩ := Prod.mk.inj (Option.some_inj.mp hstep)
    dsimp only
    split_ifs <;> exact ⟨trivial, rfl⟩
  | msgPrompt | print | hint =>
    simp only [hs] at hstep
    obtain ⟨rfl, rfl⟩ := Prod.mk.inj (Option.some_inj.mp hstep)
    exact ⟨trivial, rfl⟩

/-- The main thread between its commands. -/
theorem eq_of_betweenCommands {d : ConsoleUI α} (hstep : c.betweenCommands d = some (c', es)) :
    c' = d ∧ es = [] := by
  unfold ConsoleUI.betweenCommands at hstep
  split at hstep
  · obtain ⟨rfl, rfl⟩ := Prod.mk.inj (Option.some_inj.mp hstep)
    exact ⟨rfl, rfl⟩
  · cases hstep

/-- The main thread in `handleDisconnect`. -/
theorem of_mainStep (hstep : c.mainStep = some (c', es)) :
    es = [] ∧ ∃ place queue, c' = { c with mainThread := place, pushQueue := queue } := by
  unfold ConsoleUI.mainStep at hstep
  split at hstep
  · cases hstep
  · obtain ⟨rfl, rfl⟩ := Prod.mk.inj (Option.some_inj.mp hstep)
    exact ⟨rfl, _, _, rfl⟩
  · obtain ⟨rfl, rfl⟩ := Prod.mk.inj (Option.some_inj.mp hstep)
    exact ⟨rfl, _, _, rfl⟩

theorem ConsoleUI.MsgReady.step {a : DisplayAction α} (h : c.MsgReady)
    (hstep : (display α).step c a = some (c', es)) :
    c'.MsgReady ∧ printedMsgs es ++ c'.pending.filter Message.isQueued =
      (c.pending ++ a.posted).filter Message.isQueued := by
  cases a with
  | push content =>
    obtain ⟨rfl, rfl⟩ := Prod.mk.inj (Option.some_inj.mp hstep)
    exact ⟨h, congrArg (List.filter Message.isQueued) (List.append_nil _).symm⟩
  | post m =>
    obtain ⟨rfl, rfl⟩ := Prod.mk.inj (Option.some_inj.mp hstep)
    obtain ⟨hready, hpending⟩ := h.post m
    exact ⟨hready, by rw [hpending]; rfl⟩
  | setShowPushes | setShowMsg | setRunning | handleDisconnect =>
    obtain ⟨rfl, rfl⟩ := eq_of_betweenCommands hstep
    exact ⟨h, congrArg (List.filter Message.isQueued) (List.append_nil _).symm⟩
  | mainStep =>
    obtain ⟨rfl, place, queue, rfl⟩ := of_mainStep hstep
    exact ⟨h, congrArg (List.filter Message.isQueued) (List.append_nil _).symm⟩
  | showStep =>
    obtain ⟨hready, hpending⟩ := h.showStep hstep
    exact ⟨hready, hpending.trans
      (congrArg (List.filter Message.isQueued) (List.append_nil _).symm)⟩

theorem ConsoleUI.MsgReady.run {as : List (DisplayAction α)} {h : List (DisplayEvent α)}
    (hready : c.MsgReady) (hrun : (display α).run c as = some (c', h)) :
    c'.MsgReady ∧ printedMsgs h ++ c'.pending.filter Message.isQueued =
      (c.pending ++ as.flatMap DisplayAction.posted).filter Message.isQueued := by
  induction as generalizing c h with
  | nil =>
    obtain ⟨rfl, rfl⟩ : c = c' ∧ [] = h := by simpa using hrun
    exact ⟨hready, by simp [printedMsgs]⟩
  | cons a as ih =>
    obtain ⟨d, es, fs, hstep, hrest, rfl⟩ := System.run_cons_eq_some.mp hrun
    obtain ⟨hready', hhead⟩ := hready.step hstep
    obtain ⟨hready'', htail⟩ := ih hready' hrest
    refine ⟨hready'', ?_⟩
    rw [printedMsgs_append, List.append_assoc, htail, List.filter_append, ← List.append_assoc,
      hhead,
      ← List.filter_append, List.flatMap_cons, List.append_assoc]

/-- **Each message once.** In every run of the three threads `front` and `pop` of the queue of
messages find something, and what was posted is what has been printed, in order, and what is pending
behind it. -/
theorem messages_shown_once (as : List (DisplayAction α)) (c : ConsoleUI α)
    (h : List (DisplayEvent α)) (hrun : (display α).run .init as = some (c, h)) :
    (c.showThread = .msgFront ∨ c.showThread = .msgPop →
      c.msgQueue.front.isSome ∧ c.msgQueue.pop.isSome) ∧
      (as.flatMap DisplayAction.posted).filter Message.isQueued =
        printedMsgs h ++ c.pending.filter Message.isQueued := by
  have hinit : (ConsoleUI.init : ConsoleUI α).MsgReady := trivial
  obtain ⟨hready, hposted⟩ := hinit.run hrun
  refine ⟨fun hplace ↦ ?_, hposted.symm⟩
  have hne : c.msgQueue.queue ≠ [] := by
    unfold ConsoleUI.MsgReady at hready
    obtain hs | hs := hplace <;> rwa [hs] at hready
  obtain ⟨m, rest, hrest⟩ := List.exists_cons_of_ne_nil hne
  simp [ThreadSafeQueue.front, ThreadSafeQueue.pop, hrest]

/-- Two messages are posted, and a push comes in between. -/
def postedRun : List (DisplayAction ℕ) :=
  [.setShowMsg true, .post ⟨.system, "Disconnected"⟩, .push 5, .post ⟨.error, "Read error"⟩]
    ++ List.replicate 7 .showStep

theorem messages_shown_once_postedRun : ∃ c h, (display ℕ).run .init postedRun = some (c, h) ∧
    printedMsgs h = [⟨.system, "Disconnected"⟩] ∧ c.pending = [⟨.error, "Read error"⟩] ∧
      [⟨.system, "Disconnected"⟩, ⟨.error, "Read error"⟩]
        = printedMsgs h ++ c.pending.filter Message.isQueued := by
  have hrun : (display ℕ).run .init postedRun = some (_, _) := rfl
  exact ⟨_, _, hrun, rfl, rfl, (messages_shown_once postedRun _ _ hrun).2⟩

/-! ## The moves of the show thread -/

/-- The moves of the show thread under the three flags, with what is told and what is taken from the
queue of messages. -/
inductive Move (showPushes showMsg running : Bool) :
    ShowThread → List (DisplayEvent α) → List Message → ShowThread → Prop
  | loop : Move _ _ _ .loop [] [] (if running then .msgFlag else .ended)
  | msgFlag : Move _ _ _ .msgFlag [] [] (if showMsg then .msgEmpty else .flag)
  | msgEmpty (b : Bool) : Move _ _ _ .msgEmpty [] [] (if b then .flag else .msgRunning)
  | msgRunning : Move _ _ _ .msgRunning [] [] (if running then .msgFront else .flag)
  | msgFront (m : Message) : Move _ _ _ .msgFront [] [] (.msgPrint m)
  | msgFrontCrash : Move _ _ _ .msgFront [] [] .crashed
  | msgPrint (m : Message) : Move _ _ _ (.msgPrint m) [.printMsg m] [] .msgPop
  | msgPop (m : Message) : Move _ _ _ .msgPop [] [m] .msgPrompt
  | msgPopCrash : Move _ _ _ .msgPop [] [] .crashed
  | msgPrompt : Move _ _ _ .msgPrompt [.prompt] [] .msgFlag
  | flag : Move _ _ _ .flag [] [] (if showPushes then .empty else .loop)
  | empty (b : Bool) : Move _ _ _ .empty [] [] (if b then .loop else .messages)
  | messages (b : Bool) : Move _ _ _ .messages [] [] (if b then .running else .loop)
  | running : Move _ _ _ .running [] [] (if running then .front else .loop)
  | front (push : PushPtr) : Move _ _ _ .front [.front (some push)] [] (.print push)
  | frontCrash : Move _ _ _ .front [.front none] [] .crashed
  | print (push : PushPtr) (content : Option α) :
    Move _ _ _ (.print push) [.print push content] [] (.pop push)
  | pop (push : PushPtr) (r : Option PushPtr) : Move _ _ _ (.pop push) [.pop push r] [] .hint
  | popCrash (push : PushPtr) : Move _ _ _ (.pop push) [.pop push none] [] .crashed
  | hint : Move _ _ _ .hint [.printMsg ⟨.hint, "Press ENTER to begin enter commands"⟩] [] .flag

/-- What a step of the show thread can do. -/
theorem exists_move (hstep : c.showStep = some (c', es)) :
    (c'.showPushes = c.showPushes ∧ c'.showMsg = c.showMsg ∧ c'.running = c.running) ∧
      ∃ taken, c.msgQueue.queue = taken ++ c'.msgQueue.queue ∧
        Move c.showPushes c.showMsg c.running c.showThread es taken c'.showThread := by
  unfold ConsoleUI.showStep ConsoleUI.goto at hstep
  cases hs : c.showThread with
  | crashed | ended => simp [hs] at hstep
  | loop | msgFlag | msgEmpty | msgRunning | flag | empty | messages | running | msgPrint
    | msgPrompt | print |
      hint =>
    simp only [hs] at hstep
    obtain ⟨rfl, rfl⟩ := Prod.mk.inj (Option.some_inj.mp hstep)
    exact ⟨⟨rfl, rfl, rfl⟩, [], rfl, by constructor⟩
  | msgFront | front | pop =>
    simp only [hs] at hstep
    split at hstep <;>
    · obtain ⟨rfl, rfl⟩ := Prod.mk.inj (Option.some_inj.mp hstep)
      exact ⟨⟨rfl, rfl, rfl⟩, [], rfl, by constructor⟩
  | msgPop =>
    simp only [hs] at hstep
    cases hqueue : c.msgQueue.queue with
    | nil =>
      simp only [ThreadSafeQueue.pop, hqueue] at hstep
      obtain ⟨rfl, rfl⟩ := Prod.mk.inj (Option.some_inj.mp hstep)
      exact ⟨⟨rfl, rfl, rfl⟩, [], hqueue.symm, .msgPopCrash⟩
    | cons m rest =>
      simp only [ThreadSafeQueue.pop, hqueue] at hstep
      obtain ⟨rfl, rfl⟩ := Prod.mk.inj (Option.some_inj.mp hstep)
      exact ⟨⟨rfl, rfl, rfl⟩, [m], rfl, .msgPop m⟩

/-! ## What is under way -/

/-- A push is shown. -/
def DisplayEvent.isPush : DisplayEvent α → Bool
  | .print _ _ => true
  | _ => false

/-- A message from the queue is shown. -/
def DisplayEvent.isMsg : DisplayEvent α → Bool
  | .printMsg m => m.isQueued
  | _ => false

namespace ShowThread

/-- How many pushes may still be shown when `show_pushes_` is off. -/
def upcomingPush : ShowThread → ℕ
  | .empty | .messages | .running | .front | .print _ => 1
  | _ => 0

/-- How many messages may still be shown when `show_msg_` is off. -/
def upcomingMsg : ShowThread → ℕ
  | .msgEmpty | .msgRunning | .msgFront | .msgPrint _ => 1
  | _ => 0

/-- How many messages may still be taken then. -/
def taking : ShowThread → ℕ
  | .msgEmpty | .msgRunning | .msgFront | .msgPrint _ | .msgPop => 1
  | _ => 0

/-- How many pushes and messages may still be shown when `running_` is off. -/
def committed : ShowThread → ℕ
  | .msgFront | .msgPrint _ | .front | .print _ => 1
  | _ => 0

/-- How many steps there are still to go then. -/
def rank : ShowThread → ℕ
  | .crashed | .ended => 0
  | .loop => 1
  | .running => 2
  | .messages => 3
  | .empty => 4
  | .flag => 5
  | .hint | .msgRunning => 6
  | .pop _ | .msgEmpty => 7
  | .print _ | .msgFlag => 8
  | .front | .msgPrompt => 9
  | .msgPop => 10
  | .msgPrint _ => 11
  | .msgFront => 12

theorem rank_le (place : ShowThread) : place.rank ≤ 12 := by
  cases place <;> simp [rank]

theorem upcoming_le (place : ShowThread) : place.upcomingPush + place.upcomingMsg ≤ 1 := by
  cases place <;> simp [upcomingPush, upcomingMsg]

theorem taking_le (place : ShowThread) : place.taking ≤ 1 := by
  cases place <;> simp [taking]

theorem committed_le (place : ShowThread) : place.committed ≤ 1 := by
  cases place <;> simp [committed]

end ShowThread

namespace Move

variable {showPushes showMsg running : Bool} {place place' : ShowThread} {taken : List Message}

theorem pushes (h : Move false showMsg running place es taken place') :
    es.countP DisplayEvent.isPush + place'.upcomingPush ≤ place.upcomingPush := by
  cases h with
  | loop | msgFlag | msgEmpty | msgRunning | empty | messages | running =>
    split_ifs <;> simp [ShowThread.upcomingPush]
  | _ => simp [ShowThread.upcomingPush, DisplayEvent.isPush]

theorem msgs (h : Move showPushes false running place es taken place') :
    es.countP DisplayEvent.isMsg + place'.upcomingMsg ≤ place.upcomingMsg ∧
      taken.length + place'.taking ≤ place.taking := by
  cases h with
  | loop | msgEmpty | msgRunning | flag | empty | messages | running =>
    split_ifs <;> simp [ShowThread.upcomingMsg, ShowThread.taking]
  | msgPrint m =>
    exact ⟨List.countP_le_length, Nat.le_refl _⟩
  | _ => simp [ShowThread.upcomingMsg, ShowThread.taking, DisplayEvent.isMsg, Message.isQueued]

theorem ends (h : Move showPushes showMsg false place es taken place') :
    place'.rank < place.rank ∧
      es.countP DisplayEvent.isPush + es.countP DisplayEvent.isMsg + place'.committed
        ≤ place.committed := by
  cases h with
  | msgFlag | msgEmpty | flag | empty | messages =>
    split_ifs <;> simp [ShowThread.rank, ShowThread.committed]
  | msgPrint m =>
    refine ⟨by simp [ShowThread.rank], ?_⟩
    have hshown : [(.printMsg m : DisplayEvent α)].countP DisplayEvent.isMsg ≤ 1 :=
      List.countP_le_length
    simpa [ShowThread.committed, DisplayEvent.isPush] using hshown
  | _ => simp [ShowThread.rank, ShowThread.committed, DisplayEvent.isPush, DisplayEvent.isMsg,
    Message.isQueued]

end Move

/-! ## The other actions -/

namespace DisplayAction

/-- The value that the action gives to a flag. -/
def showPushes? : DisplayAction α → Option Bool
  | .setShowPushes b => some b
  | _ => none

def showMsg? : DisplayAction α → Option Bool
  | .setShowMsg b => some b
  | _ => none

def running? : DisplayAction α → Option Bool
  | .setRunning b => some b
  | _ => none

/-- The show thread takes a step. -/
def isShowStep : DisplayAction α → Bool
  | .showStep => true
  | _ => false

end DisplayAction

/-- The flags are written by the main thread only. -/
theorem flags_of_step {a : DisplayAction α} (hstep : (display α).step c a = some (c', es)) :
    c'.showPushes = a.showPushes?.getD c.showPushes ∧ c'.showMsg = a.showMsg?.getD c.showMsg ∧
      c'.running = a.running?.getD c.running := by
  cases a with
  | push | post =>
    obtain ⟨rfl, rfl⟩ := Prod.mk.inj (Option.some_inj.mp hstep)
    exact ⟨rfl, rfl, rfl⟩
  | setShowPushes | setShowMsg | setRunning | handleDisconnect =>
    obtain ⟨rfl, rfl⟩ := eq_of_betweenCommands hstep
    exact ⟨rfl, rfl, rfl⟩
  | mainStep =>
    obtain ⟨rfl, place, queue, rfl⟩ := of_mainStep hstep
    exact ⟨rfl, rfl, rfl⟩
  | showStep => exact (exists_move hstep).1

/-- A step of another thread shows nothing and takes nothing. -/
theorem quiet_of_step {a : DisplayAction α} (ha : a ≠ .showStep)
    (hstep : (display α).step c a = some (c', es)) :
    es = [] ∧ c'.showThread = c.showThread ∧ c'.msgQueue.queue = c.msgQueue.queue ++ a.posted := by
  cases a with
  | push =>
    obtain ⟨rfl, rfl⟩ := Prod.mk.inj (Option.some_inj.mp hstep)
    exact ⟨rfl, rfl, (List.append_nil _).symm⟩
  | post m =>
    obtain ⟨rfl, rfl⟩ := Prod.mk.inj (Option.some_inj.mp hstep)
    exact ⟨rfl, rfl, rfl⟩
  | setShowPushes | setShowMsg | setRunning | handleDisconnect =>
    obtain ⟨rfl, rfl⟩ := eq_of_betweenCommands hstep
    exact ⟨rfl, rfl, (List.append_nil _).symm⟩
  | mainStep =>
    obtain ⟨rfl, place, queue, rfl⟩ := of_mainStep hstep
    exact ⟨rfl, rfl, (List.append_nil _).symm⟩
  | showStep => exact absurd rfl ha

theorem pushes_of_step {a : DisplayAction α} (hpushes : c.showPushes = false)
    (hstep : (display α).step c a = some (c', es)) :
    es.countP DisplayEvent.isPush + c'.showThread.upcomingPush ≤ c.showThread.upcomingPush := by
  by_cases ha : a = .showStep
  · subst ha
    obtain ⟨-, taken, -, hmove⟩ := exists_move hstep
    rw [hpushes] at hmove
    exact hmove.pushes
  · obtain ⟨rfl, hplace, -⟩ := quiet_of_step ha hstep
    rw [hplace]
    exact Nat.le_of_eq (Nat.zero_add _)

theorem msgs_of_step {a : DisplayAction α} (hmsg : c.showMsg = false)
    (hstep : (display α).step c a = some (c', es)) :
    es.countP DisplayEvent.isMsg + c'.showThread.upcomingMsg ≤ c.showThread.upcomingMsg ∧
      ∃ taken, c.msgQueue.queue ++ a.posted = taken ++ c'.msgQueue.queue ∧
        taken.length + c'.showThread.taking ≤ c.showThread.taking := by
  by_cases ha : a = .showStep
  · subst ha
    obtain ⟨-, taken, hqueue, hmove⟩ := exists_move hstep
    rw [hmsg] at hmove
    exact ⟨hmove.msgs.1, taken, (List.append_nil _).trans hqueue, hmove.msgs.2⟩
  · obtain ⟨rfl, hplace, hqueue⟩ := quiet_of_step ha hstep
    rw [hplace, hqueue]
    exact ⟨Nat.le_of_eq (Nat.zero_add _), [], rfl, Nat.le_of_eq (Nat.zero_add _)⟩

theorem ends_of_step {a : DisplayAction α} (hend : c.running = false)
    (hstep : (display α).step c a = some (c', es)) :
    [a].countP DisplayAction.isShowStep + c'.showThread.rank ≤ c.showThread.rank ∧
      es.countP DisplayEvent.isPush + es.countP DisplayEvent.isMsg + c'.showThread.committed
        ≤ c.showThread.committed := by
  by_cases ha : a = .showStep
  · subst ha
    obtain ⟨-, taken, -, hmove⟩ := exists_move hstep
    rw [hend] at hmove
    obtain ⟨hrank, hshown⟩ := hmove.ends
    have hone : [(.showStep : DisplayAction α)].countP DisplayAction.isShowStep ≤ 1 :=
      List.countP_le_length
    exact ⟨by omega, hshown⟩
  · obtain ⟨rfl, hplace, -⟩ := quiet_of_step ha hstep
    have hnone : [a].countP DisplayAction.isShowStep = 0 := by
      cases a <;> first | rfl | exact absurd rfl ha
    rw [hplace, hnone]
    exact ⟨Nat.le_of_eq (Nat.zero_add _), Nat.le_of_eq (Nat.zero_add _)⟩

end Console

end PushService
