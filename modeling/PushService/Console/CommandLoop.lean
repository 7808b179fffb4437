import PushService.Console.Connect
import PushService.Console.Messages

/-!
# The command loop of the console

`run` reads a line, turns off the display of pushes and then that of messages, executes the command
and turns the display of messages on again. The main thread does this while the show thread and the
network thread go on. What it does to the queues and flags they share is an action of `display`, and
every step performs at most one.

## What the flags are for

While a command is executed nothing new is shown, but the show thread may be on its way: at most one
push or message still comes (`undisturbed`). Pushes are shown only behind a line `show`
(`pushes_stop`), and after `exit` both threads come to their end (`exit_ends`).
-/

namespace PushService

namespace Console

open Numerals

variable {α : Type*}

/-! ## The loop -/

/-- Where the main thread is in `run`. -/
inductive Place
  /-- Before the test of `running_` and the prompt. -/
  | prompt
  /-- In `std::getline`. -/
  | getline
  /-- Before `show_pushes_ = false`, with the line that was read. -/
  | hidePushes (cmd : Bytes)
  /-- Before `show_msg_ = false`. -/
  | hideMessages (cmd : Bytes)
  /-- Before `processCommand`. -/
  | process (cmd : Bytes)
  /-- In `handleConnect`, reading the host. -/
  | host
  /-- In `handleConnect`, reading the port. -/
  | port (host : Bytes)
  /-- In `handleConnect`, waiting for a message. -/
  | connecting
  /-- In `handleDisconnect`, behind `client_.disconnect()`. -/
  | disconnecting
  /-- In `handleExit`, before `running_ = false`. -/
  | exiting
  /-- Before `show_msg_ = true`. -/
  | showMessages
  | ended
  deriving DecidableEq, Repr

/-- What the main thread does apart from the queues and the flags. -/
inductive MainEvent
  /-- It prints something, or tells the client to connect. -/
  | does (a : ConnectAction)
  | disconnect
  | stopClientLoop
  /-- The history is printed, or cleared. -/
  | handleHistory
  | handleClearHistory
  deriving DecidableEq, Repr

/-- What a run tells. -/
inductive LoopEvent (α : Type*)
  | display (e : DisplayEvent α)
  | main (e : MainEvent)
  deriving DecidableEq, Repr

/-- The console with its main thread; `isConnected` is that of the event handler, and `params` has
the host and the port of the client. -/
structure CommandLoop (α : Type*) where
  ui : ConsoleUI α
  place : Place
  isConnected : Bool
  params : ConnectionParams
  deriving DecidableEq, Repr

inductive LoopAction (α : Type*)
  /-- The client queues a push. -/
  | push (content : α)
  /-- The client queues a message. -/
  | post (m : Message)
  /-- The client writes `is_connected_`. -/
  | setConnected (b : Bool)
  /-- The show thread takes its next step. -/
  | showStep
  /-- A line is typed. -/
  | line (text : Bytes)
  /-- The main thread takes its next step. -/
  | mainStep
  deriving DecidableEq, Repr

def HELP : Bytes :=
  asciiText ("Commands:\n" ++ "  connect     - connect to server\n" ++
    "  show        - show receiving pushes\n" ++ "  status      - show connection status\n" ++
    "  history     - show push history\n" ++ "  clear       - clear push history\n" ++
    "  disconnect  - disconnect from server\n" ++ "  exit        - quit\n" ++
    "  help        - show available commands\n")

namespace CommandLoop

variable (c : CommandLoop α)

/-- The threads are started, and the help is printed. -/
def init : CommandLoop α := ⟨.init, .prompt, false, ⟨[], []⟩⟩

/-- `client_.connectionInfo()`. -/
def info : Bytes := connectionInfo c.params.host c.params.port

def printMsg (type : ConsoleMsgType) (msg : Bytes) : MainEvent := .does (.printMsg type msg)

/-- What the main thread is about to do: where it goes, the action on what it shares, and the
rest. -/
abbrev Decision (α : Type*) := Place × Option (DisplayAction α) × List MainEvent

/-- `processCommand`. -/
def processCommand (cmd : Bytes) : Decision α :=
  if cmd = asciiText "connect" then
    if c.isConnected then (.showMessages, none, [printMsg .error (asciiText "Already connected")])
    else (.host, none, [.does (.print (asciiText "Server IP: "))])
  else if cmd = asciiText "show" then
    if c.isConnected then (.showMessages, some (.setShowPushes true), [])
    else (.showMessages, none, [printMsg .system (asciiText "You're now not connected")])
  else if cmd = asciiText "status" then
    (.showMessages, none, [printMsg .system
      (if c.isConnected then asciiText "You're now connected to: " ++ c.info
        else asciiText "You're now not connected")])
  else if cmd = asciiText "history" then (.showMessages, none, [.handleHistory])
  else if cmd = asciiText "clear" then (.showMessages, none, [.handleClearHistory])
  else if cmd = asciiText "disconnect" then
    if c.isConnected then
      (.disconnecting, some .handleDisconnect,
        [.disconnect,
          .does (.loading (asciiText "Disconnecting from " ++ c.info ++ asciiText " "))])
    else (.showMessages, none, [printMsg .error (asciiText "Not connected")])
  else if cmd = asciiText "exit" then (.exiting, none, [.stopClientLoop])
  else if cmd = asciiText "help" then (.showMessages, none, [.does (.print HELP)])
  else (.showMessages, none, [printMsg .error (asciiText "Unknown command. Type 'help'")])

/-- The next step of the main thread, unless it waits for a line. -/
def decision : Option (Decision α) :=
  match c.place with
  | .prompt =>
    if c.ui.running then some (.getline, none, [.does (.print (asciiText "> "))])
    else some (.ended, none, [])
  | .hidePushes cmd => some (.hideMessages cmd, some (.setShowPushes false), [])
  | .hideMessages cmd =>
    some (if cmd = [] then .showMessages else .process cmd, some (.setShowMsg false), [])
  | .process cmd => some (c.processCommand cmd)
  | .connecting => some (if c.ui.msgQueue.empty then .connecting else .showMessages, none, [])
  | .disconnecting =>
    some (if c.ui.mainThread = .clearing then .showMessages else .disconnecting, some .mainStep, [])
  | .exiting =>
    some (.showMessages, some (.setRunning false),
      [printMsg .system (asciiText "Now exiting, Bye bye!")])
  | .showMessages => some (.prompt, some (.setShowMsg true), [])
  | .getline | .host | .port _ | .ended => none

/-- A line is read: a command, or one of the two lines of `handleConnect`. -/
def read (text : Bytes) : Option (CommandLoop α × List MainEvent) :=
  match c.place with
  | .getline => some ({ c with place := .hidePushes text }, [])
  | .host =>
    if text = [] then
      some ({ c with place := .showMessages }, [printMsg .error (asciiText "Invalid IP address")])
    else some ({ c with place := .port text }, [.does (.print (asciiText "Port: "))])
  | .port host =>
    -- what `handleConnect` does behind the two prompts
    let events := (handleConnect false host text).drop 2
    if .configure host text ∈ events then
      some ({ c with place := .connecting, params := ⟨host, text⟩ }, events.map .does)
    else some ({ c with place := .showMessages }, events.map .does)
  | _ => none

/-- Performs an action on what the threads share. -/
def perform (act : Option (DisplayAction α)) (events : List MainEvent) :
    Option (CommandLoop α × List (LoopEvent α)) :=
  match act with
  | none => some (c, events.map .main)
  | some act =>
    ((display α).step c.ui act).map fun r ↦
      ({ c with ui := r.1 }, events.map .main ++ r.2.map .display)

end CommandLoop

/-- The console under all its threads. -/
def commandLoop (α : Type*) : System (CommandLoop α) (LoopAction α) (LoopEvent α) where
  step c
    | .push content => c.perform (some (.push content)) []
    | .post m => c.perform (some (.post m)) []
    | .setConnected b => some ({ c with isConnected := b }, [])
    | .showStep => c.perform (some .showStep) []
    | .line text => (c.read text).map fun r ↦ (r.1, r.2.map .main)
    | .mainStep =>
      match c.decision with
      | none => none
      | some (place, act, events) => CommandLoop.perform { c with place } act events

variable {c c' : CommandLoop α} {a : LoopAction α} {es : List (LoopEvent α)}

namespace CommandLoop

/-! ## What a step can do -/

theorem perform_eq_some {act : DisplayAction α} {events : List MainEvent} :
    c.perform (some act) events = some (c', es) ↔
      ∃ ui es', (display α).step c.ui act = some (ui, es') ∧ c' = { c with ui } ∧
        es = events.map .main ++ es'.map .display := by
  simp [perform, eq_comm]

/-- An action leaves the main thread where it is, and writes the flags it names. -/
theorem frame_of_perform {act : Option (DisplayAction α)} {events : List MainEvent}
    (h : c.perform act events = some (c', es)) :
    c'.place = c.place ∧
      c'.ui.showPushes = (act.bind DisplayAction.showPushes?).getD c.ui.showPushes ∧
      c'.ui.showMsg = (act.bind DisplayAction.showMsg?).getD c.ui.showMsg ∧
      c'.ui.running = (act.bind DisplayAction.running?).getD c.ui.running := by
  cases act with
  | none =>
    obtain ⟨rfl, -⟩ := Prod.mk.inj (Option.some_inj.mp h)
    exact ⟨rfl, rfl, rfl, rfl⟩
  | some act =>
    obtain ⟨ui, es', hstep, rfl, -⟩ := perform_eq_some.mp h
    exact ⟨rfl, flags_of_step hstep⟩

/-- The action of the network thread or of the show thread. -/
def other? : LoopAction α → Option (DisplayAction α)
  | .push content => some (.push content)
  | .post m => some (.post m)
  | .showStep => some .showStep
  | _ => none

/-- What a step can do. -/
theorem step_cases (hstep : (commandLoop α).step c a = some (c', es)) :
    (∃ act, other? a = some act ∧ c.perform (some act) [] = some (c', es)) ∨
    (∃ b, a = .setConnected b ∧ c' = { c with isConnected := b } ∧ es = []) ∨
    (∃ text events, a = .line text ∧ c.read text = some (c', events) ∧ es = events.map .main) ∨
    ∃ place act events, a = .mainStep ∧ c.decision = some (place, act, events) ∧
      perform { c with place } act events = some (c', es) := by
  cases a with
  | push content => exact .inl ⟨_, rfl, hstep⟩
  | post m => exact .inl ⟨_, rfl, hstep⟩
  | showStep => exact .inl ⟨_, rfl, hstep⟩
  | setConnected b =>
    obtain ⟨rfl, rfl⟩ := Prod.mk.inj (Option.some_inj.mp hstep)
    exact .inr (.inl ⟨b, rfl, rfl, rfl⟩)
  | line text =>
    obtain ⟨⟨d, events⟩, hread, heq⟩ := Option.map_eq_some_iff.mp hstep
    obtain ⟨rfl, rfl⟩ := Prod.mk.inj heq
    exact .inr (.inr (.inl ⟨text, events, rfl, hread, rfl⟩))
  | mainStep =>
    change (match c.decision with
      | none => none
      | some (place, act, events) => perform { c with place } act events) = some (c', es) at hstep
    split at hstep
    · cases hstep
    · rename_i place act events hdecision
      exact .inr (.inr (.inr ⟨place, act, events, rfl, hdecision, hstep⟩))

theorem other?_flags {act : DisplayAction α} (h : other? a = some act) :
    act.showPushes? = none ∧ act.showMsg? = none ∧ act.running? = none := by
  cases a <;> simp [other?] at h <;> subst h <;> exact ⟨rfl, rfl, rfl⟩

/-- Where a command leads, and with what action. -/
theorem processCommand_spec (c : CommandLoop α) (cmd : Bytes) {place : Place}
    {act : Option (DisplayAction α)} {events : List MainEvent}
    (h : c.processCommand cmd = (place, act, events)) :
    (place = .showMessages ∧
      (act = none ∨ cmd = asciiText "show" ∧ act = some (.setShowPushes true))) ∨
      ((place = .host ∨ place = .exiting) ∧ act = none) ∨
      (place = .disconnecting ∧ act = some .handleDisconnect) := by
  unfold processCommand at h
  split_ifs at h <;>
  · simp only [Prod.mk.injEq] at h
    obtain ⟨rfl, rfl, -⟩ := h
    simp_all

end CommandLoop

/-! ## What the flags say -/

namespace Place

/-- A command is being executed. -/
def isBusy : Place → Bool
  | .process _ | .host | .port _ | .connecting | .disconnecting | .exiting => true
  | _ => false

/-- Where the main thread may be behind `exit`. -/
def isEnding : Place → Bool
  | .showMessages | .prompt | .ended => true
  | _ => false

/-- The command that is about to be executed. -/
def cmd? : Place → Option Bytes
  | .hidePushes cmd | .hideMessages cmd | .process cmd => some cmd
  | _ => none

end Place

namespace CommandLoop

/-- The flags are off while a command is executed, and `running_` is off behind `exit` only. -/
structure FlagsSet (c : CommandLoop α) : Prop where
  hidden : ∀ cmd, c.place = .hideMessages cmd → c.ui.showPushes = false
  off : c.place.isBusy → c.ui.showPushes = false ∧ c.ui.showMsg = false
  running : c.ui.running = false → c.place.isEnding

theorem FlagsSet.of_ending (h : c.place.isEnding) : c.FlagsSet := by
  refine ⟨fun cmd hplace ↦ ?_, fun hbusy ↦ ?_, fun _ ↦ h⟩
  · rw [hplace] at h
    cases h
  · cases hplace : c.place <;> simp [hplace, Place.isEnding, Place.isBusy] at h hbusy

theorem FlagsSet.of_busy (h : c.place.isBusy)
    (hoff : c.ui.showPushes = false ∧ c.ui.showMsg = false)
    (hrunning : c.ui.running = true) : c.FlagsSet := by
  refine ⟨fun cmd hplace ↦ ?_, fun _ ↦ hoff, fun hend ↦ ?_⟩
  · rw [hplace] at h
    cases h
  · rw [hrunning] at hend
    cases hend

theorem FlagsSet.of_line (h : c.place.isBusy = false) (hrunning : c.ui.running = true)
    (hhidden : ∀ cmd, c.place = .hideMessages cmd → c.ui.showPushes = false) : c.FlagsSet := by
  refine ⟨hhidden, fun hbusy ↦ ?_, fun hend ↦ ?_⟩
  · rw [h] at hbusy
    cases hbusy
  · rw [hrunning] at hend
    cases hend

theorem flagsSet_init : (init : CommandLoop α).FlagsSet := .of_ending rfl

theorem FlagsSet.congr (h : c.FlagsSet) (hplace : c'.place = c.place)
    (hpushes : c'.ui.showPushes = c.ui.showPushes) (hmsg : c'.ui.showMsg = c.ui.showMsg)
    (hrunning : c'.ui.running = c.ui.running) : c'.FlagsSet := by
  refine ⟨?_, ?_, ?_⟩
  · rw [hplace, hpushes]
    exact h.hidden
  · rw [hplace, hpushes, hmsg]
    exact h.off
  · rw [hplace, hrunning]
    exact h.running

/-- The main thread is not at its end. -/
theorem FlagsSet.running_of_not_ending (h : c.FlagsSet) (hplace : c.place.isEnding = false) :
    c.ui.running = true := by
  rw [← Bool.not_eq_false]
  intro hrunning
  rw [h.running hrunning] at hplace
  cases hplace

theorem FlagsSet.read (h : c.FlagsSet) {text : Bytes} {events : List MainEvent}
    (hread : c.read text = some (c', events)) : c'.FlagsSet := by
  unfold CommandLoop.read at hread
  cases hplace : c.place with
  | getline =>
    simp only [hplace] at hread
    obtain ⟨rfl, -⟩ := Prod.mk.inj (Option.some_inj.mp hread)
    have hrunning := h.running_of_not_ending (by rw [hplace]; rfl)
    exact .of_line rfl hrunning fun _ h ↦ by cases h
  | host =>
    simp only [hplace] at hread
    have hrunning := h.running_of_not_ending (by rw [hplace]; rfl)
    have hoff := h.off (by rw [hplace]; rfl)
    split_ifs at hread
    · obtain ⟨rfl, -⟩ := Prod.mk.inj (Option.some_inj.mp hread)
      exact .of_ending rfl
    · obtain ⟨rfl, -⟩ := Prod.mk.inj (Option.some_inj.mp hread)
      exact .of_busy rfl hoff hrunning
  | port host =>
    simp only [hplace] at hread
    have hrunning := h.running_of_not_ending (by rw [hplace]; rfl)
    have hoff := h.off (by rw [hplace]; rfl)
    split_ifs at hread
    · obtain ⟨rfl, -⟩ := Prod.mk.inj (Option.some_inj.mp hread)
      exact .of_busy rfl hoff hrunning
    · obtain ⟨rfl, -⟩ := Prod.mk.inj (Option.some_inj.mp hread)
      exact .of_ending rfl
  | _ => simp [hplace] at hread

/-- The main thread takes a step. -/
theorem FlagsSet.mainStep (h : c.FlagsSet) {place : Place} {act : Option (DisplayAction α)}
    {events : List MainEvent} (hdecision : c.decision = some (place, act, events))
    (hperform : perform { c with place } act events = some (c', es)) : c'.FlagsSet := by
  obtain ⟨hplace', hpushes, hmsg, hrunning⟩ := frame_of_perform hperform
  dsimp only at hplace' hpushes hmsg hrunning
  unfold decision at hdecision
  cases hplace : c.place with
  | getline | host | port | ended => simp [hplace] at hdecision
  | prompt =>
    simp only [hplace] at hdecision
    split_ifs at hdecision with hrun
    · simp only [Option.some_inj, Prod.mk.injEq] at hdecision
      obtain ⟨rfl, rfl, -⟩ := hdecision
      refine .of_line (by rw [hplace']; rfl) (hrunning.trans hrun) fun cmd hcmd ↦ ?_
      rw [hplace'] at hcmd
      cases hcmd
    · simp only [Option.some_inj, Prod.mk.injEq] at hdecision
      obtain ⟨rfl, rfl, -⟩ := hdecision
      exact .of_ending (by rw [hplace']; rfl)
  | hidePushes cmd =>
    simp only [hplace, Option.some_inj, Prod.mk.injEq] at hdecision
    obtain ⟨rfl, rfl, -⟩ := hdecision
    have hrun := h.running_of_not_ending (by rw [hplace]; rfl)
    exact .of_line (by rw [hplace']; rfl) (hrunning.trans hrun) fun _ _ ↦ hpushes
  | hideMessages cmd =>
    simp only [hplace, Option.some_inj, Prod.mk.injEq] at hdecision
    obtain ⟨rfl, rfl, -⟩ := hdecision
    have hrun := h.running_of_not_ending (by rw [hplace]; rfl)
    by_cases hcmd : cmd = []
    · rw [if_pos hcmd] at hplace'
      exact .of_ending (by rw [hplace']; rfl)
    · rw [if_neg hcmd] at hplace'
      exact .of_busy (by rw [hplace']; rfl) ⟨hpushes.trans (h.hidden cmd hplace), hmsg⟩
        (hrunning.trans hrun)
  | process cmd =>
    simp only [hplace, Option.some_inj] at hdecision
    have hrun := h.running_of_not_ending (by rw [hplace]; rfl)
    have hoff := h.off (by rw [hplace]; rfl)
    obtain ⟨rfl, -⟩ | ⟨rfl | rfl, rfl⟩ | ⟨rfl, rfl⟩ := processCommand_spec c cmd hdecision
    · exact .of_ending (by rw [hplace']; rfl)
    all_goals
      exact .of_busy (by rw [hplace']; rfl) ⟨hpushes.trans hoff.1, hmsg.trans hoff.2⟩
        (hrunning.trans hrun)
  | connecting =>
    simp only [hplace, Option.some_inj, Prod.mk.injEq] at hdecision
    obtain ⟨rfl, rfl, -⟩ := hdecision
    have hrun := h.running_of_not_ending (by rw [hplace]; rfl)
    have hoff := h.off (by rw [hplace]; rfl)
    split_ifs at hplace'
    · exact .of_busy (by rw [hplace']; rfl) ⟨hpushes.trans hoff.1, hmsg.trans hoff.2⟩
        (hrunning.trans hrun)
    · exact .of_ending (by rw [hplace']; rfl)
  | disconnecting =>
    simp only [hplace, Option.some_inj, Prod.mk.injEq] at hdecision
    obtain ⟨rfl, rfl, -⟩ := hdecision
    have hrun := h.running_of_not_ending (by rw [hplace]; rfl)
    have hoff := h.off (by rw [hplace]; rfl)
    split_ifs at hplace'
    · exact .of_ending (by rw [hplace']; rfl)
    · exact .of_busy (by rw [hplace']; rfl) ⟨hpushes.trans hoff.1, hmsg.trans hoff.2⟩
        (hrunning.trans hrun)
  | exiting | showMessages =>
    simp only [hplace, Option.some_inj, Prod.mk.injEq] at hdecision
    obtain ⟨rfl, rfl, -⟩ := hdecision
    exact .of_ending (by rw [hplace']; rfl)

theorem FlagsSet.step (h : c.FlagsSet) (hstep : (commandLoop α).step c a = some (c', es)) :
    c'.FlagsSet := by
  obtain ⟨act, hact, hperform⟩ | ⟨b, -, rfl, -⟩ | ⟨text, events, -, hread, -⟩ |
    ⟨place, act, events, -, hdecision, hperform⟩ := step_cases hstep
  · obtain ⟨hplace, hpushes, hmsg, hrunning⟩ := frame_of_perform hperform
    obtain ⟨h₁, h₂, h₃⟩ := other?_flags hact
    rw [Option.bind_some, h₁] at hpushes
    rw [Option.bind_some, h₂] at hmsg
    rw [Option.bind_some, h₃] at hrunning
    exact h.congr hplace hpushes hmsg hrunning
  · exact h.congr rfl rfl rfl rfl
  · exact h.read hread
  · exact h.mainStep hdecision hperform

/-! ## What is shown -/

end CommandLoop

/-- What the show thread tells. -/
def shown (h : List (LoopEvent α)) : List (DisplayEvent α) :=
  h.filterMap fun
    | .display e => some e
    | .main _ => none

theorem shown_append (h es : List (LoopEvent α)) : shown (h ++ es) = shown h ++ shown es :=
  List.filterMap_append ..

theorem shown_of_main (events : List MainEvent) :
    shown (events.map (.main : MainEvent → LoopEvent α)) = [] := by
  simp [shown, List.filterMap_map]

theorem shown_of_display (es : List (DisplayEvent α)) : shown (es.map .display) = es := by
  simp [shown, List.filterMap_map]

namespace LoopAction

/-- What an action adds to the queue of messages. -/
def posted : LoopAction α → List Message
  | .post m => [m]
  | _ => []

/-- The line that is read. -/
def line? : LoopAction α → Option Bytes
  | .line text => some text
  | _ => none

def isShowStep : LoopAction α → Bool
  | .showStep => true
  | _ => false

def isMainStep : LoopAction α → Bool
  | .mainStep => true
  | _ => false

end LoopAction

namespace CommandLoop

theorem read_ui {text : Bytes} {events : List MainEvent} (hread : c.read text = some (c', events)) :
    c'.ui = c.ui := by
  unfold CommandLoop.read at hread
  split at hread
  · obtain ⟨rfl, -⟩ := Prod.mk.inj (Option.some_inj.mp hread)
    rfl
  · split_ifs at hread <;>
    · obtain ⟨rfl, -⟩ := Prod.mk.inj (Option.some_inj.mp hread)
      rfl
  · dsimp only at hread
    split_ifs at hread <;>
    · obtain ⟨rfl, -⟩ := Prod.mk.inj (Option.some_inj.mp hread)
      rfl
  · cases hread

/-- The main thread posts nothing and takes no step of the show thread. -/
theorem act_of_decision {place : Place} {act : DisplayAction α} {events : List MainEvent}
    (hdecision : c.decision = some (place, some act, events)) :
    act.posted = [] ∧ act.isShowStep = false := by
  unfold decision at hdecision
  cases hplace : c.place with
  | prompt =>
    simp only [hplace] at hdecision
    split_ifs at hdecision <;> simp at hdecision
  | process cmd =>
    simp only [hplace, Option.some_inj] at hdecision
    obtain ⟨-, hact | ⟨-, hact⟩⟩ | ⟨-, hact⟩ | ⟨-, hact⟩ := processCommand_spec c cmd hdecision
    · cases hact
    · cases hact
      exact ⟨rfl, rfl⟩
    · cases hact
    · cases hact
      exact ⟨rfl, rfl⟩
  | hidePushes | hideMessages | disconnecting | exiting | showMessages =>
    simp only [hplace, Option.some_inj, Prod.mk.injEq] at hdecision
    obtain ⟨-, rfl, -⟩ := hdecision
    exact ⟨rfl, rfl⟩
  | getline | host | port | connecting | ended => simp [hplace] at hdecision

/-- **Refinement**: a step leaves alone what the threads share, or it is one action on it. -/
theorem display_of_step (hstep : (commandLoop α).step c a = some (c', es)) :
    (c'.ui = c.ui ∧ shown es = [] ∧ a.posted = [] ∧ a.isShowStep = false) ∨
      ∃ act, (display α).step c.ui act = some (c'.ui, shown es) ∧ act.posted = a.posted ∧
        act.isShowStep = a.isShowStep := by
  obtain ⟨act, hact, hperform⟩ | ⟨b, rfl, rfl, rfl⟩ | ⟨text, events, rfl, hread, rfl⟩ |
    ⟨place, act, events, rfl, hdecision, hperform⟩ := step_cases hstep
  · obtain ⟨ui, es', hui, rfl, rfl⟩ := perform_eq_some.mp hperform
    refine .inr ⟨act, ?_, ?_⟩
    · rw [shown_append, shown_of_main, shown_of_display]
      exact hui
    · cases a <;> simp [other?] at hact <;> subst hact <;> exact ⟨rfl, rfl⟩
  · exact .inl ⟨rfl, rfl, rfl, rfl⟩
  · exact .inl ⟨read_ui hread, shown_of_main events, rfl, rfl⟩
  · cases act with
    | none =>
      obtain ⟨rfl, rfl⟩ := Prod.mk.inj (Option.some_inj.mp hperform)
      exact .inl ⟨rfl, shown_of_main events, rfl, rfl⟩
    | some act =>
      obtain ⟨ui, es', hui, rfl, rfl⟩ := perform_eq_some.mp hperform
      refine .inr ⟨act, ?_, act_of_decision hdecision⟩
      rw [shown_append, shown_of_main, shown_of_display]
      exact hui

/-! ## While a command is executed -/

theorem disturbance_of_step (hpushes : c.ui.showPushes = false) (hmsg : c.ui.showMsg = false)
    (hstep : (commandLoop α).step c a = some (c', es)) :
    ((shown es).countP DisplayEvent.isPush + c'.ui.showThread.upcomingPush
        ≤ c.ui.showThread.upcomingPush ∧
      (shown es).countP DisplayEvent.isMsg + c'.ui.showThread.upcomingMsg
        ≤ c.ui.showThread.upcomingMsg) ∧
    ∃ taken, c.ui.msgQueue.queue ++ a.posted = taken ++ c'.ui.msgQueue.queue ∧
      taken.length + c'.ui.showThread.taking ≤ c.ui.showThread.taking := by
  obtain ⟨hui, hshown, hposted, -⟩ | ⟨act, hact, hposted, -⟩ := display_of_step hstep
  · rw [hui, hshown, hposted, List.append_nil]
    exact ⟨⟨Nat.le_of_eq (Nat.zero_add _), Nat.le_of_eq (Nat.zero_add _)⟩, [], rfl,
      Nat.le_of_eq (Nat.zero_add _)⟩
  · obtain ⟨hmsgs, htaken⟩ := msgs_of_step hmsg hact
    rw [← hposted]
    exact ⟨⟨pushes_of_step hpushes hact, hmsgs⟩, htaken⟩

theorem disturbance_of_run {as : List (LoopAction α)} {h : List (LoopEvent α)} (hflags : c.FlagsSet)
    (hrun : (commandLoop α).run c as = some (c', h))
    (hbusy : (commandLoop α).Obeys (fun c _ ↦ c.place.isBusy = true) c as) :
    ((shown h).countP DisplayEvent.isPush + c'.ui.showThread.upcomingPush
        ≤ c.ui.showThread.upcomingPush ∧
      (shown h).countP DisplayEvent.isMsg + c'.ui.showThread.upcomingMsg
        ≤ c.ui.showThread.upcomingMsg) ∧
    ∃ taken, c.ui.msgQueue.queue ++ as.flatMap LoopAction.posted = taken ++ c'.ui.msgQueue.queue ∧
      taken.length + c'.ui.showThread.taking ≤ c.ui.showThread.taking := by
  induction as generalizing c h with
  | nil =>
    obtain ⟨rfl, rfl⟩ : c = c' ∧ [] = h := by simpa using hrun
    exact ⟨⟨Nat.le_of_eq (Nat.zero_add _), Nat.le_of_eq (Nat.zero_add _)⟩, [], List.append_nil _,
      Nat.le_of_eq (Nat.zero_add _)⟩
  | cons a as ih =>
    obtain ⟨d, es, fs, hstep, hrest, rfl⟩ := System.run_cons_eq_some.mp hrun
    obtain ⟨hpushes, hmsg⟩ := hflags.off hbusy.1
    obtain ⟨⟨hp, hm⟩, taken, hqueue, htaken⟩ := disturbance_of_step hpushes hmsg hstep
    obtain ⟨⟨hp', hm'⟩, taken', hqueue', htaken'⟩ := ih (hflags.step hstep) hrest (hbusy.2 _ hstep)
    rw [shown_append, List.countP_append, List.countP_append]
    refine ⟨⟨by omega, by omega⟩, taken ++ taken', ?_, ?_⟩
    · rw [List.flatMap_cons, ← List.append_assoc, hqueue, List.append_assoc, hqueue',
        List.append_assoc]
    · rw [List.length_append]
      omega

theorem flagsSet_of_run {as : List (LoopAction α)} {h : List (LoopEvent α)}
    (hrun : (commandLoop α).run init as = some (c, h)) : c.FlagsSet :=
  System.run_invariant (I := fun c _ ↦ c.FlagsSet) (h := []) (fun hI hst ↦ hI.step hst)
    flagsSet_init hrun

/-- **Commands are not disturbed.** However long the main thread is busy with a command, at most one
push or message is shown meanwhile, and at most one message is taken from the queue. So the second
message that comes ends the waiting of `connect` and `disconnect`, if the first does not. -/
theorem undisturbed (as bs : List (LoopAction α)) (c c' : CommandLoop α) (h h' : List (LoopEvent α))
    (hrun : (commandLoop α).run init as = some (c, h))
    (hrest : (commandLoop α).run c bs = some (c', h'))
    (hbusy : (commandLoop α).Obeys (fun c _ ↦ c.place.isBusy = true) c bs) :
    (shown h').countP DisplayEvent.isPush + (shown h').countP DisplayEvent.isMsg ≤ 1 ∧
      ∃ taken : List Message, taken.length ≤ 1 ∧
        c.ui.msgQueue.queue ++ bs.flatMap LoopAction.posted = taken ++ c'.ui.msgQueue.queue := by
  obtain ⟨⟨hpushes, hmsgs⟩, taken, hqueue, htaken⟩ :=
    disturbance_of_run (flagsSet_of_run hrun) hrest hbusy
  have hupcoming := c.ui.showThread.upcoming_le
  have htaking := c.ui.showThread.taking_le
  exact ⟨by omega, taken, by omega, hqueue⟩

/-- The user disconnects while a message is on its way, and is answered by two more. -/
def disconnectRun : List (LoopAction ℕ) :=
  [.setConnected true, .mainStep, .line [], .mainStep, .mainStep, .mainStep, .mainStep,
      .post ⟨.error, "Read error"⟩] ++ List.replicate 4 .showStep ++
    [.line (asciiText "disconnect"), .mainStep, .mainStep]

def answersRun : List (LoopAction ℕ) :=
  [.mainStep] ++ List.replicate 3 .showStep ++
    [.mainStep, .post ⟨.system, "Disconnected"⟩, .post ⟨.system, "Reconnect in 3 seconds..."⟩]
    ++ List.replicate 5 .showStep ++ [.mainStep]

theorem undisturbed_answersRun : ∃ c h c' h', (commandLoop ℕ).run init disconnectRun = some (c, h) ∧
    (commandLoop ℕ).run c answersRun = some (c', h') ∧
    (shown h').countP DisplayEvent.isPush + (shown h').countP DisplayEvent.isMsg ≤ 1 ∧
    c'.ui.mainThread = .clearing := by
  have hrun : (commandLoop ℕ).run init disconnectRun = some (_, _) := rfl
  exact ⟨_, _, _, _, hrun, rfl,
    (undisturbed disconnectRun answersRun _ _ _ _ hrun rfl (by decide)).1, rfl⟩

/-! ## Behind `show` -/

/-- The lines that are read in a run. -/
def lines (as : List (LoopAction α)) : List Bytes := as.filterMap LoopAction.line?

/-- Unless the flag is about to be reset, pushes are shown only if the last line is `show`; and the
command at hand is the last line. -/
structure ShowsBehind (c : CommandLoop α) (ls : List Bytes) : Prop where
  shows : c.ui.showPushes = true → (∀ cmd, c.place ≠ .hidePushes cmd) →
    ls.getLast? = some (asciiText "show")
  cmd : ∀ cmd, c.place.cmd? = some cmd → ls.getLast? = some cmd

theorem showsBehind_of_read (ls : List Bytes) (hflags : c.FlagsSet) {text : Bytes}
    {events : List MainEvent} (hread : c.read text = some (c', events)) :
    c'.ShowsBehind (ls ++ [text]) := by
  have hui := read_ui hread
  unfold CommandLoop.read at hread
  cases hplace : c.place with
  | getline =>
    simp only [hplace] at hread
    obtain ⟨rfl, -⟩ := Prod.mk.inj (Option.some_inj.mp hread)
    refine ⟨fun _ hne ↦ absurd rfl (hne text), fun cmd hcmd ↦ ?_⟩
    rw [List.getLast?_concat]
    exact hcmd
  | host | port =>
    have hoff := (hflags.off (by rw [hplace]; rfl)).1
    simp only [hplace] at hread
    split_ifs at hread <;>
    · obtain ⟨rfl, -⟩ := Prod.mk.inj (Option.some_inj.mp hread)
      refine ⟨fun hshow ↦ ?_, fun cmd hcmd ↦ by cases hcmd⟩
      rw [hui, hoff] at hshow
      cases hshow
  | _ => simp [hplace] at hread

theorem ShowsBehind.mainStep {ls : List Bytes} (h : c.ShowsBehind ls) (hflags : c.FlagsSet)
    {place : Place} {act : Option (DisplayAction α)} {events : List MainEvent}
    (hdecision : c.decision = some (place, act, events))
    (hperform : perform { c with place } act events = some (c', es)) : c'.ShowsBehind ls := by
  obtain ⟨hplace', hpushes, -, -⟩ := frame_of_perform hperform
  dsimp only at hplace' hpushes
  -- where the flag is off and no command is at hand, nothing is to be shown
  have hoff : c'.ui.showPushes = false → c'.place.cmd? = none → c'.ShowsBehind ls := by
    intro hfalse hnone
    refine ⟨fun hshow ↦ ?_, fun cmd hcmd ↦ ?_⟩
    · rw [hfalse] at hshow
      cases hshow
    · rw [hnone] at hcmd
      cases hcmd
  unfold decision at hdecision
  cases hplace : c.place with
  | getline | host | port | ended => simp [hplace] at hdecision
  | prompt =>
    simp only [hplace] at hdecision
    split_ifs at hdecision <;>
    · simp only [Option.some_inj, Prod.mk.injEq] at hdecision
      obtain ⟨rfl, rfl, -⟩ := hdecision
      refine ⟨fun hshow _ ↦ h.shows (hpushes.symm.trans hshow) fun cmd hcmd ↦ ?_, fun cmd hcmd ↦ ?_⟩
      · rw [hplace] at hcmd
        cases hcmd
      · rw [hplace'] at hcmd
        cases hcmd
  | showMessages =>
    simp only [hplace, Option.some_inj, Prod.mk.injEq] at hdecision
    obtain ⟨rfl, rfl, -⟩ := hdecision
    refine ⟨fun hshow _ ↦ h.shows (hpushes.symm.trans hshow) fun cmd hcmd ↦ ?_, fun cmd hcmd ↦ ?_⟩
    · rw [hplace] at hcmd
      cases hcmd
    · rw [hplace'] at hcmd
      cases hcmd
  | hidePushes cmd =>
    simp only [hplace, Option.some_inj, Prod.mk.injEq] at hdecision
    obtain ⟨rfl, rfl, -⟩ := hdecision
    refine ⟨fun hshow ↦ ?_, fun cmd' hcmd ↦ ?_⟩
    · rw [hpushes] at hshow
      cases hshow
    · rw [hplace'] at hcmd
      exact h.cmd cmd' (by rw [hplace]; exact hcmd)
  | hideMessages cmd =>
    simp only [hplace, Option.some_inj, Prod.mk.injEq] at hdecision
    obtain ⟨rfl, rfl, -⟩ := hdecision
    have hhidden := hpushes.trans (hflags.hidden cmd hplace)
    split_ifs at hplace'
    · exact hoff hhidden (by rw [hplace']; rfl)
    · refine ⟨fun hshow ↦ ?_, fun cmd' hcmd ↦ ?_⟩
      · rw [hhidden] at hshow
        cases hshow
      · rw [hplace'] at hcmd
        exact h.cmd cmd' (by rw [hplace]; exact hcmd)
  | process cmd =>
    simp only [hplace, Option.some_inj] at hdecision
    have hhidden := (hflags.off (by rw [hplace]; rfl)).1
    obtain ⟨rfl, rfl | ⟨hcmd, rfl⟩⟩ | ⟨rfl | rfl, rfl⟩ | ⟨rfl, rfl⟩ :=
      processCommand_spec c cmd hdecision
    · exact hoff (hpushes.trans hhidden) (by rw [hplace']; rfl)
    · refine ⟨fun _ _ ↦ ?_, fun cmd' hcmd' ↦ ?_⟩
      · rw [← hcmd]
        exact h.cmd cmd (by rw [hplace]; rfl)
      · rw [hplace'] at hcmd'
        cases hcmd'
    all_goals exact hoff (hpushes.trans hhidden) (by rw [hplace']; rfl)
  | connecting | disconnecting | exiting =>
    have hhidden := (hflags.off (by rw [hplace]; rfl)).1
    simp only [hplace, Option.some_inj, Prod.mk.injEq] at hdecision
    obtain ⟨rfl, rfl, -⟩ := hdecision
    refine hoff (hpushes.trans hhidden) ?_
    rw [hplace']
    first | rfl | (split_ifs <;> rfl)

theorem ShowsBehind.step {ls : List Bytes} (h : c.ShowsBehind ls) (hflags : c.FlagsSet)
    (hstep : (commandLoop α).step c a = some (c', es)) : c'.ShowsBehind (ls ++ a.line?.toList) := by
  obtain ⟨act, hact, hperform⟩ | ⟨b, rfl, rfl, -⟩ | ⟨text, events, rfl, hread, -⟩ |
    ⟨place, act, events, rfl, hdecision, hperform⟩ := step_cases hstep
  · obtain ⟨hplace, hpushes, -, -⟩ := frame_of_perform hperform
    rw [Option.bind_some, (other?_flags hact).1] at hpushes
    have hnone : a.line? = none := by cases a <;> first | rfl | simp [other?] at hact
    rw [hnone, Option.toList_none, List.append_nil]
    refine ⟨fun hshow hne ↦ h.shows (hpushes.symm.trans hshow) fun cmd hcmd ↦ ?_, ?_⟩
    · exact hne cmd (hplace.trans hcmd)
    · rw [hplace]
      exact h.cmd
  · change ShowsBehind _ (ls ++ [])
    rw [List.append_nil]
    exact ⟨h.shows, h.cmd⟩
  · exact showsBehind_of_read ls hflags hread
  · change ShowsBehind _ (ls ++ [])
    rw [List.append_nil]
    exact h.mainStep hflags hdecision hperform

theorem showsBehind_of_run {as : List (LoopAction α)} {h : List (LoopEvent α)} {ls : List Bytes}
    (hbehind : c.ShowsBehind ls) (hflags : c.FlagsSet)
    (hrun : (commandLoop α).run c as = some (c', h)) : c'.ShowsBehind (ls ++ lines as) := by
  induction as generalizing c h ls with
  | nil =>
    obtain ⟨rfl, -⟩ : c = c' ∧ [] = h := by simpa using hrun
    rwa [lines, List.filterMap_nil, List.append_nil]
  | cons a as ih =>
    obtain ⟨d, es, fs, hstep, hrest, -⟩ := System.run_cons_eq_some.mp hrun
    have hbehind' := ih (hbehind.step hflags hstep) (hflags.step hstep) hrest
    rw [List.append_assoc] at hbehind'
    have hlines : lines (a :: as) = a.line?.toList ++ lines as := by
      rw [lines, lines, List.filterMap_cons]
      cases a.line? <;> rfl
    rwa [hlines]

/-- No push is to be shown, and no `show` is at hand. -/
def Hides (c : CommandLoop α) : Prop :=
  c.ui.showPushes = false ∧ c.place.cmd? ≠ some (asciiText "show")

theorem Hides.step (h : c.Hides) (hline : a.line? ≠ some (asciiText "show"))
    (hstep : (commandLoop α).step c a = some (c', es)) : c'.Hides := by
  obtain ⟨act, hact, hperform⟩ | ⟨b, rfl, rfl, -⟩ | ⟨text, events, rfl, hread, -⟩ |
    ⟨place, act, events, rfl, hdecision, hperform⟩ := step_cases hstep
  · obtain ⟨hplace, hpushes, -, -⟩ := frame_of_perform hperform
    rw [Option.bind_some, (other?_flags hact).1] at hpushes
    exact ⟨hpushes.trans h.1, by rw [hplace]; exact h.2⟩
  · exact h
  · refine ⟨(congrArg ConsoleUI.showPushes (read_ui hread)).trans h.1, ?_⟩
    unfold CommandLoop.read at hread
    cases hplace : c.place with
    | getline =>
      simp only [hplace] at hread
      obtain ⟨rfl, -⟩ := Prod.mk.inj (Option.some_inj.mp hread)
      exact hline
    | host | port =>
      simp only [hplace] at hread
      split_ifs at hread <;>
      · obtain ⟨rfl, -⟩ := Prod.mk.inj (Option.some_inj.mp hread)
        exact (Option.some_ne_none _).symm
    | _ => simp [hplace] at hread
  · obtain ⟨hplace', hpushes, -, -⟩ := frame_of_perform hperform
    dsimp only at hplace' hpushes
    unfold decision at hdecision
    cases hplace : c.place with
    | getline | host | port | ended => simp [hplace] at hdecision
    | prompt =>
      simp only [hplace] at hdecision
      split_ifs at hdecision <;>
      · simp only [Option.some_inj, Prod.mk.injEq] at hdecision
        obtain ⟨rfl, rfl, -⟩ := hdecision
        exact ⟨hpushes.trans h.1, by rw [hplace']; exact (Option.some_ne_none _).symm⟩
    | hidePushes cmd =>
      simp only [hplace, Option.some_inj, Prod.mk.injEq] at hdecision
      obtain ⟨rfl, rfl, -⟩ := hdecision
      have hcmd := h.2
      rw [hplace] at hcmd
      exact ⟨hpushes, by rw [hplace']; exact hcmd⟩
    | hideMessages cmd =>
      simp only [hplace, Option.some_inj, Prod.mk.injEq] at hdecision
      obtain ⟨rfl, rfl, -⟩ := hdecision
      have hcmd := h.2
      rw [hplace] at hcmd
      refine ⟨hpushes.trans h.1, ?_⟩
      rw [hplace']
      split_ifs
      · exact (Option.some_ne_none _).symm
      · exact hcmd
    | process cmd =>
      simp only [hplace, Option.some_inj] at hdecision
      have hcmd := h.2
      rw [hplace] at hcmd
      obtain ⟨rfl, rfl | ⟨heq, -⟩⟩ | ⟨rfl | rfl, rfl⟩ | ⟨rfl, rfl⟩ :=
        processCommand_spec c cmd hdecision
      case inl.inr => exact absurd (congrArg some heq) hcmd
      all_goals exact ⟨hpushes.trans h.1, by rw [hplace']; exact (Option.some_ne_none _).symm⟩
    | connecting | disconnecting | exiting | showMessages =>
      simp only [hplace, Option.some_inj, Prod.mk.injEq] at hdecision
      obtain ⟨rfl, rfl, -⟩ := hdecision
      refine ⟨hpushes.trans h.1, ?_⟩
      rw [hplace']
      first
        | exact (Option.some_ne_none _).symm
        | (split_ifs <;> exact (Option.some_ne_none _).symm)

theorem pushes_of_hides {as : List (LoopAction α)} {h : List (LoopEvent α)} (hhides : c.Hides)
    (hrun : (commandLoop α).run c as = some (c', h)) (hlines : asciiText "show" ∉ lines as) :
    (shown h).countP DisplayEvent.isPush + c'.ui.showThread.upcomingPush
      ≤ c.ui.showThread.upcomingPush := by
  induction as generalizing c h with
  | nil =>
    obtain ⟨rfl, rfl⟩ : c = c' ∧ [] = h := by simpa using hrun
    exact Nat.le_of_eq (Nat.zero_add _)
  | cons a as ih =>
    obtain ⟨d, es, fs, hstep, hrest, rfl⟩ := System.run_cons_eq_some.mp hrun
    have hline : a.line? ≠ some (asciiText "show") := by
      intro heq
      exact hlines (List.mem_filterMap.mpr ⟨a, List.mem_cons_self, heq⟩)
    have htail := ih (hhides.step hline hstep) hrest fun hmem ↦ by
      obtain ⟨b, hb, heq⟩ := List.mem_filterMap.mp hmem
      exact hlines (List.mem_filterMap.mpr ⟨b, List.mem_cons_of_mem a hb, heq⟩)
    have hhead : (shown es).countP DisplayEvent.isPush + d.ui.showThread.upcomingPush
        ≤ c.ui.showThread.upcomingPush := by
      obtain ⟨hui, hshown, -, -⟩ | ⟨act, hact, -, -⟩ := display_of_step hstep
      · rw [hui, hshown]
        exact Nat.le_of_eq (Nat.zero_add _)
      · exact pushes_of_step hhides.1 hact
    rw [shown_append, List.countP_append]
    omega

/-- **Pushes are shown behind `show`.** Once a line other than `show` has been read and the flag
been reset, at most one push is shown before a line `show` comes. -/
theorem pushes_stop (as bs : List (LoopAction α)) (c c' : CommandLoop α) (h h' : List (LoopEvent α))
    (hrun : (commandLoop α).run init as = some (c, h))
    (hrest : (commandLoop α).run c bs = some (c', h'))
    (hlast : (lines as).getLast? ≠ some (asciiText "show"))
    (hplace : ∀ cmd, c.place ≠ .hidePushes cmd) (hlines : asciiText "show" ∉ lines bs) :
    (shown h').countP DisplayEvent.isPush ≤ 1 := by
  have hinit : (init : CommandLoop α).ShowsBehind [] := by
    refine ⟨fun h ↦ ?_, fun _ h ↦ ?_⟩ <;> cases h
  have hbehind := showsBehind_of_run hinit flagsSet_init hrun
  have hhides : c.Hides := by
    refine ⟨?_, fun hcmd ↦ hlast (hbehind.cmd _ hcmd)⟩
    rw [← Bool.not_eq_true]
    exact fun hshow ↦ hlast (hbehind.shows hshow hplace)
  have hpushes := pushes_of_hides hhides hrest hlines
  have hupcoming := c.ui.showThread.upcoming_le
  omega

/-- The user asks for the pushes, and then for the status, with a push on its way. -/
def showRun : List (LoopAction ℕ) :=
  [.setConnected true, .push 5, .push 6, .mainStep, .line (asciiText "show"), .mainStep, .mainStep,
    .mainStep,
      .mainStep] ++ List.replicate 8 .showStep ++ [.mainStep, .line (asciiText "status"), .mainStep]

theorem pushes_stop_showRun : ∃ c h c' h', (commandLoop ℕ).run init showRun = some (c, h) ∧
    (commandLoop ℕ).run c (List.replicate 10 .showStep) = some (c', h') ∧
    .print 0 (some 5) ∈ shown h' ∧ (shown h').countP DisplayEvent.isPush ≤ 1 := by
  have hrun : (commandLoop ℕ).run init showRun = some (_, _) := rfl
  exact ⟨_, _, _, _, hrun, rfl, by decide,
    pushes_stop showRun (List.replicate 10 .showStep) _ _ _ _ hrun rfl
    (by decide) (fun _ h ↦ by cases h) (by decide)⟩

/-! ## Behind `exit` -/

/-- How many steps the main thread has to go behind `exit`. -/
def Place.rank : Place → ℕ
  | .showMessages => 2
  | .prompt => 1
  | _ => 0

theorem ends_of_loopStep (hflags : c.FlagsSet) (hend : c.ui.running = false)
    (hstep : (commandLoop α).step c a = some (c', es)) :
    c'.ui.running = false ∧ a.line? = none ∧
      [a].countP LoopAction.isMainStep + Place.rank c'.place ≤ Place.rank c.place := by
  have hending := hflags.running hend
  obtain ⟨act, hact, hperform⟩ | ⟨b, rfl, rfl, -⟩ | ⟨text, events, rfl, hread, -⟩ |
    ⟨place, act, events, rfl, hdecision, hperform⟩ := step_cases hstep
  · obtain ⟨hplace, -, -, hrunning⟩ := frame_of_perform hperform
    rw [Option.bind_some, (other?_flags hact).2.2] at hrunning
    refine ⟨hrunning.trans hend, ?_, ?_⟩
    · cases a <;> first | rfl | simp [other?] at hact
    · rw [hplace]
      cases a <;> first | exact Nat.le_of_eq (Nat.zero_add _) | simp [other?] at hact
  · exact ⟨hend, rfl, Nat.le_of_eq (Nat.zero_add _)⟩
  · -- no line is read behind `exit`
    unfold CommandLoop.read at hread
    cases hplace : c.place <;>
      rw [hplace] at hending <;> simp [hplace, Place.isEnding] at hending hread
  · obtain ⟨hplace', -, -, hrunning⟩ := frame_of_perform hperform
    dsimp only at hplace' hrunning
    unfold decision at hdecision
    cases hplace : c.place with
    | prompt =>
      simp only [hplace, hend, Bool.false_eq_true, if_false, Option.some_inj,
        Prod.mk.injEq] at hdecision
      obtain ⟨rfl, rfl, -⟩ := hdecision
      exact ⟨hrunning.trans hend, rfl, by rw [hplace']; exact Nat.le_refl _⟩
    | showMessages =>
      simp only [hplace, Option.some_inj, Prod.mk.injEq] at hdecision
      obtain ⟨rfl, rfl, -⟩ := hdecision
      exact ⟨hrunning.trans hend, rfl, by rw [hplace']; exact Nat.le_refl _⟩
    | ended => simp [hplace] at hdecision
    | _ => simp [hplace, Place.isEnding] at hending

theorem ends_of_run {as : List (LoopAction α)} {h : List (LoopEvent α)} (hflags : c.FlagsSet)
    (hend : c.ui.running = false) (hrun : (commandLoop α).run c as = some (c', h)) :
    lines as = [] ∧ as.countP LoopAction.isMainStep + Place.rank c'.place ≤ Place.rank c.place ∧
      as.countP LoopAction.isShowStep + c'.ui.showThread.rank ≤ c.ui.showThread.rank ∧
      (shown h).countP DisplayEvent.isPush + (shown h).countP DisplayEvent.isMsg
        + c'.ui.showThread.committed ≤ c.ui.showThread.committed := by
  induction as generalizing c h with
  | nil =>
    obtain ⟨rfl, rfl⟩ : c = c' ∧ [] = h := by simpa using hrun
    exact ⟨rfl, Nat.le_of_eq (Nat.zero_add _), Nat.le_of_eq (Nat.zero_add _),
      Nat.le_of_eq (Nat.zero_add _)⟩
  | cons a as ih =>
    obtain ⟨d, es, fs, hstep, hrest, rfl⟩ := System.run_cons_eq_some.mp hrun
    obtain ⟨hend', hline, hmain⟩ := ends_of_loopStep hflags hend hstep
    have hhead : [a].countP LoopAction.isShowStep + d.ui.showThread.rank ≤ c.ui.showThread.rank ∧
        (shown es).countP DisplayEvent.isPush + (shown es).countP DisplayEvent.isMsg
          + d.ui.showThread.committed ≤ c.ui.showThread.committed := by
      obtain ⟨hui, hshown, -, hshow⟩ | ⟨act, hact, -, hshow⟩ := display_of_step hstep
      · rw [hui, hshown, List.countP_singleton, hshow]
        exact ⟨Nat.le_of_eq (Nat.zero_add _), Nat.le_of_eq (Nat.zero_add _)⟩
      · have hends := ends_of_step hend hact
        rwa [List.countP_singleton, hshow, ← List.countP_singleton] at hends
    obtain ⟨hlines, hmain', hshow', hshown'⟩ := ih (hflags.step hstep) hend' hrest
    rw [shown_append, List.countP_append, List.countP_append, lines, List.filterMap_cons_none hline,
      ← List.singleton_append, List.countP_append, List.countP_append]
    exact ⟨hlines, by omega, by omega, by omega⟩

/-- **Both threads end behind `exit`.** From then on the main thread takes at most two steps and
reads no line, the show thread takes at most twelve, and at most one push or message is shown. -/
theorem exit_ends (as bs : List (LoopAction α)) (c c' : CommandLoop α) (h h' : List (LoopEvent α))
    (hrun : (commandLoop α).run init as = some (c, h)) (hend : c.ui.running = false)
    (hrest : (commandLoop α).run c bs = some (c', h')) :
    lines bs = [] ∧ bs.countP LoopAction.isMainStep ≤ 2 ∧ bs.countP LoopAction.isShowStep ≤ 12 ∧
      (shown h').countP DisplayEvent.isPush + (shown h').countP DisplayEvent.isMsg ≤ 1 := by
  obtain ⟨hlines, hmain, hshow, hshown⟩ := ends_of_run (flagsSet_of_run hrun) hend hrest
  have hplace : Place.rank c.place ≤ 2 := by
    cases c.place <;> simp [Place.rank]
  have hrank := c.ui.showThread.rank_le
  have hcommitted := c.ui.showThread.committed_le
  exact ⟨hlines, by omega, by omega, by omega⟩

/-- The user leaves while a message is on its way. -/
def exitRun : List (LoopAction ℕ) :=
  [.mainStep, .line [], .mainStep, .mainStep, .mainStep, .mainStep, .post ⟨.error, "Read error"⟩]
    ++ List.replicate 4 .showStep
    ++ [.line (asciiText "exit"), .mainStep, .mainStep, .mainStep, .mainStep]

def lastRun : List (LoopAction ℕ) := [.mainStep, .mainStep] ++ List.replicate 8 .showStep

theorem exit_ends_exitRun : ∃ c h c' h', (commandLoop ℕ).run init exitRun = some (c, h) ∧
    (commandLoop ℕ).run c lastRun = some (c', h') ∧
    c'.place = .ended ∧ c'.ui.showThread = .ended ∧
    (shown h').countP DisplayEvent.isPush + (shown h').countP DisplayEvent.isMsg ≤ 1 := by
  have hrun : (commandLoop ℕ).run init exitRun = some (_, _) := rfl
  exact ⟨_, _, _, _, hrun, rfl, rfl, rfl, (exit_ends exitRun lastRun _ _ _ _ hrun rfl rfl).2.2.2⟩

end CommandLoop

end Console

end PushService
