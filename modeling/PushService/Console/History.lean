import Mathlib.Data.List.Infix
import PushService.Console.EventHandler

/-!
# What the console's history holds

With no call in progress the full history followed by the recent one should be what was received
since the last `clearHistory`. `IsSinceClear` says so of the events of a run: the list starts at a
cut, and the cut lies between the call of the last `clearHistory` and its return.

## The content of the history

What counts is in four places: the full history, the local vectors of the two threads that took the
recent one and have not appended it yet, and the recent history. In this order they stay the list of
pushes since the cut. A swap moves the recent history into the local vector of its thread; since
only the network thread receives, nothing is received while its own vector is full.

## Where it goes wrong

An append puts a local vector behind the full history. There are two ways to get this wrong. The
network thread may append while the other thread holds older pushes, which then come behind newer
ones. And it may append what it took before a `clearHistory` began after that call has emptied the
full history. `Undisturbed` excludes the two, and nothing else needs to be excluded.
-/

namespace PushService

namespace Console

variable {α : Type*} {h es : List (HistoryEvent α)} {l since : List α}

/-! ## The events of a run -/

/-- The pushes that entered the history, in order. -/
def received (h : List (HistoryEvent α)) : List α :=
  h.filterMap fun e ↦ match e with
    | .received p => some p
    | _ => none

@[simp] theorem received_nil : received ([] : List (HistoryEvent α)) = [] := rfl

@[simp] theorem received_append (h es : List (HistoryEvent α)) :
    received (h ++ es) = received h ++ received es :=
  List.filterMap_append

@[simp] theorem received_cons_received (p : α) (h : List (HistoryEvent α)) :
    received (.received p :: h) = p :: received h := rfl

@[simp] theorem received_cons_clearBegins (h : List (HistoryEvent α)) :
    received (.clearBegins :: h) = received h := rfl

/-- `l` is what was received since the last `clearHistory`. A push received while that call was in
progress is in `l` or not, as the cut between `h₁` and `h₂` has it. -/
def IsSinceClear (h : List (HistoryEvent α)) (l : List α) : Prop :=
  ∃ h₁ h₂, h = h₁ ++ h₂ ∧ received h₂ = l ∧ .clearBegins ∉ h₂ ∧
    (h₁ = [] ∨ ∃ a b, h₁ = a ++ .clearBegins :: b ∧ .clearReturns ∉ b)

theorem isSinceClear_nil : IsSinceClear ([] : List (HistoryEvent α)) [] :=
  ⟨[], [], rfl, rfl, List.not_mem_nil, .inl rfl⟩

theorem IsSinceClear.append (hl : IsSinceClear h l) (hes : .clearBegins ∉ es) :
    IsSinceClear (h ++ es) (l ++ received es) := by
  obtain ⟨h₁, h₂, rfl, rfl, hbegins, hcut⟩ := hl
  refine ⟨h₁, h₂ ++ es, List.append_assoc .., received_append .., ?_, hcut⟩
  rw [List.mem_append]
  exact not_or.mpr ⟨hbegins, hes⟩

/-- Where nothing was cleared everything is in the list. -/
theorem IsSinceClear.eq_received (hl : IsSinceClear h l) (hh : .clearBegins ∉ h) :
    l = received h := by
  obtain ⟨h₁, h₂, rfl, rfl, -, rfl | ⟨a, b, rfl, -⟩⟩ := hl
  · rfl
  · exact absurd (by simp) hh

/-- Nothing is in the list that was received before the last `clearHistory` began. -/
theorem IsSinceClear.suffix {a c : List (HistoryEvent α)}
    (hl : IsSinceClear (a ++ .clearBegins :: c) l) : l <:+ received c := by
  obtain ⟨h₁, h₂, heq, rfl, hbegins, -⟩ := hl
  rcases List.append_eq_append_iff.mp heq with ⟨t, rfl, ht⟩ | ⟨t, rfl, ht⟩
  · cases t with
    | nil =>
      rw [List.nil_append] at ht
      exact absurd (ht ▸ List.mem_cons_self) hbegins
    | cons e t =>
      obtain ⟨-, rfl⟩ := List.cons.inj ht
      exact ⟨received t, (received_append ..).symm⟩
  · exact absurd (ht ▸ List.mem_append_right _ List.mem_cons_self) hbegins

/-- A `clearHistory` is in progress, and `since` is what was received since it was called. -/
def ClearInProgress (h : List (HistoryEvent α)) (since : List α) : Prop :=
  ∃ a b, h = a ++ .clearBegins :: b ∧ .clearBegins ∉ b ∧ .clearReturns ∉ b ∧ received b = since

theorem ClearInProgress.append (hc : ClearInProgress h since) (hb : .clearBegins ∉ es)
    (hr : .clearReturns ∉ es) : ClearInProgress (h ++ es) (since ++ received es) := by
  obtain ⟨a, b, rfl, hbegins, hreturns, rfl⟩ := hc
  refine ⟨a, b ++ es, by simp, ?_, ?_, received_append ..⟩
  · rw [List.mem_append]
    exact not_or.mpr ⟨hbegins, hb⟩
  · rw [List.mem_append]
    exact not_or.mpr ⟨hreturns, hr⟩

theorem IsSinceClear.suffix_received (hl : IsSinceClear h l) : l <:+ received h := by
  obtain ⟨h₁, h₂, rfl, rfl, -, -⟩ := hl
  exact ⟨received h₁, (received_append ..).symm⟩

/-- What is kept of the pushes received during the call may stay. -/
theorem ClearInProgress.isSinceClear (hc : ClearInProgress h since) (hl : l <:+ since) :
    IsSinceClear h l := by
  obtain ⟨a, b, rfl, hbegins, hreturns, rfl⟩ := hc
  obtain ⟨k, hk⟩ := hl
  -- the cut goes right before the first push that is kept
  obtain ⟨b₁, b₂, rfl, -, rfl⟩ := List.filterMap_eq_append_iff.mp hk.symm
  refine ⟨a ++ .clearBegins :: b₁, b₂, by simp, rfl, ?_, .inr ⟨a, b₁, rfl, ?_⟩⟩
  · exact fun hmem ↦ hbegins (List.mem_append_right b₁ hmem)
  · exact fun hmem ↦ hreturns (List.mem_append_left b₂ hmem)

/-! ## The condition -/

/-- Adds an event to the pushes received since `clearHistory` was last called. -/
def sinceCall (since : List α) : HistoryEvent α → List α
  | .received p => since ++ [p]
  | .clearBegins => []
  | .clearReturns | .size _ | .history _ => since

theorem foldl_sinceCall (hes : .clearBegins ∉ es) (since : List α) :
    es.foldl sinceCall since = since ++ received es := by
  induction es generalizing since with
  | nil => simp
  | cons e es ih =>
    obtain ⟨he, hes⟩ := not_or.mp (List.mem_cons.not.mp hes)
    rw [List.foldl_cons, ih hes]
    cases e with
    | received p => simp [sinceCall]
    | clearBegins => exact absurd rfl he
    | clearReturns | size n | history l => rfl

/-- The handler, with the pushes received since `clearHistory` was last called. -/
def observedSession (α : Type*) : System (Session α × List α) (HistoryAction α) (HistoryEvent α) :=
  (session α).observed sinceCall

/-- What the network thread has taken and not appended yet. -/
def NetworkThread.temp : NetworkThread α → List α
  | .inserting temp _ => temp
  | _ => []

/-- What the other thread has taken and not appended yet. -/
def UiThread.temp : UiThread α → List α
  | .inserting temp _ => temp
  | _ => []

/-- `clearHistory` has swapped the recent history away and not yet emptied the full one. -/
def UiThread.isDropping : UiThread α → Bool
  | .dropping _ => true
  | _ => false

/-- The network thread does not append pushes while the other thread holds older ones, and
`clearHistory` does not empty the full history while the network thread holds pushes from before the
call. -/
def Undisturbed (p : Session α × List α) : HistoryAction α → Prop
  | .networkStep => p.1.network.temp = [] ∨ p.1.ui.temp = []
  | .uiStep => p.1.ui.isDropping → p.1.network.temp <:+ p.2
  | .onPushReceived _ | .onConnected | .onDisconnected | .onReconnect | .onError _ => True
  | .historySize | .getHistory | .clearHistory => True

instance [DecidableEq α] (p : Session α × List α) : ∀ a, Decidable (Undisturbed p a)
  | .networkStep => inferInstanceAs (Decidable (_ ∨ _))
  | .uiStep => inferInstanceAs (Decidable (_ → _))
  | .onPushReceived _ | .onConnected | .onDisconnected | .onReconnect | .onError _ => isTrue trivial
  | .historySize | .getHistory | .clearHistory => isTrue trivial

/-! ## The invariant -/

/-- The pushes behind the full history and what the user interface took: what the network thread
took and what is recent. -/
def Session.tail (s : Session α) : List α :=
  s.network.temp ++ s.handler.sessionLastHistory

/-- All that counts as history, in order. -/
def Session.content (s : Session α) : List α :=
  s.handler.sessionFullHistory ++ s.ui.temp ++ s.tail

/-- The network thread has taken the recent history in its call, so that this is empty. -/
def NetworkThread.HasSwapped : NetworkThread α → Prop
  | .inserting _ _ | .clearing _ => True
  | _ => False

/-- What the place of the user interface says of the content. -/
def Session.Faithful (s : Session α) (since : List α) (h : List (HistoryEvent α)) : Prop :=
  match s.ui with
  | .clearing => ClearInProgress h since ∧ s.tail <:+ received h
  | .dropping _ =>
    ClearInProgress h since ∧ s.tail <:+ received h ∧ s.handler.sessionLastHistory <:+ since
  | _ => IsSinceClear h s.content

/-- The invariant of the two threads. -/
structure Inv (p : Session α × List α) (h : List (HistoryEvent α)) : Prop where
  last : p.1.network.HasSwapped → p.1.handler.sessionLastHistory = []
  faithful : p.1.Faithful p.2 h

/-! ## Steps that leave the content in place -/

variable {s t : Session α}

/-- At the end of what counts grows what is received. -/
theorem Session.Faithful.grow (hF : s.Faithful since h) (hui : t.ui = s.ui)
    (hfull : t.handler.sessionFullHistory = s.handler.sessionFullHistory)
    (htail : t.tail = s.tail ++ received es)
    (hlast : t.handler.sessionLastHistory <:+ s.handler.sessionLastHistory ++ received es)
    (hb : .clearBegins ∉ es) (hr : .clearReturns ∉ es) :
    t.Faithful (since ++ received es) (h ++ es) := by
  have hgrow : ∀ {k m : List α}, k <:+ m → k ++ received es <:+ m ++ received es := by
    rintro k m ⟨j, rfl⟩
    exact ⟨j, (List.append_assoc ..).symm⟩
  have hcontent : t.content = s.content ++ received es := by
    rw [content, content, hfull, hui, htail]
    exact (List.append_assoc ..).symm
  rw [Faithful, hui]
  rw [Faithful] at hF
  cases hs : s.ui with
  | clearing =>
    rw [hs] at hF
    refine ⟨hF.1.append hb hr, ?_⟩
    rw [htail, received_append]
    exact hgrow hF.2
  | dropping temp =>
    rw [hs] at hF
    refine ⟨hF.1.append hb hr, ?_, hlast.trans (hgrow hF.2.2)⟩
    rw [htail, received_append]
    exact hgrow hF.2.1
  | idle | swapping r | inserting temp r | returning r =>
    rw [hs] at hF
    exact hcontent ▸ IsSinceClear.append hF hb

/-- A step of the network thread that puts nothing into the content and says nothing. -/
theorem Session.Faithful.keep (hF : s.Faithful since h) (hui : t.ui = s.ui)
    (hfull : t.handler.sessionFullHistory = s.handler.sessionFullHistory) (htail : t.tail = s.tail)
    (hlast : t.handler.sessionLastHistory <:+ s.handler.sessionLastHistory) :
    t.Faithful since h := by
  have hnothing : received ([] : List (HistoryEvent α)) = [] := rfl
  have hgrow := hF.grow hui hfull (by rwa [hnothing, List.append_nil])
    (by rwa [hnothing, List.append_nil]) List.not_mem_nil List.not_mem_nil
  rwa [hnothing, List.append_nil, List.append_nil] at hgrow

/-- A push never enters the history while the network thread holds others. -/
theorem Inv.tail_eq {p : Session α × List α} (hI : Inv p h) :
    p.1.network.temp = [] ∨ p.1.handler.sessionLastHistory = [] := by
  cases hn : p.1.network with
  | inserting temp m => exact .inr (hI.last (hn ▸ trivial))
  | idle | received | queued | connected | disconnected | swapping | clearing | posting =>
    exact .inl rfl

/-! ## The network thread -/

/-- The append of the network thread, where it does not overtake the other thread. -/
theorem Session.Faithful.insertFull {temp : List α} {m : Message} (hF : s.Faithful since h)
    (hn : s.network = .inserting temp m) (hlast : s.handler.sessionLastHistory = [])
    (hC : Undisturbed (s, since) .networkStep) :
    Session.Faithful { s with handler := s.handler.insertFull temp, network := .clearing m } since
      h := by
  obtain ⟨c, n, ui⟩ := s
  obtain rfl : n = .inserting temp m := hn
  replace hlast : c.sessionLastHistory = [] := hlast
  have htail : Session.tail ⟨c.insertFull temp, .clearing m, ui⟩ = [] := hlast
  cases ui with
  | clearing => exact ⟨hF.1, htail ▸ List.nil_suffix⟩
  | dropping taken => exact ⟨hF.1, htail ▸ List.nil_suffix, hlast ▸ List.nil_suffix⟩
  | inserting older r =>
    have hswap : older ++ temp = temp ++ older := by
      rcases hC with rfl | rfl <;> simp
    have hF : IsSinceClear h (c.sessionFullHistory ++ older ++ (temp ++ c.sessionLastHistory)) := hF
    rw [hlast, List.append_nil, List.append_assoc, hswap, ← List.append_assoc] at hF
    show IsSinceClear h (c.sessionFullHistory ++ temp ++ older ++ Session.tail _)
    rwa [htail, List.append_nil]
  | idle | swapping r | returning r =>
    have hF : IsSinceClear h (c.sessionFullHistory ++ [] ++ (temp ++ c.sessionLastHistory)) := hF
    rw [hlast, List.append_nil, List.append_nil] at hF
    show IsSinceClear h (c.sessionFullHistory ++ temp ++ [] ++ Session.tail _)
    rwa [htail, List.append_nil, List.append_nil]

theorem Inv.networkStep (hI : Inv (s, since) h) (hC : Undisturbed (s, since) .networkStep)
    (hstep : s.networkStep = some (t, es)) : Inv (t, es.foldl sinceCall since) (h ++ es) := by
  -- all but the append leave the content in place
  have hquiet : ∀ {u : Session α}, u.ui = s.ui →
      u.handler.sessionFullHistory = s.handler.sessionFullHistory → u.tail = s.tail →
      u.handler.sessionLastHistory <:+ s.handler.sessionLastHistory → u.Faithful since h := by
    intro u hui hfull htail hlast
    exact hI.faithful.keep hui hfull htail hlast
  unfold Session.networkStep at hstep
  cases hn : s.network with
  | idle => simp [hn] at hstep
  | queued p =>
    simp only [hn, Option.some.injEq, Prod.mk.injEq] at hstep
    obtain ⟨rfl, rfl⟩ := hstep
    refine ⟨False.elim, ?_⟩
    rw [foldl_sinceCall (by simp)]
    refine hI.faithful.grow rfl rfl ?_ (List.suffix_refl _) (by simp) (by simp)
    simp [Session.tail, hn, NetworkThread.temp, ClientEventHandler.record]
  | inserting temp m =>
    simp only [hn, Option.some.injEq, Prod.mk.injEq] at hstep
    obtain ⟨rfl, rfl⟩ := hstep
    have hlast : s.handler.sessionLastHistory = [] := hI.last (hn ▸ trivial)
    refine ⟨fun _ ↦ hlast, ?_⟩
    rw [List.append_nil]
    exact hI.faithful.insertFull hn hlast hC
  | swapping m =>
    simp only [hn, Option.some.injEq, Prod.mk.injEq] at hstep
    obtain ⟨rfl, rfl⟩ := hstep
    refine ⟨fun _ ↦ rfl, ?_⟩
    rw [List.append_nil]
    refine hquiet rfl rfl ?_ List.nil_suffix
    simp [Session.tail, hn, NetworkThread.temp, ClientEventHandler.swapLast]
  | clearing m =>
    simp only [hn, Option.some.injEq, Prod.mk.injEq] at hstep
    obtain ⟨rfl, rfl⟩ := hstep
    have hlast : s.handler.sessionLastHistory = [] := hI.last (hn ▸ trivial)
    refine ⟨fun _ ↦ rfl, ?_⟩
    rw [List.append_nil]
    refine hquiet rfl rfl ?_ List.nil_suffix
    simp [Session.tail, hn, NetworkThread.temp, ClientEventHandler.clearLast, hlast]
  | received | connected | disconnected | posting =>
    simp only [hn, Option.some.injEq, Prod.mk.injEq] at hstep
    obtain ⟨rfl, rfl⟩ := hstep
    refine ⟨False.elim, ?_⟩
    rw [List.append_nil]
    refine hquiet rfl rfl ?_ (List.suffix_refl _)
    rw [Session.tail, Session.tail, hn]
    rfl

/-! ## The thread of the user interface -/

/-- A swap takes the recent history, behind which the network thread holds nothing. -/
theorem Inv.swap_eq (hI : Inv (s, since) h) :
    s.network.temp ++ s.handler.sessionLastHistory
      = s.handler.sessionLastHistory ++ s.network.temp := by
  rcases hI.tail_eq with htemp | hlast
  · rw [htemp, List.nil_append, List.append_nil]
  · rw [hlast, List.nil_append, List.append_nil]

/-- Once the full history is empty, what is left was received since `clearHistory` was called. -/
theorem Session.Faithful.tail_suffix {taken : List α} (hF : s.Faithful since h)
    (hs : s.ui = .dropping taken)
    (hlast : s.network.HasSwapped → s.handler.sessionLastHistory = [])
    (hC : Undisturbed (s, since) .uiStep) : s.tail <:+ since := by
  rw [Faithful, hs] at hF
  obtain ⟨-, -, hrecent⟩ := hF
  cases hn : s.network with
  | inserting temp m =>
    have htemp : s.network.temp <:+ since := hC (by rw [hs]; rfl)
    rwa [tail, hlast (hn ▸ trivial), List.append_nil]
  | idle | received | queued | connected | disconnected | swapping | clearing | posting =>
    rwa [tail, hn]

theorem Inv.uiStep (hI : Inv (s, since) h) (hC : Undisturbed (s, since) .uiStep)
    (hstep : s.uiStep = some (t, es)) : Inv (t, es.foldl sinceCall since) (h ++ es) := by
  have hF := hI.faithful
  have hswap := hI.swap_eq
  unfold Session.uiStep at hstep
  cases hs : s.ui with
  | idle => simp [hs] at hstep
  | swapping r =>
    simp only [hs, Option.some.injEq, Prod.mk.injEq] at hstep
    obtain ⟨rfl, rfl⟩ := hstep
    refine ⟨fun _ ↦ rfl, ?_⟩
    rw [Session.Faithful, hs] at hF
    rw [List.append_nil]
    show IsSinceClear h (s.handler.sessionFullHistory ++ s.handler.sessionLastHistory
      ++ (s.network.temp ++ []))
    rw [List.append_nil, List.append_assoc, ← hswap]
    simpa [Session.content, Session.tail, hs, UiThread.temp] using hF
  | inserting temp r =>
    simp only [hs, Option.some.injEq, Prod.mk.injEq] at hstep
    obtain ⟨rfl, rfl⟩ := hstep
    refine ⟨hI.last, ?_⟩
    rw [Session.Faithful, hs] at hF
    rw [List.append_nil]
    show IsSinceClear h (s.handler.sessionFullHistory ++ temp ++ [] ++ s.tail)
    rw [List.append_nil]
    simpa only [Session.content, hs, UiThread.temp] using hF
  | returning r =>
    rw [Session.Faithful, hs] at hF
    -- what the readers return is no reception and no clear
    have hquiet : ∀ {e}, received [e] = [] → .clearBegins ∉ [e] → IsSinceClear (h ++ [e])
        (s.handler.sessionFullHistory ++ [] ++ s.tail) := by
      intro e he hb
      have hafter := hF.append hb
      rwa [he, List.append_nil, Session.content, hs] at hafter
    cases r with
    | historySize | getHistory =>
      simp only [hs, Option.some.injEq, Prod.mk.injEq] at hstep
      obtain ⟨rfl, rfl⟩ := hstep
      exact ⟨hI.last, hquiet rfl (by simp)⟩
  | clearing =>
    simp only [hs, Option.some.injEq, Prod.mk.injEq] at hstep
    obtain ⟨rfl, rfl⟩ := hstep
    refine ⟨fun _ ↦ rfl, ?_⟩
    rw [Session.Faithful, hs] at hF
    rw [List.append_nil]
    obtain ⟨hprogress, htail⟩ := hF
    refine ⟨hprogress, ?_, List.nil_suffix⟩
    show s.network.temp ++ [] <:+ received h
    rw [Session.tail, hswap] at htail
    rw [List.append_nil]
    exact (List.suffix_append _ _).trans htail
  | dropping taken =>
    simp only [hs, Option.some.injEq, Prod.mk.injEq] at hstep
    obtain ⟨rfl, rfl⟩ := hstep
    refine ⟨hI.last, ?_⟩
    have htail := hF.tail_suffix hs hI.last hC
    rw [Session.Faithful, hs] at hF
    have hafter := (hF.1.isSinceClear htail).append
      (by simp : HistoryEvent.clearBegins ∉ [HistoryEvent.clearReturns])
    simpa [Session.Faithful, Session.content, Session.tail, UiThread.temp,
      ClientEventHandler.clearFull, received] using hafter

/-! ## Calls -/

theorem Inv.callNetwork {place : NetworkThread α} (hI : Inv (s, since) h)
    (htemp : place.temp = []) (hplace : ¬place.HasSwapped)
    (hstep : s.callNetwork place = some (t, es)) :
    Inv (t, es.foldl sinceCall since) (h ++ es) := by
  unfold Session.callNetwork at hstep
  cases hn : s.network with
  | idle =>
    simp only [hn, Option.some.injEq, Prod.mk.injEq] at hstep
    obtain ⟨rfl, rfl⟩ := hstep
    refine ⟨fun hp ↦ absurd hp hplace, ?_⟩
    have htail : Session.tail { s with network := place } = s.tail := by
      rw [Session.tail, Session.tail, hn, htemp]
      rfl
    simpa using hI.faithful.keep (t := { s with network := place }) rfl rfl htail List.suffix_rfl
  | received | queued | connected | disconnected | swapping | inserting | clearing | posting =>
    simp [hn] at hstep

/-- A reader is called. -/
theorem Inv.callReader {r : Reader} (hI : Inv (s, since) h)
    (hstep : s.callUi (.swapping r) [] = some (t, es)) :
    Inv (t, es.foldl sinceCall since) (h ++ es) := by
  unfold Session.callUi at hstep
  cases hs : s.ui with
  | idle =>
    simp only [hs, Option.some.injEq, Prod.mk.injEq] at hstep
    obtain ⟨rfl, rfl⟩ := hstep
    have hF := hI.faithful
    rw [Session.Faithful, hs] at hF
    refine ⟨hI.last, ?_⟩
    rw [List.append_nil]
    show IsSinceClear h (s.handler.sessionFullHistory ++ [] ++ s.tail)
    rwa [Session.content, hs] at hF
  | swapping | inserting | returning | clearing | dropping => simp [hs] at hstep

/-- `clearHistory` is called. -/
theorem Inv.callClear (hI : Inv (s, since) h)
    (hstep : s.callUi .clearing [.clearBegins] = some (t, es)) :
    Inv (t, es.foldl sinceCall since) (h ++ es) := by
  unfold Session.callUi at hstep
  cases hs : s.ui with
  | idle =>
    simp only [hs, Option.some.injEq, Prod.mk.injEq] at hstep
    obtain ⟨rfl, rfl⟩ := hstep
    have hF := hI.faithful
    rw [Session.Faithful, hs] at hF
    refine ⟨hI.last, ⟨h, [], rfl, List.not_mem_nil, List.not_mem_nil, rfl⟩, ?_⟩
    have hcontent : s.tail <:+ s.content := List.suffix_append _ _
    rw [received_append]
    exact (hcontent.trans hF.suffix_received).trans (by simp [received])
  | swapping | inserting | returning | clearing | dropping => simp [hs] at hstep

/-- **The invariant holds along every undisturbed run.** -/
theorem Inv.run {p q : Session α × List α} {as : List (HistoryAction α)} (hI : Inv p h)
    (hC : (observedSession α).Obeys Undisturbed p as)
    (hrun : (observedSession α).run p as = some (q, es)) : Inv q (h ++ es) := by
  refine System.run_induction (I := Inv) ?_ hI hC hrun
  rintro ⟨s, since⟩ h a ⟨t, since'⟩ es hI hC hstep
  obtain ⟨hstep, rfl⟩ := System.observed_step_eq_some.mp hstep
  cases a with
  | networkStep => exact hI.networkStep hC hstep
  | uiStep => exact hI.uiStep hC hstep
  | historySize | getHistory => exact hI.callReader hstep
  | clearHistory => exact hI.callClear hstep
  | onPushReceived | onConnected | onDisconnected | onReconnect | onError =>
    exact hI.callNetwork rfl id hstep

theorem inv_init : Inv ((.init, []) : Session α × List α) [] :=
  ⟨fun _ ↦ rfl, isSinceClear_nil⟩

/-! ## The history at rest -/

/-- Between the calls of a run whose steps are all undisturbed, the full history followed by the
recent one is what was received since the last `clearHistory`, in order. -/
theorem isSinceClear_of_idle {as : List (HistoryAction α)}
    (hC : (observedSession α).Obeys Undisturbed (.init, []) as)
    (hrun : (session α).run .init as = some (s, h)) (hnetwork : s.network = .idle)
    (hui : s.ui = .idle) :
    IsSinceClear h (s.handler.sessionFullHistory ++ s.handler.sessionLastHistory) := by
  have hobserved := System.run_observed_of_run sinceCall [] hrun
  have hF := (inv_init.run hC hobserved).faithful
  rw [Session.Faithful, hui] at hF
  simpa [Session.content, Session.tail, hnetwork, hui, NetworkThread.temp, UiThread.temp] using hF

/-- A push is received, shown in the history and kept over a reconnect. -/
def undisturbedRun : List (HistoryAction ℕ) :=
  [.onPushReceived 1, .networkStep, .networkStep, .historySize, .uiStep, .uiStep, .uiStep,
    .onPushReceived 2, .networkStep, .networkStep, .onReconnect, .networkStep, .networkStep,
    .networkStep, .networkStep, .networkStep]

theorem isSinceClear_of_idle_undisturbedRun :
    ∃ s h, (session ℕ).run .init undisturbedRun = some (s, h) ∧
      IsSinceClear h (s.handler.sessionFullHistory ++ s.handler.sessionLastHistory) :=
  have hC : (observedSession ℕ).Obeys Undisturbed (.init, []) undisturbedRun := by decide
  ⟨_, _, rfl, isSinceClear_of_idle hC rfl rfl rfl⟩

/-! ## The two failures -/

/-- The user interface takes the first push; before it appends it the connection is lost, and the
network thread appends the second. -/
def overtakingRun : List (HistoryAction ℕ) :=
  [.onPushReceived 1, .networkStep, .networkStep, .getHistory, .uiStep,
    .onPushReceived 2, .networkStep, .networkStep, .onReconnect, .networkStep, .networkStep,
    .networkStep, .networkStep, .networkStep, .uiStep, .uiStep]

/-- The network thread takes the push when the connection is lost and appends it after
`clearHistory` was called and has returned. -/
def revivingRun : List (HistoryAction ℕ) :=
  [.onPushReceived 1, .networkStep, .networkStep, .onDisconnected, .networkStep, .networkStep,
    .clearHistory, .uiStep, .uiStep, .networkStep, .networkStep, .networkStep]

/-- One run puts the second push before the first, the other brings a push back after the clear. -/
theorem not_isSinceClear_overtakingRun_revivingRun :
    (∃ s h, (session ℕ).run .init overtakingRun = some (s, h) ∧ s.network = .idle ∧ s.ui = .idle ∧
      ¬IsSinceClear h (s.handler.sessionFullHistory ++ s.handler.sessionLastHistory)) ∧
    ∃ s h, (session ℕ).run .init revivingRun = some (s, h) ∧ s.network = .idle ∧ s.ui = .idle ∧
      ¬IsSinceClear h (s.handler.sessionFullHistory ++ s.handler.sessionLastHistory) := by
  refine ⟨⟨_, _, rfl, rfl, rfl, fun hsince ↦ ?_⟩, _, _, rfl, rfl, rfl, fun hsince ↦ ?_⟩
  · exact absurd (hsince.eq_received (by decide)) (by decide)
  · exact absurd (IsSinceClear.suffix (a := [.received 1]) (c := [.clearReturns]) hsince)
      (by decide)

end Console

end PushService
