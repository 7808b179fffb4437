import PushService.Gui.MainWindow
import PushService.Server.EndToEnd

/-!
# From a broadcast to the table

The three parts of the way of a push, put together: what goes out on a session is the beginning of
what is sent on it, the client reports the beginning of what it reads, and the window takes
the beginning of what is reported. What the table shows is therefore chosen from the first pushes
that were sent on the session, by the boxes and by nothing else (`rows_of_broadcasts`).
-/

namespace PushService

namespace Gui

open Client Server

/-- The pushes among the messages sent on a session. -/
def pushesOf (sent : List Sent) : List Push := (sent.map Sent.call).filterMap MainWindow.push?

namespace MainWindow

/-- The window has taken the first of the pushes that the client was told of, and all of them when
no signal is left and all were reported. -/
theorem received_of_calls {fromUtf8 : Bytes → List Char} {bs : List Action} {w : MainWindow}
    {k : List Handled} {calls : List HandlerCall}
    (hrun : (system fromUtf8).run init bs = some (w, k))
    (hloop : ∀ call now, Action.emitHere call now ∈ bs → push? call = none)
    (hreported : reported bs <+: calls.filterMap push?) :
    (received k).map Prod.snd <+: calls.filterMap push? ∧
      (w.signals = [] → reported bs = calls.filterMap push? →
        (received k).map Prod.snd = calls.filterMap push?) := by
  have hqueue : (received k).map Prod.snd ++ w.signals.filterMap push? = reported bs :=
    received_of_run hrun hloop
  refine ⟨?_, fun hnone hall ↦ ?_⟩
  · exact (List.prefix_append _ _).trans (hqueue ▸ hreported)
  · rw [← hall, ← hqueue, hnone, List.filterMap_nil, List.append_nil]

end MainWindow

open Protocol Client.ClientApp MainWindow in
/-- **From a broadcast to the table.** The writes of a session succeed and go out one at a time, its
client reads some of it, and reports to the window. Then the table shows rows of the first pushes
sent on the session, each once and in order, namely those the boxes ask for; and when everything has
been read, chunk by chunk at most one message, reported and taken, no push is missing. -/
theorem rows_of_broadcasts (cb : Server.Callbacks) (session : ℕ) (as : List TcpServer.Action)
    (s : TcpServer)
    (h : List TcpServer.Event) (hserver : (TcpServer.system cb).run .init as = some (s, h))
    (hlt : s.sessions.length < 2 ^ 64)
    (hsucceed : (TcpServer.system cb).Obeys (TcpServer.WritesSucceed cb session) .init as)
    (halone : (TcpServer.system cb).Obeys (TcpServer.OneAtATime session) .init as)
    (sent : List Sent)
    (hframes : List.Forall₂ (fun m f ↦ m.toFrame = .ok f) sent
      (TcpServer.sentOn cb session .init as))
    (cs : List Bytes) (hread : cs.flatten <+: s.wire session) (app app' : ClientApp)
    (hfresh : app.protocol = {}) (calls : List HandlerCall)
    (hclient : receiving.run app cs = some (app', calls))
    (fold : Char → Char) (hfold : CheckBox.FoldsAscii fold) (fromUtf8 : Bytes → List Char)
    (bs : List MainWindow.Action) (w : MainWindow) (k : List Handled)
    (hwindow : (system fromUtf8).run init bs = some (w, k))
    (hloop : ∀ call now, Action.emitHere call now ∈ bs → push? call = none)
    (hreported : reported bs <+: calls.filterMap push?) :
    ∃ rows : List (List Char × Push),
      w.visible fold = (rows.filter fun r ↦ shows (clicked bs) r.2).map
        (fun r ↦ Row.of fromUtf8 r.1 r.2) ∧
      rows.map Prod.snd <+: pushesOf sent ∧
      (cs.flatten = (TcpServer.sentOn cb session .init as).flatten →
        CompletesAtMostOne (TcpServer.sentOn cb session .init as) cs →
        reported bs = calls.filterMap push? → w.signals = [] →
          rows.map Prod.snd = pushesOf sent) := by
  have hwire := TcpServer.wire_prefix_sentOn hserver hlt hsucceed halone
  obtain ⟨hcalls, hallCalls⟩ := TcpServer.calls_of_sentOn hframes (hread.trans hwire) hfresh hclient
  obtain ⟨hreceived, hallReceived⟩ := received_of_calls hwindow hloop hreported
  refine ⟨received k, visible_eq hfold hwindow, hreceived.trans (hcalls.filterMap push?), ?_⟩
  intro hall hone hsame hnone
  rw [hallReceived hnone hsame, hallCalls hall hone, pushesOf]

/-- The window takes the push of `pushedRun`, and the user unchecks a category that it has not. -/
def takenRun : List MainWindow.Action :=
  [.emitHere .onConnected [],
    .emit (.onPushReceived 7 ⟨.normal, .notification, .source1, [104, 105]⟩),
    .emit (.onAcceptPush 8), .checkStateChanged .pushCategoryError CheckBox.all,
    .deliver [], .deliver []]

theorem rows_of_broadcasts_takenRun :
    ∃ w k, (MainWindow.system fun _ ↦ []).run .init takenRun = some (w, k) ∧
      ∃ rows : List (List Char × Push),
        rows.map Prod.snd = [⟨.normal, .notification, .source1, [104, 105]⟩] ∧
        w.visible Char.toLower
          = (rows.filter fun r ↦ MainWindow.shows (MainWindow.clicked takenRun) r.2).map
          (fun r ↦ Row.of (fun _ ↦ []) r.1 r.2) := by
  have hserver : (TcpServer.system .allSet).run .init TcpServer.pushedRun = some (_, _) := rfl
  have hclient : ClientApp.receiving.run Client.ClientApp.init TcpServer.pushedFrames
      = some (_, _) := rfl
  have hwindow : (MainWindow.system fun _ ↦ []).run .init takenRun = some (_, _) := rfl
  obtain ⟨rows, hvisible, -, hall⟩ :=
    rows_of_broadcasts .allSet 0 TcpServer.pushedRun _ _ hserver (by decide)
    (by decide) (by decide) TcpServer.pushedSent (.cons rfl (.cons rfl .nil)) TcpServer.pushedFrames
    (by decide) _ _ rfl _ hclient Char.toLower (fun _ _ ↦ rfl) (fun _ ↦ []) takenRun _ _ hwindow
    (by simp [takenRun, MainWindow.push?]) (by decide)
  exact ⟨_, _, hwindow, rows, hall rfl (by decide) rfl rfl, hvisible⟩

end Gui

end PushService
