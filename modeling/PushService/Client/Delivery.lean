import PushService.Client.ClientApp
import PushService.Protocol.Conservation

/-!
# Delivery of received messages

`onDataReceived` calls `Feed` once for each chunk, and `Feed` takes at most one frame. So the event
handler hears of a message as soon as its last byte has arrived if and only if no chunk completes
two frames (`deliversPromptly_iff`); a second one waits in the buffer for a later chunk.
-/

namespace PushService

namespace Client

open Protocol

/-- The arguments of a call of `SerializeToFrame`. -/
structure Sent where
  push : Push
  id : UInt32
  type : MessageType

namespace Sent

def toFrame (s : Sent) : Except String Bytes := serializeToFrame s.push s.id s.type

def decoded (s : Sent) : DecodedMessage :=
  ⟨s.id, s.type, if s.type = .push then some s.push else none⟩

/-- The call of the event handler that is due for the message. -/
def call (s : Sent) : HandlerCall :=
  match s.type with
  | .push => .onPushReceived s.id s.push
  | .accepted => .onAcceptPush s.id
  | .error => .onError "Server error"

theorem handlerCalls_decoded (s : Sent) : ClientApp.handlerCalls s.decoded = [s.call] := by
  obtain ⟨push, id, type⟩ := s
  cases type <;> rfl

theorem forall₂_carries {sent : List Sent} {fs : List Bytes}
    (h : List.Forall₂ (fun s f ↦ s.toFrame = .ok f) sent fs) :
    List.Forall₂ Carries fs (sent.map decoded) := by
  rw [List.forall₂_map_right_iff]
  exact h.flip.imp fun _ _ ↦ carries_of_serializeToFrame

end Sent

namespace ClientApp

/-! ## Chunk after chunk -/

theorem onDataReceived_eq (data : Bytes) (app : ClientApp) :
    app.onDataReceived data = ({ app with protocol := (app.protocol.feed data).2 },
      (app.protocol.feed data).1.toList.flatMap handlerCalls) := by
  rw [onDataReceived]
  split
  · rename_i message protocol hfeed
    simp [hfeed]
  · rename_i protocol hfeed
    simp [hfeed]

/-- The calls of the event handler are those for the messages the adapter returns. -/
theorem feeding_of_receiving {app app' : ClientApp} {cs : List Bytes} {calls : List HandlerCall}
    (hrun : receiving.run app cs = some (app', calls)) :
    ∃ h, ProtocolAdapter.feeding.run app.protocol cs = some (app'.protocol, h) ∧
      calls = h.flatMap handlerCalls := by
  induction cs generalizing app calls with
  | nil =>
    obtain ⟨rfl, rfl⟩ : app = app' ∧ [] = calls := by simpa using hrun
    exact ⟨[], rfl, rfl⟩
  | cons c cs ih =>
    obtain ⟨app₁, calls₁, calls₂, hstep, hrest, rfl⟩ := System.run_cons_eq_some.mp hrun
    rw [receiving, Option.some_inj, onDataReceived_eq, Prod.mk.injEq] at hstep
    obtain ⟨rfl, rfl⟩ := hstep
    obtain ⟨h, hfeeding, rfl⟩ := ih hrest
    refine ⟨(app.protocol.feed c).1.toList ++ h, ?_, (List.flatMap_append ..).symm⟩
    exact System.run_cons_eq_some.mpr ⟨_, _, _, rfl, hfeeding, rfl⟩

theorem exists_receiving (app : ClientApp) (cs : List Bytes) :
    ∃ app' calls, receiving.run app cs = some (app', calls) :=
  System.exists_run (fun _ _ ↦ ⟨_, rfl⟩) app cs

/-- On a fresh adapter the event handler has heard of the first messages, as many as the schedule
says. -/
theorem calls_of_receiving {sent : List Sent} {fs cs : List Bytes} {app app' : ClientApp}
    {calls : List HandlerCall} (hframes : List.Forall₂ (fun s f ↦ s.toFrame = .ok f) sent fs)
    (hpre : cs.flatten <+: fs.flatten) (hfresh : app.protocol = {})
    (hrun : receiving.run app cs = some (app', calls)) :
    calls = (sent.take (FrameCode.taken fs 0 0 cs)).map Sent.call ∧
      (arrived fs cs.flatten.length ≤ FrameCode.taken fs 0 0 cs →
        ¬HoldsFrame app'.protocol.buffer) := by
  obtain ⟨h, hfeeding, rfl⟩ := feeding_of_receiving hrun
  rw [hfresh] at hfeeding
  obtain ⟨rfl, -, hframe⟩ := feeding_of_carries (Sent.forall₂_carries hframes) hpre hfeeding
  refine ⟨?_, hframe⟩
  rw [← List.map_take, List.flatMap_map]
  simp only [Sent.handlerCalls_decoded]
  exact List.flatMap_pure_eq_map ..

/-! ## Prompt delivery -/

/-- After each chunk the event handler has been called for exactly the messages whose last byte has
arrived, in order, and the buffer holds no whole frame. -/
def DeliversPromptly (app : ClientApp) (sent : List Sent) (fs cs : List Bytes) : Prop :=
  ∀ i ≤ cs.length, ∀ app' calls, receiving.run app (cs.take i) = some (app', calls) →
    calls = (sent.take (arrived fs (cs.take i).flatten.length)).map Sent.call ∧
      ¬HoldsFrame app'.protocol.buffer

/-- No chunk contains the last byte of more than one frame. -/
def CompletesAtMostOne (fs cs : List Bytes) : Prop :=
  ∀ i < cs.length,
    arrived fs (cs.take (i + 1)).flatten.length ≤ arrived fs (cs.take i).flatten.length + 1

/-- **Prompt delivery, and what delays it**: every message is handed over with the chunk that
completes its frame if and only if no chunk completes more than one frame. -/
theorem deliversPromptly_iff (sent : List Sent) (fs cs : List Bytes) (app : ClientApp)
    (hframes : List.Forall₂ (fun s f ↦ s.toFrame = .ok f) sent fs)
    (hcs : cs.flatten = fs.flatten) (hfresh : app.protocol = {}) :
    app.DeliversPromptly sent fs cs ↔ CompletesAtMostOne fs cs := by
  have hpre : ∀ i, (cs.take i).flatten <+: fs.flatten := by
    intro i
    rw [← hcs]
    exact List.IsPrefix.flatten (List.take_prefix i cs)
  rw [CompletesAtMostOne, ← FrameCode.taken_eq_arrived_iff
    (arrived_zero_of_carries (Sent.forall₂_carries hframes))]
  constructor
  · intro hprompt i hi
    obtain ⟨app', calls, hrun⟩ := exists_receiving app (cs.take i)
    have hdue := (hprompt i hi app' calls hrun).1
    rw [(calls_of_receiving hframes (hpre i) hfresh hrun).1] at hdue
    -- as many calls as frames taken, on the one side, and as many as have arrived, on the other
    have hlength := congrArg List.length hdue
    have htaken : FrameCode.taken fs 0 0 (cs.take i)
        ≤ arrived fs (0 + (cs.take i).flatten.length) :=
      FrameCode.taken_le_arrived fs (Nat.zero_le _) _
    have harr : arrived fs (cs.take i).flatten.length ≤ sent.length :=
      hframes.length_eq ▸ arrived_le_length fs _
    rw [Nat.zero_add] at htaken
    rw [List.length_map, List.length_map, List.length_take, List.length_take] at hlength
    omega
  · intro hkeeps i hi app' calls hrun
    obtain ⟨hcalls, hframe⟩ := calls_of_receiving hframes (hpre i) hfresh hrun
    rw [hkeeps i hi] at hcalls
    exact ⟨hcalls, hframe (hkeeps i hi).ge⟩

/-- Two acceptances, and their frames. -/
def twoSent : List Sent :=
  [⟨⟨.normal, .notification, .source1, []⟩, 7, .accepted⟩,
    ⟨⟨.high, .warning, .source2, []⟩, 8, .accepted⟩]

def twoFrames : List Bytes :=
  [[0, 0, 0, 12, 0, 0, 0, 7, 2, 0, 0, 0, 0, 0, 0, 0],
    [0, 0, 0, 12, 0, 0, 0, 8, 2, 1, 1, 1, 0, 0, 0, 0]]

instance (fs cs : List Bytes) : Decidable (CompletesAtMostOne fs cs) :=
  inferInstanceAs (Decidable (∀ i < cs.length, _))

/-- The second frame is cut, and its rest comes alone. -/
def cutChunks : List Bytes :=
  [[0, 0, 0, 12, 0, 0, 0, 7, 2, 0, 0, 0, 0, 0, 0, 0, 0, 0],
    [0, 12, 0, 0, 0, 8, 2, 1, 1, 1, 0, 0, 0, 0]]

theorem deliversPromptly_cutChunks : init.DeliversPromptly twoSent twoFrames cutChunks :=
  (deliversPromptly_iff twoSent twoFrames cutChunks init (.cons rfl (.cons rfl .nil)) rfl
    rfl).mpr (by decide)

/-- Both frames come in one chunk. -/
theorem not_deliversPromptly :
    ¬∀ (sent : List Sent) (fs cs : List Bytes) (app : ClientApp),
      List.Forall₂ (fun s f ↦ s.toFrame = .ok f) sent fs → cs.flatten = fs.flatten →
        app.protocol = {} → app.DeliversPromptly sent fs cs := by
  intro hall
  have hprompt := hall twoSent twoFrames [twoFrames.flatten] init (.cons rfl (.cons rfl .nil))
    rfl rfl
  exact absurd (hprompt 1 le_rfl _ _ rfl).1 (by decide)

end ClientApp

end Client

end PushService
