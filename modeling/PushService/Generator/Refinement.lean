import PushService.Generator.Lifecycle

/-!
# The admin generator as a generator

`AdminGenerator` and `PushGenerator` both follow `PushGenerator::Run`. The first has the two parts
of `GeneratePush` one by one, and the client at work beside them. The second has `GeneratePush` as
one call that returns what it sends, and the owner, who joins the thread.

Seen as a generator (`asGenerator`), each run of the first is one of the second that hands the same
data to `asyncSend`, in the same order. So what holds of the threads of all generators holds of this
one, whatever its client does meanwhile.
-/

namespace PushService

namespace Generator

open Client PushGenerator

/-- `GeneratePush` is called where it begins, and has returned where only the push is left to
send. -/
def Worker.place : Worker → Place
  | .none => .absent
  | .loop => .test
  | .test | .sendAuth => .generate
  | .record | .send => .send createAdminPush
  | .sleep => .sleep

@[simp] theorem Worker.place_eq_absent {w : Worker} : w.place = .absent ↔ w = .none := by
  cases w <;> simp [Worker.place]

namespace AdminGenerator

/-- The owner is in `join` from `Stop` until the thread is gone. -/
def asGenerator (g : AdminGenerator) : PushGenerator Bool where
  running := g.running
  worker := g.worker.place
  joining := g.worker ≠ .none && !g.running
  members := g.authorized || g.worker = .record
  destroyed := false
  terminated := false

/-- The AUTH push is only sent where `authorized_` is not set. -/
structure Refines (g : AdminGenerator) (p : PushGenerator Bool) : Prop where
  eq_asGenerator : p = g.asGenerator
  sendAuth : g.worker = .sendAuth → g.authorized = false

/-- The data that has been handed to `asyncSend`. -/
def handed (h : List Generator.Event) : List Bytes :=
  h.filterMap fun
    | .client (.asyncWrite data) => some data
    | _ => none

@[simp] theorem handed_append (h es : List Generator.Event) :
    handed (h ++ es) = handed h ++ handed es :=
  List.filterMap_append ..

variable {login password : Bytes} {cb : Callbacks} {freed : ℕ → ℕ → UInt8} {g g' : AdminGenerator}
  {es : List Generator.Event}

/-- No step of the client but a send hands anything over. -/
theorem handed_clientStep {a : TcpClient.Action} (hstep : g.clientStep cb freed a = some (g', es)) :
    handed es = [] := by
  obtain ⟨hsend, c', outputs, hclient, -, rfl⟩ := clientStep_eq_some hstep
  refine List.filterMap_eq_nil_iff.mpr fun e he ↦ ?_
  rcases List.mem_append.mp he with he | he
  · obtain ⟨output, houtput, rfl⟩ := List.mem_map.mp he
    have hnone := TcpClient.ne_asyncWrite_of_step hsend hclient output houtput
    cases output with
    | asyncWrite data => exact absurd rfl (hnone data)
    | _ => rfl
  · unfold written at he
    split at he
    · split at he
      · rw [List.mem_singleton.mp he]
      · exact absurd he List.not_mem_nil
    · exact absurd he List.not_mem_nil

/-- What `PushGenerator` does for a step of the worker: nothing in the middle of `GeneratePush`, and
where the loop ends the owner joins the thread. -/
theorem exists_run_of_runStep (hsendAuth : g.worker = .sendAuth → g.authorized = false)
    (hstep : g.run login password = some (g', es)) :
    (∃ bs fs, (PushGenerator.system (adminGeneratePush login password)).run g.asGenerator bs
        = some (g'.asGenerator, fs) ∧ sent fs = handed es) ∧
      (g'.worker = .sendAuth → g'.authorized = false) := by
  obtain ⟨running, authorized, worker, bytes, client⟩ := g
  cases worker with
  | none => exact absurd hstep (by simp [run])
  | loop =>
    obtain ⟨rfl, rfl⟩ := Prod.mk.inj (Option.some_inj.mp hstep)
    cases running with
    | true => exact ⟨⟨[.run ()], [], rfl, rfl⟩, by simp⟩
    | false => exact ⟨⟨[.run (), .join], [.joined], rfl, rfl⟩, by simp⟩
  | test =>
    obtain ⟨rfl, rfl⟩ := Prod.mk.inj (Option.some_inj.mp hstep)
    cases authorized with
    | true => exact ⟨⟨[.run ()], [.generated [] createAdminPush], rfl, rfl⟩, by simp⟩
    | false => exact ⟨⟨[], [], rfl, rfl⟩, fun _ ↦ rfl⟩
  | sendAuth =>
    obtain ⟨rfl, rfl⟩ := Prod.mk.inj (Option.some_inj.mp hstep)
    obtain rfl : authorized = false := hsendAuth rfl
    exact ⟨⟨[.run ()], .generated [authPush login password] createAdminPush ::
      sends [authPush login password], rfl, rfl⟩, by simp⟩
  | record =>
    obtain ⟨rfl, rfl⟩ := Prod.mk.inj (Option.some_inj.mp hstep)
    exact ⟨⟨[], [], by simp [asGenerator, Worker.place], rfl⟩, by simp⟩
  | send =>
    obtain ⟨rfl, rfl⟩ := Prod.mk.inj (Option.some_inj.mp hstep)
    exact ⟨⟨[.run ()], sends [createAdminPush], rfl, rfl⟩, by simp⟩
  | sleep =>
    obtain ⟨rfl, rfl⟩ := Prod.mk.inj (Option.some_inj.mp hstep)
    exact ⟨⟨[.run ()], [.slept], rfl, rfl⟩, by simp⟩

/-- The generator goes on as `PushGenerator` does, and sends the same. -/
theorem isSimulation_asGenerator (login password : Bytes) (cb : Callbacks)
    (freed : ℕ → ℕ → UInt8) :
    System.IsSimulationUpTo (AdminGenerator.system login password cb freed)
      (PushGenerator.system (adminGeneratePush login password)) handed sent Refines := by
  rintro g p a g' es ⟨rfl, hsendAuth⟩ hstep
  cases a with
  | start =>
    simp only [AdminGenerator.system, AdminGenerator.step] at hstep
    split at hstep
    · rename_i hworker
      obtain ⟨rfl, rfl⟩ := Prod.mk.inj (Option.some_inj.mp hstep)
      refine ⟨[.start], _, [.started], System.run_singleton ?_, rfl, ⟨rfl, by simp⟩⟩
      simp [PushGenerator.system, PushGenerator.step, asGenerator, hworker, Worker.place]
    · exact absurd hstep (by simp)
  | stop =>
    obtain ⟨rfl, rfl⟩ := Prod.mk.inj (Option.some_inj.mp hstep)
    cases hrunning : g.running with
    | true =>
      refine ⟨[.stop], _, [], System.run_singleton ?_, rfl, ⟨rfl, hsendAuth⟩⟩
      simp [PushGenerator.system, PushGenerator.step, asGenerator, hrunning]
    | false =>
      -- the owner has already called `Stop`
      exact ⟨[], _, [], rfl, rfl, ⟨by simp [asGenerator, hrunning], hsendAuth⟩⟩
  | run =>
    obtain ⟨⟨bs, fs, hbs, hsent⟩, hsendAuth'⟩ := exists_run_of_runStep hsendAuth hstep
    exact ⟨bs, _, fs, hbs, hsent, rfl, hsendAuth'⟩
  | client a =>
    have hnone := handed_clientStep hstep
    obtain ⟨-, c', outputs, -, rfl, -⟩ := clientStep_eq_some hstep
    exact ⟨[], _, [], rfl, hnone.symm, rfl, hsendAuth⟩

/-- **The admin generator is a generator.** Every run of it, over any client, is one of
`PushGenerator` in which the same data is handed to `asyncSend`, in the same order. -/
theorem exists_generator_run {client : TcpClient} {as : List Action} {h : List Generator.Event}
    (hrun : (AdminGenerator.system login password cb freed).run (.init client) as = some (g, h)) :
    ∃ bs h', (PushGenerator.system (adminGeneratePush login password)).run (.init false) bs
      = some (g.asGenerator, h') ∧ sent h' = handed h := by
  have hinit : Refines (.init client) (.init false) := ⟨rfl, by simp [AdminGenerator.init]⟩
  obtain ⟨bs, p, h', hbs, hsent, rfl, -⟩ := System.IsSimulationUpTo.run
    (isSimulation_asGenerator login password cb freed) handed_append sent_append hinit hrun
  exact ⟨bs, h', hbs, hsent⟩

/-- The AUTH push is handed over once, before all others, whatever becomes of its write. -/
theorem handed_of_run {client : TcpClient} {as : List Action} {h : List Generator.Event}
    (hrun : (AdminGenerator.system login password cb freed).run (.init client) as = some (g, h)) :
    ∃ n, handed h <+: authBytes login password :: List.replicate n adminBytes := by
  obtain ⟨bs, h', hbs, hsent⟩ := exists_generator_run hrun
  exact hsent ▸ sent_of_admin hbs

end AdminGenerator

end Generator

end PushService
