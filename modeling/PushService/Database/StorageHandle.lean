import PushService.Bytes
import PushService.System.Handles
import PushService.System.Run

/-!
# The SQLite handle of the push storage

`db_` has no initialiser. `OpenDatabase` stores in it what `sqlite3_open` answers, which is a handle
even after most failures, and null if there is no memory for one. `InsertPush` and the destructor
use `db_` as it is. Nothing is closed before the destructor.

So the calls must come in the right order: `OpenDatabase` at least once, never while `db_` holds a
handle, and `InsertPush` only while it does (`Fits`).
-/

namespace PushService

namespace Database

namespace StorageHandle

open Handles

/-- The functions of SQLite that are called with `db_`. -/
inductive Function
  | errmsg
  | prepare
  | exec
  | close
  deriving DecidableEq, Repr

/-- `sqlite3_errmsg` and `sqlite3_close` accept a null. -/
def Function.acceptsNull : Function → Bool
  | errmsg | close => true
  | prepare | exec => false

/-- A handle is the number of the call of `sqlite3_open` that made it. -/
abbrev DbEvent := Handles.Event ℕ Function

/-- What `sqlite3_open` answers. -/
inductive OpenResult
  | ok
  /-- The message, and whether null is stored instead of a handle. -/
  | error (errmsg : Bytes) (null : Bool)
  deriving DecidableEq, Repr

/-- The results of a call of `OpenDatabase`. A statement that fails has a message. -/
structure OpenResults where
  opened : OpenResult
  prepared : Option Bytes
  /-- The number in the first row, unless the step does not deliver one. -/
  row : Except Bytes ℕ
  /-- The results of the statements of `CreateTabs`, in the order of its map. -/
  creates : List (Option Bytes)
  /-- The results of the statements of `FillTabs`. -/
  fills : List (Option Bytes)

/-- What a function returns, which functions it calls with `db_`, and `last_error_` after it. -/
structure Part where
  result : Bool
  calls : List Function
  lastError : Option Bytes
  deriving DecidableEq, Repr

def execSqlQuery (errorMsg : Option Bytes) (lastError : Option Bytes) : Part :=
  match errorMsg with
  | none => ⟨true, [.exec], lastError⟩
  | some msg => ⟨false, [.exec], some msg⟩

/-- The loop of `CreateTabs` and `FillTabs`. -/
def execAll : List (Option Bytes) → Option Bytes → Part
  | [], lastError => ⟨true, [], lastError⟩
  | errorMsg :: results, lastError =>
    let p := execSqlQuery errorMsg lastError
    if p.result then
      let q := execAll results p.lastError
      ⟨q.result, p.calls ++ q.calls, q.lastError⟩
    else p

def initTabs (r : OpenResults) (lastError : Option Bytes) : Part :=
  let p := execAll r.creates lastError
  if p.result then
    let q := execAll r.fills p.lastError
    ⟨q.result, p.calls ++ q.calls, q.lastError⟩
  else p

def isTableExists (r : OpenResults) (lastError : Option Bytes) : Part :=
  match r.prepared with
  | some msg => ⟨false, [.prepare, .errmsg], some msg⟩
  | none =>
    match r.row with
    | .ok count => ⟨0 < count, [.prepare], lastError⟩
    | .error msg => ⟨false, [.prepare, .errmsg], some msg⟩

/-- `OpenDatabase` after `sqlite3_open`. -/
def afterOpen (r : OpenResults) (lastError : Option Bytes) : Part :=
  match r.opened with
  | .error msg _ => ⟨false, [.errmsg], some msg⟩
  | .ok =>
    let p := isTableExists r lastError
    if p.result then p
    else
      let q := initTabs r p.lastError
      ⟨q.result, p.calls ++ q.calls, q.lastError⟩

/-- The members of `PushStorage`, and how often `sqlite3_open` was called. -/
structure Storage where
  db : Handles.Slot ℕ
  lastError : Option Bytes
  opens : ℕ
  deriving DecidableEq, Repr

/-- `makeStorage`. -/
def makeStorage : Storage := ⟨.uninitialised, none, 0⟩

/-- What `sqlite3_open` stores. -/
def openedHandle (r : OpenResult) (s : Storage) : Option ℕ :=
  match r with
  | .error _ true => none
  | _ => some s.opens

inductive Call
  | openDatabase (r : OpenResults)
  /-- `InsertPush`, and the message of its statement if that fails. -/
  | insertPush (errorMsg : Option Bytes)
  | getLastError

def openDatabase (r : OpenResults) (s : Storage) : Storage × List DbEvent :=
  let handle := openedHandle r.opened s
  let p := afterOpen r s.lastError
  (⟨.stored handle, p.lastError, s.opens + 1⟩,
    .opened handle :: p.calls.map fun f ↦ .call f (.stored handle))

def insertPush (errorMsg : Option Bytes) (s : Storage) : Storage × List DbEvent :=
  let p := execSqlQuery errorMsg s.lastError
  ({ s with lastError := p.lastError }, p.calls.map fun f ↦ .call f s.db)

/-- The calls of the owner. -/
def storage : System Storage Call DbEvent where
  step
    | s, .openDatabase r => some (openDatabase r s)
    | s, .insertPush errorMsg => some (insertPush errorMsg s)
    | s, .getLastError => some (s, [])

/-- `~PushStorage`. -/
def destroy (s : Storage) : List DbEvent :=
  [.call .close s.db]

/-- The handle is managed well, from `makeStorage` to the destructor. -/
def WellManaged (t : List DbEvent) : Prop :=
  Managed Function.acceptsNull .close t

/-! ## The condition -/

/-- `db_` holds a handle. -/
def Storage.HasHandle (s : Storage) : Prop :=
  ∃ k, s.db = .stored (some k)

instance (s : Storage) : Decidable s.HasHandle :=
  match h : s.db with
  | .stored (some k) => isTrue ⟨k, h⟩
  | .stored none => isFalse fun ⟨_, hk⟩ ↦ by simp [h] at hk
  | .uninitialised => isFalse fun ⟨_, hk⟩ ↦ by simp [h] at hk

/-- `OpenDatabase` finds no handle, and `InsertPush` finds one. -/
def Fits (s : Storage) : Call → Prop
  | .openDatabase _ => ¬s.HasHandle
  | .insertPush _ => s.HasHandle
  | .getLastError => True

instance (s : Storage) : ∀ a, Decidable (Fits s a)
  | .openDatabase _ => inferInstanceAs (Decidable (¬s.HasHandle))
  | .insertPush _ => inferInstanceAs (Decidable s.HasHandle)
  | .getLastError => inferInstanceAs (Decidable True)

/-! ## What a call does to `db_` -/

variable {s s' : Storage} {es : List DbEvent}

theorem calls_execSqlQuery (errorMsg lastError : Option Bytes) :
    (execSqlQuery errorMsg lastError).calls = [.exec] := by
  cases errorMsg <;> rfl

/-- A part that the destructor is not, and that calls no `sqlite3_close`. -/
def Part.Open (p : Part) : Prop := .close ∉ p.calls

theorem open_execAll (results : List (Option Bytes)) (lastError : Option Bytes) :
    (execAll results lastError).Open := by
  induction results generalizing lastError with
  | nil => exact List.not_mem_nil
  | cons errorMsg results ih =>
    rw [execAll]
    dsimp only
    split_ifs
    · simpa [Part.Open, calls_execSqlQuery] using ih _
    · simp [Part.Open, calls_execSqlQuery]

theorem open_initTabs (r : OpenResults) (lastError : Option Bytes) :
    (initTabs r lastError).Open := by
  rw [initTabs]
  dsimp only
  split_ifs
  · simpa [Part.Open] using ⟨open_execAll r.creates lastError, open_execAll r.fills _⟩
  · exact open_execAll r.creates lastError

theorem open_isTableExists (r : OpenResults) (lastError : Option Bytes) :
    (isTableExists r lastError).Open := by
  rw [isTableExists]
  split
  · simp [Part.Open]
  · split
    · simp [Part.Open]
    · simp [Part.Open]

theorem open_afterOpen (r : OpenResults) (lastError : Option Bytes) :
    (afterOpen r lastError).Open := by
  rw [afterOpen]
  split
  · simp [Part.Open]
  · dsimp only
    split_ifs
    · exact open_isTableExists r lastError
    · simpa [Part.Open] using ⟨open_isTableExists r lastError, open_initTabs r _⟩

/-- Where there is no handle, only the message of the error is asked for. -/
theorem calls_afterOpen_of_null {r : OpenResults} (h : openedHandle r.opened s = none)
    (lastError : Option Bytes) : ∀ f ∈ (afterOpen r lastError).calls, f.acceptsNull := by
  cases hopened : r.opened with
  | ok =>
    rw [hopened] at h
    exact absurd h (by simp [openedHandle])
  | error msg null =>
    rw [afterOpen, hopened]
    simp [Function.acceptsNull]

theorem openedHandle_eq_some {r : OpenResult} {k : ℕ} (h : openedHandle r s = some k) :
    k = s.opens := by
  unfold openedHandle at h
  split at h
  · exact absurd h (by simp)
  · exact (Option.some_inj.mp h).symm

/-- The calls before the destructor close nothing. -/
theorem not_close_of_step {a : Call} (hstep : storage.step s a = some (s', es)) :
    ∀ slot, .call .close slot ∉ es := by
  intro slot hmem
  cases a with
  | openDatabase r =>
    obtain ⟨-, rfl⟩ := Prod.mk.inj (Option.some_inj.mp hstep)
    rcases List.mem_cons.mp hmem with heq | hmem
    · exact absurd heq (by simp)
    · obtain ⟨f, hf, heq⟩ := List.mem_map.mp hmem
      rw [(Handles.Event.call.inj heq).1] at hf
      exact open_afterOpen r _ hf
  | insertPush errorMsg =>
    obtain ⟨-, rfl⟩ := Prod.mk.inj (Option.some_inj.mp hstep)
    rw [calls_execSqlQuery] at hmem
    simp at hmem
  | getLastError =>
    obtain ⟨-, rfl⟩ := Prod.mk.inj (Option.some_inj.mp hstep)
    exact List.not_mem_nil hmem

theorem not_close_of_run {calls : List Call} (hrun : storage.run s calls = some (s', es)) :
    ∀ slot, .call .close slot ∉ es := by
  refine System.run_invariant (I := fun _ h ↦ ∀ slot, .call .close slot ∉ h) (h := []) ?_
    (fun _ ↦ List.not_mem_nil) hrun
  intro s h a s' es hI hstep slot hmem
  rcases List.mem_append.mp hmem with hmem | hmem
  · exact hI slot hmem
  · exact not_close_of_step hstep slot hmem

/-- A handle is closed by the destructor, if it is still there. -/
theorem count_close {k : ℕ} (h : ∀ slot, .call .close slot ∉ es) :
    (es ++ destroy s).count (.call .close (.stored (some k)))
      = if s.db = .stored (some k) then 1 else 0 := by
  rw [List.count_append, List.count_eq_zero_of_not_mem (h _), destroy, List.count_singleton,
    Nat.zero_add]
  by_cases hdb : s.db = .stored (some k)
  · simp [hdb]
  · simp [hdb]

/-! ## Runs that fit -/

/-- All is well up to here, and no handle is lost. -/
structure Inv (s : Storage) (h : List DbEvent) : Prop where
  justified : Justified Function.acceptsNull [] h
  stored : ∀ handle, s.db = .stored handle → .opened handle ∈ h
  owned : ∀ k, .opened (some k) ∈ h → s.db = .stored (some k)
  fresh : ∀ k, .opened (some k) ∈ h → k < s.opens

theorem inv_makeStorage : Inv makeStorage [] where
  justified := trivial
  stored _ h := absurd h (by simp [makeStorage])
  owned _ h := absurd h List.not_mem_nil
  fresh _ h := absurd h List.not_mem_nil

theorem Inv.openDatabase {h : List DbEvent} (hI : Inv s h) (hfits : ¬s.HasHandle)
    (r : OpenResults) : Inv (openDatabase r s).1 (h ++ (openDatabase r s).2) := by
  have hcalls := fun hnull ↦ calls_afterOpen_of_null (r := r) (s := s) hnull s.lastError
  have hopened : ∀ k, .opened (some k) ∈ h ++ (StorageHandle.openDatabase r s).2 →
      openedHandle r.opened s = some k := by
    intro k hmem
    rcases List.mem_append.mp hmem with hmem | hmem
    · -- nothing was there before
      exact absurd ⟨k, hI.owned k hmem⟩ hfits
    · rcases List.mem_cons.mp hmem with heq | hmem
      · exact (Handles.Event.opened.inj heq).symm
      · obtain ⟨f, -, heq⟩ := List.mem_map.mp hmem
        exact absurd heq (by simp)
  refine ⟨?_, ?_, fun k hmem ↦ congrArg Handles.Slot.stored (hopened k hmem), fun k hmem ↦ ?_⟩
  · rw [justified_append]
    refine ⟨hI.justified, trivial, justified_calls (by simp) hcalls⟩
  · rintro handle hdb
    obtain rfl := Handles.Slot.stored.inj hdb
    exact List.mem_append_right _ List.mem_cons_self
  · rw [openedHandle_eq_some (hopened k hmem)]
    exact Nat.lt_succ_self s.opens

theorem Inv.insertPush {h : List DbEvent} (hI : Inv s h) (hfits : s.HasHandle)
    (errorMsg : Option Bytes) :
    Inv (insertPush errorMsg s).1 (h ++ (insertPush errorMsg s).2) := by
  obtain ⟨k, hk⟩ := hfits
  have hevents : (StorageHandle.insertPush errorMsg s).2 = [.call .exec s.db] := by
    rw [StorageHandle.insertPush, calls_execSqlQuery]
    rfl
  have hopened : ∀ {handle}, .opened handle ∈ h ++ [.call .exec s.db] → .opened handle ∈ h := by
    intro handle hmem
    rcases List.mem_append.mp hmem with hmem | hmem
    · exact hmem
    · exact absurd (List.mem_singleton.mp hmem) (by simp)
  rw [hevents]
  refine ⟨?_, fun handle hdb ↦ ?_, fun j hmem ↦ hI.owned j (hopened hmem), fun j hmem ↦
    hI.fresh j (hopened hmem)⟩
  · rw [justified_append]
    exact ⟨hI.justified, ⟨some k, hk, hI.stored _ hk, by simp⟩, trivial⟩
  · exact List.mem_append_left _ (hI.stored handle hdb)

theorem inv_of_obeys {calls : List Call} (hC : storage.Obeys Fits makeStorage calls)
    (hrun : storage.run makeStorage calls = some (s, es)) : Inv s es := by
  refine System.run_induction (I := Inv) (h := []) ?_ inv_makeStorage hC hrun
  intro s h a s' es hI hfits hstep
  cases a with
  | openDatabase r =>
    obtain ⟨rfl, rfl⟩ := Prod.mk.inj (Option.some_inj.mp hstep)
    exact hI.openDatabase hfits r
  | insertPush errorMsg =>
    obtain ⟨rfl, rfl⟩ := Prod.mk.inj (Option.some_inj.mp hstep)
    exact hI.insertPush hfits errorMsg
  | getLastError =>
    obtain ⟨rfl, rfl⟩ := Prod.mk.inj (Option.some_inj.mp hstep)
    rwa [List.append_nil]

theorem Inv.wellManaged (hI : Inv s es) (hclose : ∀ slot, .call .close slot ∉ es)
    (hdb : s.db ≠ .uninitialised) : WellManaged (es ++ destroy s) where
  justified := by
    rw [justified_append]
    cases hslot : s.db with
    | uninitialised => exact absurd hslot hdb
    | stored handle =>
      exact ⟨hI.justified, ⟨handle, hslot, hI.stored handle hslot, fun _ ↦ rfl⟩, trivial⟩
  closed_once k hk := by
    have hmem : .opened (some k) ∈ es := by
      rcases List.mem_append.mp hk with hk | hk
      · exact hk
      · exact absurd (List.mem_singleton.mp hk) (by simp)
    rw [count_close hclose, if_pos (hI.owned k hmem)]

/-! ## Runs that do not -/

/-- The handle is not in `db_`, and will not be again. -/
def Lost (k : ℕ) (s : Storage) : Prop :=
  k < s.opens ∧ s.db ≠ .stored (some k)

theorem lost_openDatabase {k : ℕ} (hk : k < s.opens) (r : OpenResults) :
    Lost k (openDatabase r s).1 := by
  refine ⟨Nat.lt_succ_of_lt hk, fun heq ↦ ?_⟩
  exact absurd (openedHandle_eq_some (Handles.Slot.stored.inj heq)) hk.ne

theorem Lost.run {k : ℕ} (h : Lost k s) {calls : List Call}
    (hrun : storage.run s calls = some (s', es)) : Lost k s' := by
  refine System.run_invariant (I := fun s _ ↦ Lost k s) (h := []) ?_ h hrun
  intro s _ a s' es hlost hstep
  cases a with
  | openDatabase r =>
    obtain ⟨rfl, -⟩ := Prod.mk.inj (Option.some_inj.mp hstep)
    exact lost_openDatabase hlost.1 r
  | insertPush errorMsg =>
    obtain ⟨rfl, -⟩ := Prod.mk.inj (Option.some_inj.mp hstep)
    exact hlost
  | getLastError =>
    obtain ⟨rfl, -⟩ := Prod.mk.inj (Option.some_inj.mp hstep)
    exact hlost

/-- A breach is a handle that is lost, or a use of what is not one. -/
theorem obeys_of_wellManaged {calls : List Call}
    (hrun : storage.run makeStorage calls = some (s, es))
    (h : WellManaged (es ++ destroy s)) : storage.Obeys Fits makeStorage calls := by
  by_contra hbreak
  obtain ⟨before, a, after, u, fs, rfl, hbefore, hobeys, hbreach⟩ :=
    System.exists_first_breach hrun hbreak
  obtain ⟨u', fs', gs, hu, hrest, rfl⟩ := System.run_append_eq_some.mp hrun
  obtain ⟨rfl, rfl⟩ := Prod.mk.inj (Option.some_inj.mp (hbefore.symm.trans hu))
  obtain ⟨v, ks, ls, hstep, hafter, rfl⟩ := System.run_cons_eq_some.mp hrest
  have hI := inv_of_obeys hobeys hbefore
  cases a with
  | openDatabase r =>
    obtain ⟨k, hk⟩ := Classical.not_not.mp hbreach
    have hopened := hI.stored _ hk
    obtain ⟨rfl, rfl⟩ := Prod.mk.inj (Option.some_inj.mp hstep)
    have hlost := (lost_openDatabase (hI.fresh k hopened) r).run hafter
    have honce := h.closed_once k (by simp [hopened])
    rw [count_close (not_close_of_run hrun), if_neg hlost.2] at honce
    exact absurd honce (by simp)
  | insertPush errorMsg =>
    obtain ⟨rfl, rfl⟩ := Prod.mk.inj (Option.some_inj.mp hstep)
    have hjustified := h.justified
    rw [justified_append, justified_append, justified_append] at hjustified
    have huse := hjustified.1.2.1
    rw [calls_execSqlQuery] at huse
    obtain ⟨handle, hdb, -, hnull⟩ := huse.1
    cases handle with
    | none => exact absurd (hnull rfl) (by simp [Function.acceptsNull])
    | some k => exact hbreach ⟨k, hdb⟩
  | getLastError => exact hbreach trivial

/-- There is something in `db_` once `OpenDatabase` has been called. -/
theorem db_ne_uninitialised_iff {calls : List Call} (hrun : storage.run s calls = some (s', es)) :
    s'.db ≠ .uninitialised ↔ s.db ≠ .uninitialised ∨ ∃ r, .openDatabase r ∈ calls := by
  induction calls generalizing s es with
  | nil =>
    obtain ⟨rfl, -⟩ := Prod.mk.inj (Option.some_inj.mp hrun)
    simp
  | cons a calls ih =>
    obtain ⟨u, fs, gs, hstep, hrest, -⟩ := System.run_cons_eq_some.mp hrun
    rw [ih hrest]
    cases a with
    | openDatabase r =>
      obtain ⟨rfl, -⟩ := Prod.mk.inj (Option.some_inj.mp hstep)
      exact iff_of_true (.inl (by simp)) (.inr ⟨r, List.mem_cons_self⟩)
    | insertPush errorMsg =>
      obtain ⟨rfl, -⟩ := Prod.mk.inj (Option.some_inj.mp hstep)
      simp
    | getLastError =>
      obtain ⟨rfl, -⟩ := Prod.mk.inj (Option.some_inj.mp hstep)
      simp

/-- **The handle is managed correctly exactly if the calls fit.** For every sequence of calls with
any results, followed by the destructor. -/
theorem wellManaged_iff_obeys {calls : List Call}
    (hrun : storage.run makeStorage calls = some (s, es)) :
    WellManaged (es ++ destroy s) ↔
      storage.Obeys Fits makeStorage calls ∧ ∃ r, .openDatabase r ∈ calls := by
  have hinit : s.db ≠ .uninitialised ↔ ∃ r, .openDatabase r ∈ calls := by
    rw [db_ne_uninitialised_iff hrun]
    simp [makeStorage]
  rw [← hinit]
  constructor
  · intro h
    refine ⟨obeys_of_wellManaged hrun h, fun hdb ↦ ?_⟩
    obtain ⟨handle, hstored, -⟩ := (justified_append.mp h.justified).2.1
    exact absurd (hdb.symm.trans hstored) (by simp)
  · rintro ⟨hC, hdb⟩
    exact (inv_of_obeys hC hrun).wellManaged (not_close_of_run hrun) hdb

/-- A call of `OpenDatabase` in which everything goes through and the tables are there. -/
def openResults : OpenResults := ⟨.ok, none, .ok 1, [], []⟩

/-- There is no memory for a handle at first; then the database is opened, and pushes are
inserted. -/
def retryCalls : List Call :=
  [.openDatabase ⟨.error [] true, none, .ok 1, [], []⟩, .getLastError, .openDatabase openResults,
    .insertPush none, .insertPush (some [])]

theorem wellManaged_iff_obeys_retry :
    ∃ s es, storage.run makeStorage retryCalls = some (s, es) ∧ WellManaged (es ++ destroy s) := by
  have hrun : storage.run makeStorage retryCalls = some (_, _) := rfl
  have hfits : storage.Obeys Fits makeStorage retryCalls := by decide
  exact ⟨_, _, hrun, (wellManaged_iff_obeys hrun).mpr ⟨hfits, _, List.mem_cons_self⟩⟩

/-- A storage that is destroyed without having been opened closes what it never had, and one that is
opened twice loses the first handle. -/
theorem not_wellManaged_unopened_reopened :
    (∃ s es, storage.run makeStorage [] = some (s, es) ∧ ¬WellManaged (es ++ destroy s)) ∧
      ∃ s es, storage.run makeStorage [.openDatabase openResults, .openDatabase openResults]
        = some (s, es) ∧ ¬WellManaged (es ++ destroy s) := by
  refine ⟨⟨_, _, rfl, fun h ↦ ?_⟩, _, _, rfl, fun h ↦ ?_⟩
  · obtain ⟨handle, hstored, -⟩ := h.justified.1
    exact absurd hstored (by simp [makeStorage])
  · exact absurd (h.closed_once 0 (by decide)) (by decide)

end StorageHandle

end Database

end PushService
