import PushService.Server.Rules

/-!
# The registry and the open sessions

A session is registered under its id when it is made, and taken out when it is closed; `ClearAll`
takes out all at once and closes them afterwards, one by one. As long as the counter of the ids has
not come round, the registry holds exactly the open sessions (`registered_iff_isOpen`).
-/

namespace PushService

namespace Server

namespace TcpServer

variable {cb : Callbacks} {s : TcpServer}

/-! ## Which sessions are open -/

theorem isOpen_of_length_le {session : ℕ} (h : s.sessions.length ≤ session) :
    s.isOpen session = false := by
  rw [isOpen, List.getElem?_eq_none h]

@[simp] theorem isOpen_doRead (session session' : ℕ) :
    (s.doRead session).isOpen session' = s.isOpen session' := by
  rw [doRead]
  split_ifs <;> rfl

@[simp] theorem isOpen_doAccept (session : ℕ) :
    s.doAccept.state.isOpen session = s.isOpen session := by
  rw [doAccept]
  dsimp only [Outcome.emit]
  split_ifs <;> rfl

theorem isOpen_shut {session : ℕ} {c : ClientSession} (session' : ℕ) :
    (s.shut session c).isOpen session' = (s.isOpen session' && decide (session' ≠ session)) := by
  rw [isOpen, isOpen, shut]
  by_cases h : session' = session
  · subst h
    by_cases hlt : session' < s.sessions.length
    · simp [hlt]
    · simp [hlt]
  · rw [List.getElem?_set_ne (Ne.symm h)]
    simp [h]

theorem isOpen_close (session session' : ℕ) :
    (close cb session s).state.isOpen session'
      = (s.isOpen session' && decide (session' ≠ session)) := by
  by_cases hopen : s.isOpen session = true
  · obtain ⟨c, hc, hco⟩ := isOpen_iff.mp hopen
    rw [close_of_open hc hco, invoke_state, isOpen_shut]
  · rw [close_of_not_open (by simpa using hopen)]
    by_cases h : session' = session
    · subst h
      simpa [Outcome.done] using hopen
    · simp [Outcome.done, h]

theorem close_not_thrown (session : ℕ) : (close cb session s).thrown = false := by
  by_cases hopen : s.isOpen session = true
  · obtain ⟨c, hc, hco⟩ := isOpen_iff.mp hopen
    rw [close_of_open hc hco, invoke]
    split_ifs <;> rfl
  · rw [close_of_not_open (by simpa using hopen)]
    rfl

theorem closeEach_cons_state (session : ℕ) (order : List ℕ) :
    (closeEach cb (session :: order) s).state
      = (closeEach cb order (close cb session s).state).state := by
  rw [closeEach, Outcome.andThen_of_not_thrown (close_not_thrown session)]

/-- What is left open is what was open and not in the list. -/
theorem isOpen_closeEach (order : List ℕ) (session : ℕ) :
    (closeEach cb order s).state.isOpen session
      = (s.isOpen session && decide (session ∉ order)) := by
  induction order generalizing s with
  | nil => simp [closeEach, Outcome.done]
  | cons h order ih =>
    rw [closeEach_cons_state, ih, isOpen_close, Bool.and_assoc]
    simp

theorem isOpen_transmit (completion : Completion) (operations : Operations Op Completion)
    (session : ℕ) :
    isOpen { s with sessions := transmit completion s.sessions, operations := operations } session
      = s.isOpen session := by
  rw [isOpen, isOpen]
  rcases completion with _ | _ | _ | ⟨session', data, length, _ | _⟩ <;> try rfl
  dsimp only [transmit]
  rw [List.getElem?_modify]
  cases s.sessions[session]? with
  | none => rfl
  | some c =>
    dsimp only [Option.map_eq_map, Option.map_some]
    split_ifs <;> rfl

/-! ## Ids -/

/-- The ids are given out in order. -/
structure Numbered (s : TcpServer) : Prop where
  next : s.nextSessionId = UInt64.ofNat (s.sessions.length + 1)
  ids : ∀ session c, s.sessions[session]? = some c → c.id = UInt64.ofNat (session + 1)

/-- The counter comes round after `2 ^ 64` sessions. -/
theorem ofNat_inj_of_lt {m n : ℕ} (hm : m < 2 ^ 64) (hn : n < 2 ^ 64)
    (h : UInt64.ofNat m = UInt64.ofNat n) : m = n := by
  have htoNat := congrArg UInt64.toNat h
  rwa [UInt64.toNat_ofNat', UInt64.toNat_ofNat', Nat.mod_eq_of_lt hm, Nat.mod_eq_of_lt hn] at htoNat

theorem lt_of_isOpen {session : ℕ} (h : s.isOpen session = true) :
    session < s.sessions.length := by
  by_contra hle
  rw [isOpen_of_length_le (Nat.le_of_not_lt hle)] at h
  exact absurd h (by simp)

theorem isOpen_enroll (session : ℕ) :
    s.enroll.isOpen session = (s.isOpen session || decide (session = s.sessions.length)) := by
  rw [isOpen, isOpen, enroll]
  dsimp only
  rw [List.getElem?_append]
  by_cases hlt : session < s.sessions.length
  · simp [hlt, hlt.ne]
  · rw [if_neg hlt, List.getElem?_eq_none (Nat.le_of_not_lt hlt)]
    by_cases heq : session = s.sessions.length
    · simp [heq]
    · have hpos : session - s.sessions.length ≠ 0 := by omega
      rw [List.getElem?_singleton, if_neg hpos]
      simp [heq]

/-- Sessions may change, if they keep their ids. -/
theorem Numbered.of_ids (h : s.Numbered) {s' : TcpServer}
    (hnext : s'.nextSessionId = s.nextSessionId)
    (hids : s'.sessions.map ClientSession.id = s.sessions.map ClientSession.id) : s'.Numbered := by
  have hlength : s'.sessions.length = s.sessions.length := by
    have hmapped := congrArg List.length hids
    rwa [List.length_map, List.length_map] at hmapped
  refine ⟨by rw [hnext, hlength, h.next], fun session c' hc' ↦ ?_⟩
  have hid : (s.sessions.map ClientSession.id)[session]? = some c'.id := by
    rw [← hids, List.getElem?_map, hc']
    rfl
  rw [List.getElem?_map] at hid
  obtain ⟨c, hc, hidc⟩ := Option.map_eq_some_iff.mp hid
  rw [← hidc]
  exact h.ids session c hc

theorem Numbered.enroll (h : s.Numbered) : s.enroll.Numbered := by
  refine ⟨?_, fun session c hc ↦ ?_⟩
  · rw [TcpServer.enroll]
    dsimp only
    rw [h.next, List.length_append, List.length_singleton, UInt64.ofNat_add (_ + 1)]
    rfl
  · rw [TcpServer.enroll] at hc
    dsimp only at hc
    rw [List.getElem?_append] at hc
    split_ifs at hc with hlt
    · exact h.ids session c hc
    · rw [List.getElem?_singleton] at hc
      split_ifs at hc with hzero
      obtain rfl := Option.some_inj.mp hc
      have heq : session = s.sessions.length := by omega
      rw [heq]
      exact h.next

theorem map_id_set {session : ℕ} {c : ClientSession} (hc : s.sessions[session]? = some c)
    (c' : ClientSession) (hid : c'.id = c.id) :
    (s.sessions.set session c').map ClientSession.id = s.sessions.map ClientSession.id := by
  obtain ⟨hlt, rfl⟩ := List.getElem?_eq_some_iff.mp hc
  rw [List.map_set, hid, ← List.getElem_map ClientSession.id (h := by simpa using hlt),
    List.set_getElem_self]

/-- Completing a write changes only what is on the wire. -/
theorem map_transmit {β : Type*} {f : ClientSession → β}
    (hf : ∀ c wire, f { c with wire := wire } = f c) (completion : Completion)
    (sessions : List ClientSession) :
    (transmit completion sessions).map f = sessions.map f := by
  rcases completion with _ | _ | _ | ⟨session, data, length, _ | _⟩ <;> try rfl
  refine List.ext_getElem? fun session' ↦ ?_
  rw [transmit, List.getElem?_map, List.getElem?_map, List.getElem?_modify]
  cases sessions[session']? with
  | none => rfl
  | some c =>
    dsimp only [Option.map_eq_map, Option.map_some]
    split_ifs
    · rw [hf]
    · rfl

theorem map_id_transmit (completion : Completion) (sessions : List ClientSession) :
    (transmit completion sessions).map ClientSession.id = sessions.map ClientSession.id :=
  map_transmit (fun _ _ ↦ rfl) completion sessions

theorem kept_numbered : Kept Numbered :=
  .of_operations (fun _ _ _ h hc ↦ h.of_ids rfl (map_id_set hc _ rfl)) fun _ _ h ↦ ⟨h.1, h.2⟩

/-! ## The registry -/

/-- The ids are given out in order, and the registry holds the open sessions. -/
structure Bookkept (s : TcpServer) : Prop extends Numbered s where
  lookup : s.sessions.length < 2 ^ 64 → ∀ id session, s.registry.lookup id = some session ↔
    id = UInt64.ofNat (session + 1) ∧ s.isOpen session = true

theorem Bookkept.withOperations (h : s.Bookkept) (o : Operations Op Completion) :
    Bookkept { s with operations := o } :=
  ⟨⟨h.next, h.ids⟩, h.lookup⟩

theorem Bookkept.enroll (h : s.Bookkept) : s.enroll.Bookkept := by
  refine ⟨h.toNumbered.enroll, fun hlt id session ↦ ?_⟩
  have hlength : s.sessions.length + 1 < 2 ^ 64 := by simpa [TcpServer.enroll] using hlt
  have hold := h.lookup (by omega) id session
  rw [isOpen_enroll, show s.enroll.registry = s.registry.insert s.nextSessionId s.sessions.length
    from rfl]
  by_cases hid : id = s.nextSessionId
  · rw [hid, AList.lookup_insert, h.next]
    constructor
    · rintro heq
      obtain rfl := Option.some_inj.mp heq
      simp
    · rintro ⟨heq, hopen⟩
      -- no other session has the new id
      have hle : session < s.sessions.length + 1 := by
        rcases Bool.or_eq_true _ _ ▸ hopen with hopen | hnew
        · exact Nat.lt_succ_of_lt (lt_of_isOpen hopen)
        · exact Nat.lt_succ_of_le (of_decide_eq_true hnew).le
      have hinj := ofNat_inj_of_lt hlength (by omega) heq
      exact congrArg some (by omega)
  · rw [AList.lookup_insert_ne hid, hold]
    constructor
    · rintro ⟨heq, hopen⟩
      exact ⟨heq, by simp [hopen]⟩
    · rintro ⟨heq, hopen⟩
      refine ⟨heq, (Bool.or_eq_true _ _ ▸ hopen).resolve_right fun hnew ↦ hid ?_⟩
      rw [heq, of_decide_eq_true hnew, h.next]

theorem Bookkept.shut (h : s.Bookkept) {session : ℕ} {c : ClientSession}
    (hc : s.sessions[session]? = some c) : (s.shut session c).Bookkept := by
  refine ⟨h.toNumbered.of_ids rfl (map_id_set hc _ rfl), fun hlt id session' ↦ ?_⟩
  have hlength : s.sessions.length < 2 ^ 64 := by simpa [TcpServer.shut] using hlt
  have hsession : session < s.sessions.length := (List.getElem?_eq_some_iff.mp hc).1
  rw [isOpen_shut, show (s.shut session c).registry = s.registry.erase c.id from rfl]
  by_cases hid : id = c.id
  · rw [hid, AList.lookup_erase, h.ids session c hc]
    apply iff_of_false (by simp)
    rintro ⟨heq, hopen⟩
    obtain ⟨hopen, hne⟩ := Bool.and_eq_true _ _ ▸ hopen
    have hlt' := lt_of_isOpen hopen
    have hinj := ofNat_inj_of_lt (by omega) (by omega) heq
    exact of_decide_eq_true hne (by omega)
  · rw [AList.lookup_erase_ne hid, h.lookup hlength]
    constructor
    · rintro ⟨heq, hopen⟩
      have hne : session' ≠ session := by
        rintro rfl
        exact hid (heq.trans (h.ids session' c hc).symm)
      exact ⟨heq, by simp [hopen, hne]⟩
    · rintro ⟨heq, hopen⟩
      exact ⟨heq, (Bool.and_eq_true _ _ ▸ hopen).1⟩

theorem kept_bookkept : Kept Bookkept :=
  .of_operations (fun _ _ _ h hc ↦ h.shut hc) fun _ o h ↦ h.withOperations o

/-- An empty registry stays empty while sessions are closed. -/
theorem kept_empty (n : ℕ) : Kept (fun s ↦ s.registry = ∅ ∧ s.sessions.length = n) := by
  apply Kept.of_operations
  · intro s session c h _
    refine ⟨?_, by simpa [shut] using h.2⟩
    rw [shut, h.1]
    rfl
  · intro s o h
    exact h

theorem mem_registered {session : ℕ} :
    session ∈ s.registered ↔ ∃ id, s.registry.lookup id = some session := by
  simp [registered, ← AList.mem_lookup_iff]

/-- `ClearAll` closes what was registered, and that was all. -/
theorem Bookkept.stopHandler (h : s.Bookkept) {order : List ℕ} (horder : order.Perm s.registered) :
    (stopHandler cb order s).Satisfies Bookkept (fun _ ↦ True) := by
  have hcleared : (TcpServer.stopHandler cb order s).Satisfies
      (fun s' ↦ s'.Numbered ∧ s'.registry = ∅ ∧ s'.sessions.length = s.sessions.length)
      (fun _ ↦ True) :=
    stopHandler_satisfies (kept_numbered.and (kept_empty _)) (fun _ _ ↦ trivial) order
      ⟨⟨h.next, h.ids⟩, rfl, rfl⟩
  obtain ⟨⟨hnumbered, hempty, hlength⟩, -⟩ := hcleared
  refine ⟨⟨hnumbered, fun hlt id session ↦ ?_⟩, fun _ _ ↦ trivial⟩
  rw [hempty, AList.lookup_empty]
  apply iff_of_false (by simp)
  rintro ⟨-, hopen⟩
  rw [TcpServer.stopHandler, clearAll, isOpen_closeEach] at hopen
  obtain ⟨hopen, hnot⟩ := Bool.and_eq_true _ _ ▸ hopen
  have hlookup := (h.lookup (hlength ▸ hlt) _ session).mpr ⟨rfl, hopen⟩
  exact of_decide_eq_true hnot (horder.mem_iff.mpr (mem_registered.mpr ⟨_, hlookup⟩))

/-- Every step keeps the books. -/
theorem Bookkept.step {a : Action} {s' : TcpServer} {es : List Event} (h : s.Bookkept)
    (hstep : step cb s a = some (s', es)) : s'.Bookkept := by
  have hQ : ∀ e : Event, e.Incidental → True := fun _ _ ↦ trivial
  refine (step_keeps (Q := fun _ ↦ True) kept_bookkept hQ ?_ ?_ ?_ ?_ h hstep).1
  · intro s session data h
    refine Outcome.satisfies_emit ?_ trivial
    split_ifs
    · exact h.withOperations _
    · exact writeSome_cases (fun _ ↦ h.withOperations _) (h.withOperations _)
  · intro s h
    exact h.withOperations _
  · intro s i op completion h _ _
    refine ⟨h.toNumbered.of_ids rfl (map_id_transmit completion s.sessions),
      fun hlt id session ↦ ?_⟩
    rw [isOpen_transmit]
    refine h.lookup ?_ id session
    have hlength := congrArg List.length (map_id_transmit completion s.sessions)
    rw [List.length_map, List.length_map] at hlength
    exact hlength ▸ hlt
  · intro s i completion answers h _ horder
    have ht := h.withOperations (s.operations.take i)
    by_cases hstop : completion = .stop
    · subst hstop
      exact ht.stopHandler (horder rfl)
    · apply handle_satisfies kept_bookkept hQ completion answers ht
      · intro _
        exact welcome_satisfies kept_bookkept answers ht ht.enroll trivial
      · intro heq
        exact absurd heq hstop
      · intro session data length _ _
        exact writeSome_cases (fun _ ↦ ht.withOperations _) (ht.withOperations _)

theorem bookkept_of_run {as : List Action} {es : List Event}
    (hrun : (system cb).run init as = some (s, es)) : s.Bookkept := by
  have hinit : Bookkept init := by
    refine ⟨⟨rfl, fun session c hc ↦ absurd hc (by simp [init])⟩, fun _ id session ↦ ?_⟩
    simp [init, isOpen]
  exact System.run_invariant (I := fun s _ ↦ Bookkept s) (h := []) (fun hs hst ↦ hs.step hst) hinit
    hrun

/-- **The registry and the open sessions.** In every run with fewer than `2 ^ 64` sessions, a
session is registered if and only if it is open. -/
theorem registered_iff_isOpen (cb : Callbacks) :
    ∀ as s es, (system cb).run init as = some (s, es) → s.sessions.length < 2 ^ 64 →
      ∀ session, session ∈ s.registered ↔ s.isOpen session = true := by
  intro as s es hrun hlt session
  have hbookkept := bookkept_of_run hrun
  rw [mem_registered]
  constructor
  · rintro ⟨id, hlookup⟩
    exact ((hbookkept.lookup hlt id session).mp hlookup).2
  · intro hopen
    exact ⟨_, (hbookkept.lookup hlt _ session).mpr ⟨rfl, hopen⟩⟩

end TcpServer

end Server

end PushService
