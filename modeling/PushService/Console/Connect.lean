import Mathlib.Data.List.TakeWhile
import PushService.Bytes
import PushService.Console.EventHandler
import PushService.Text.Numerals

/-!
# Connecting from the console

`handleConnect` reads a host and a port. It checks the number that `std::stoi` makes of the line for
the port, and hands the line itself to `configure`. `std::stoi` reads a beginning of the line: white
space, a sign, and digits as far as they go. So a line is handed on whose beginning denotes a port,
whatever the rest of it says (`passesOn_iff`). For the lines that are digits from end to end, the
number that was checked is the one that they denote. The other ones that pass are the `Misread`
ones.
-/

namespace PushService

namespace Console

open Numerals

/-! ## `std::stoi` -/

/-- `std::isspace` in the C locale. -/
def isSpace (b : UInt8) : Bool :=
  b == 32 || (9 ≤ b && b ≤ 13)

/-- The range of an `int`. -/
def intMin : ℤ := -2147483648

def intMax : ℤ := 2147483647

/-- Whether there is a minus sign, and what follows the optional sign. -/
def readSign : Bytes → Bool × Bytes
  | 45 :: s => (true, s)
  | 43 :: s => (false, s)
  | s => (false, s)

/-- `std::stoi`. There is no result where it throws. -/
def stoi (str : Bytes) : Option ℤ :=
  let (negative, s) := readSign (str.dropWhile isSpace)
  let digits := s.takeWhile isDigitByte
  if digits = [] then none  -- std::invalid_argument
  else
    let value : ℤ := if negative then -(number digits : ℤ) else number digits
    if intMin ≤ value ∧ value ≤ intMax then some value else none  -- std::out_of_range

/-! ## `handleConnect` -/

/-- What `handleConnect` does. -/
inductive ConnectAction
  | print (text : Bytes)
  | printMsg (type : ConsoleMsgType) (msg : Bytes)
  | configure (host port : Bytes)
  | connect
  | loading (text : Bytes)
  deriving DecidableEq, Repr

/-- `connectionInfo`, after `configure` with this host and this port. -/
def connectionInfo (host port : Bytes) : Bytes :=
  host ++ asciiText ":" ++ port

/-- `handleConnect` when these two lines are typed. -/
def handleConnect (isConnected : Bool) (host portStr : Bytes) : List ConnectAction :=
  if isConnected then [.printMsg .error (asciiText "Already connected")]
  else
    .print (asciiText "Server IP: ") ::
      if host = [] then [.printMsg .error (asciiText "Invalid IP address")]
      else
        .print (asciiText "Port: ") ::
          match stoi portStr with
          | none => [.printMsg .error (asciiText "Port must be a number")]
          | some port =>
            if port ≤ 0 ∨ 65535 < port then
              [.printMsg .error (asciiText "Port must be in range 1 - 65535")]
            else
              [.configure host portStr, .connect,
                .loading
                  (asciiText "Connecting to " ++ connectionInfo host portStr ++ asciiText " ")]

/-- `host_` and `port_` of `ClientApp`. -/
structure ConnectionParams where
  host : Bytes
  port : Bytes
  deriving DecidableEq, Repr

/-- `configureTcpClient`: the arguments of `setEndpoint`, which resolves them, or an error. -/
def ConnectionParams.configureTcpClient (params : ConnectionParams) :
    Except Bytes (Bytes × Bytes) :=
  if params.host = [] ∨ params.port = [] then .error (asciiText "Connection params doesn't set")
  else .ok (params.host, params.port)

/-- What is resolved when `ClientApp` is told to do these things while it is not connected. -/
def ConnectionParams.resolved : ConnectionParams → List ConnectAction → List (Bytes × Bytes)
  | _, [] => []
  | _, .configure host port :: actions => resolved ⟨host, port⟩ actions
  | params, .connect :: actions =>
    params.configureTcpClient.toOption.toList ++ params.resolved actions
  | params, .print _ :: actions => params.resolved actions
  | params, .printMsg _ _ :: actions => params.resolved actions
  | params, .loading _ :: actions => params.resolved actions

/-- The line is handed on. -/
def PassesOn (host portStr : Bytes) : Prop :=
  .configure host portStr ∈ handleConnect false host portStr

/-! ## Ports -/

/-- The line is a decimal numeral of a port; it may have leading zeros. -/
structure IsPort (line : Bytes) : Prop where
  ne_nil : line ≠ []
  digits : ∀ b ∈ line, isDigitByte b
  pos : 1 ≤ number line
  le : number line ≤ 65535

/-- The line is a numeral of a port between something that `std::stoi` skips and something that it
does not read. -/
structure Around (line before numeral after : Bytes) : Prop where
  eq : line = before ++ (numeral ++ after)
  before_eq : ∃ ws, (∀ b ∈ ws, isSpace b) ∧ (before = ws ∨ before = ws ++ [43])
  isPort : IsPort numeral
  after_head : ∀ b ∈ after.head?, isDigitByte b = false

/-- The lines that are handed on are the numerals of ports, and what is resolved denotes the number
that was checked. -/
def PortChecked (params : ConnectionParams) (host line : Bytes) : Prop :=
  (PassesOn host line ↔ IsPort line) ∧
    ∀ endpoint ∈ params.resolved (handleConnect false host line),
      IsPort endpoint.2 ∧ stoi line = some (number endpoint.2 : ℤ)

/-- There is a numeral of a port in the line, and something else before or behind it. -/
def Misread (line : Bytes) : Prop :=
  ∃ before numeral after, Around line before numeral after ∧ (before ≠ [] ∨ after ≠ [])

/-! ## What is read -/

theorem not_isSpace_of_isDigitByte {b : UInt8} (h : isDigitByte b) : isSpace b = false := by
  have hrange := isDigitByte_iff.mp h
  rw [Bool.eq_false_iff]
  intro hspace
  simp only [isSpace, Bool.or_eq_true, Bool.and_eq_true, beq_iff_eq, decide_eq_true_eq,
    UInt8.le_iff_toNat_le, ← UInt8.toNat_inj] at hspace
  have : (32 : UInt8).toNat = 32 := rfl
  have : (13 : UInt8).toNat = 13 := rfl
  omega

theorem not_isDigitByte_of_isSpace {b : UInt8} (h : isSpace b) : isDigitByte b = false := by
  rw [Bool.eq_false_iff]
  intro hdigit
  exact absurd h (by simp [not_isSpace_of_isDigitByte hdigit])

/-- A prefix up to the first element that does not fit. -/
theorem takeWhile_append_of_head {α : Type*} {p : α → Bool} {l r : List α} (hl : ∀ a ∈ l, p a)
    (hr : ∀ a ∈ r.head?, p a = false) : (l ++ r).takeWhile p = l ∧ (l ++ r).dropWhile p = r := by
  have hstop : r.takeWhile p = [] ∧ r.dropWhile p = r := by
    cases r with
    | nil => exact ⟨rfl, rfl⟩
    | cons a r => simp [hr a rfl]
  rw [List.takeWhile_append_of_pos hl, List.dropWhile_append_of_pos hl, hstop.1, hstop.2]
  exact ⟨List.append_nil l, rfl⟩

theorem head?_dropWhile {α : Type*} (p : α → Bool) (l : List α) :
    ∀ a ∈ (l.dropWhile p).head?, p a = false := by
  intro a ha
  have hnot := List.head?_dropWhile_not p l
  rw [Option.mem_def.mp ha] at hnot
  exact hnot

theorem IsPort.exists_cons {line : Bytes} (h : IsPort line) :
    ∃ b rest, line = b :: rest ∧ isDigitByte b := by
  cases line with
  | nil => exact absurd rfl h.ne_nil
  | cons b rest => exact ⟨b, rest, rfl, h.digits b List.mem_cons_self⟩

theorem readSign_of_digit {b : UInt8} (h : isDigitByte b) (s : Bytes) :
    readSign (b :: s) = (false, b :: s) := by
  unfold readSign
  split
  · rename_i heq
    obtain rfl := (List.cons.inj heq).1
    exact absurd h (by decide)
  · rename_i heq
    obtain rfl := (List.cons.inj heq).1
    exact absurd h (by decide)
  · rfl

/-- The two ways in which there is no minus sign. -/
theorem readSign_eq_false {t s : Bytes} (h : readSign t = (false, s)) : t = s ∨ t = 43 :: s := by
  unfold readSign at h
  split at h
  · exact absurd (Prod.mk.inj h).1 (by simp)
  · rw [(Prod.mk.inj h).2]
    exact .inr rfl
  · exact .inl (Prod.mk.inj h).2

/-- White space and a plus sign are skipped. -/
theorem Around.readSign_eq {line before numeral after : Bytes}
    (h : Around line before numeral after) :
    readSign (line.dropWhile isSpace) = (false, numeral ++ after) := by
  obtain ⟨rfl, ⟨ws, hws, hbefore⟩, hport, -⟩ := h
  obtain ⟨b, rest, rfl, hb⟩ := hport.exists_cons
  rcases hbefore with rfl | rfl
  · have hhead : ∀ a ∈ (b :: rest ++ after).head?, isSpace a = false := by
      intro a ha
      obtain rfl := Option.some_inj.mp ha
      exact not_isSpace_of_isDigitByte hb
    rw [(takeWhile_append_of_head hws hhead).2, List.cons_append, readSign_of_digit hb]
  · have hhead : ∀ a ∈ ([43] ++ (b :: rest ++ after)).head?, isSpace a = false := by
      intro a ha
      obtain rfl := Option.some_inj.mp ha
      rfl
    rw [List.append_assoc, (takeWhile_append_of_head hws hhead).2]
    rfl

theorem stoi_of_around {line before numeral after : Bytes} (h : Around line before numeral after) :
    stoi line = some (number numeral : ℤ) := by
  have hdigits := (takeWhile_append_of_head h.isPort.digits h.after_head).1
  have hrange : intMin ≤ (number numeral : ℤ) ∧ (number numeral : ℤ) ≤ intMax := by
    have := h.isPort.le
    rw [intMin, intMax]
    omega
  simp only [stoi, h.readSign_eq, hdigits, if_neg h.isPort.ne_nil, Bool.false_eq_true, if_false]
  exact if_pos hrange

theorem around_of_stoi {line : Bytes} {port : ℤ} (h : stoi line = some port) (hpos : 0 < port)
    (hle : port ≤ 65535) : ∃ before numeral after, Around line before numeral after := by
  cases hsign : readSign (line.dropWhile isSpace) with
  | mk negative s =>
    simp only [stoi, hsign] at h
    split_ifs at h with hnil hnegative hrange hrange
    · -- the number is not positive
      have := Option.some_inj.mp h
      omega
    · have hport : (number (s.takeWhile isDigitByte) : ℤ) = port := Option.some_inj.mp h
      have hnumeral : IsPort (s.takeWhile isDigitByte) :=
        ⟨hnil, fun b hb ↦ List.mem_takeWhile_imp hb, by omega, by omega⟩
      rw [Bool.not_eq_true] at hnegative
      subst hnegative
      have hws : ∀ b ∈ line.takeWhile isSpace, isSpace b := fun b hb ↦ List.mem_takeWhile_imp hb
      have hline : line = line.takeWhile isSpace ++ line.dropWhile isSpace :=
        List.takeWhile_append_dropWhile.symm
      rcases readSign_eq_false hsign with heq | heq
      · refine ⟨line.takeWhile isSpace, s.takeWhile isDigitByte, s.dropWhile isDigitByte, ?_,
          ⟨_, hws, .inl rfl⟩, hnumeral, head?_dropWhile isDigitByte s⟩
        rw [List.takeWhile_append_dropWhile, ← heq]
        exact hline
      · refine ⟨line.takeWhile isSpace ++ [43], s.takeWhile isDigitByte, s.dropWhile isDigitByte,
          ?_, ⟨_, hws, .inr rfl⟩, hnumeral, head?_dropWhile isDigitByte s⟩
        rw [List.takeWhile_append_dropWhile, List.append_assoc, List.singleton_append, ← heq]
        exact hline

/-! ## Which lines are handed on -/

theorem passesOn_iff_stoi {host line : Bytes} (hhost : host ≠ []) :
    PassesOn host line ↔ ∃ port, stoi line = some port ∧ 0 < port ∧ port ≤ 65535 := by
  unfold PassesOn handleConnect
  cases stoi line with
  | none => simp [hhost]
  | some port =>
    by_cases hrange : port ≤ 0 ∨ 65535 < port
    · simp [hhost, hrange]
      omega
    · simp [hhost, hrange]
      omega

/-- The lines that are handed on are those that begin with a numeral of a port, up to what
`std::stoi` skips. -/
theorem passesOn_iff {host line : Bytes} (hhost : host ≠ []) :
    PassesOn host line ↔ ∃ before numeral after, Around line before numeral after := by
  rw [passesOn_iff_stoi hhost]
  constructor
  · rintro ⟨port, hstoi, hpos, hle⟩
    exact around_of_stoi hstoi hpos hle
  · rintro ⟨before, numeral, after, h⟩
    have := h.isPort.pos
    have := h.isPort.le
    exact ⟨number numeral, stoi_of_around h, by omega, by omega⟩

theorem IsPort.around {line : Bytes} (h : IsPort line) : Around line [] line [] :=
  ⟨by simp, ⟨[], by simp, .inl rfl⟩, h, by simp⟩

/-- What is around a numeral does not belong to a numeral. -/
theorem Around.eq_nil {line before numeral after : Bytes} (h : Around line before numeral after)
    (hline : IsPort line) : before = [] ∧ after = [] := by
  obtain ⟨rfl, ⟨ws, hws, hbefore⟩, -, hhead⟩ := h
  have hdigits := hline.digits
  have hwsnil : ws = [] := by
    rw [List.eq_nil_iff_forall_not_mem]
    intro b hb
    have hmem : b ∈ before := by
      rcases hbefore with rfl | rfl
      · exact hb
      · exact List.mem_append_left _ hb
    have := hdigits b (List.mem_append_left _ hmem)
    rw [not_isDigitByte_of_isSpace (hws b hb)] at this
    cases this
  subst hwsnil
  constructor
  · rcases hbefore with rfl | rfl
    · rfl
    · exact absurd (hdigits 43 (by simp)) (by decide)
  · cases after with
    | nil => rfl
    | cons b rest =>
      have := hdigits b (by simp)
      rw [hhead b rfl] at this
      cases this

theorem eq_of_mem_configureTcpClient {params : ConnectionParams} {endpoint : Bytes × Bytes}
    (h : endpoint ∈ params.configureTcpClient.toOption.toList) :
    endpoint = (params.host, params.port) := by
  unfold ConnectionParams.configureTcpClient at h
  split at h
  · cases h
  · exact List.mem_singleton.mp h

/-- Nothing is resolved but what is handed on. -/
theorem mem_resolved {params : ConnectionParams} {host line : Bytes} {endpoint : Bytes × Bytes}
    (h : endpoint ∈ params.resolved (handleConnect false host line)) :
    endpoint = (host, line) ∧ PassesOn host line := by
  unfold PassesOn
  unfold handleConnect at h ⊢
  by_cases hhost : host = []
  · simp [hhost, ConnectionParams.resolved] at h
  cases hstoi : stoi line with
  | none => simp [hhost, hstoi, ConnectionParams.resolved] at h
  | some port =>
    by_cases hrange : port ≤ 0 ∨ 65535 < port
    · simp [hhost, hstoi, hrange, ConnectionParams.resolved] at h
    · simp only [hhost, hstoi, hrange, Bool.false_eq_true, if_false, ConnectionParams.resolved,
        List.append_nil]
        at h
      exact ⟨eq_of_mem_configureTcpClient h, by simp [hhost, hrange]⟩

theorem not_misread_iff {line : Bytes} :
    ¬Misread line ↔ ((∃ before numeral after, Around line before numeral after) → IsPort line) := by
  constructor
  · rintro h ⟨before, numeral, after, haround⟩
    have hbefore : before = [] := by
      by_contra hne
      exact h ⟨before, numeral, after, haround, .inl hne⟩
    have hafter : after = [] := by
      by_contra hne
      exact h ⟨before, numeral, after, haround, .inr hne⟩
    have hline : line = numeral := by
      rw [haround.eq, hbefore, hafter, List.nil_append, List.append_nil]
    rw [hline]
    exact haround.isPort
  · rintro h ⟨before, numeral, after, haround, hne⟩
    have hnil := haround.eq_nil (h ⟨before, numeral, after, haround⟩)
    rcases hne with hbefore | hafter
    · exact hbefore hnil.1
    · exact hafter hnil.2

/-- **The port that is resolved is the one that was checked, but for the lines that are
misread.** -/
theorem portChecked_iff (params : ConnectionParams) {host line : Bytes} (hhost : host ≠ []) :
    PortChecked params host line ↔ ¬Misread line := by
  rw [not_misread_iff, ← passesOn_iff hhost]
  constructor
  · rintro ⟨h, -⟩
    exact h.mp
  · intro h
    refine ⟨⟨h, fun hport ↦ (passesOn_iff hhost).mpr ⟨[], line, [], hport.around⟩⟩, ?_⟩
    intro endpoint hendpoint
    obtain ⟨rfl, hpasses⟩ := mem_resolved hendpoint
    have hport := h hpasses
    exact ⟨hport, stoi_of_around hport.around⟩

theorem isPort_leadingZeros : IsPort (asciiText "0080") :=
  ⟨by decide, List.all_eq_true.mp (by decide), by decide, by decide⟩

/-- Leading zeros do no harm. -/
theorem portChecked_iff_leadingZeros :
    PortChecked ⟨[], []⟩ (asciiText "127.0.0.1") (asciiText "0080") ∧
    ¬Misread (asciiText "0080") := by
  have hmisread : ¬Misread (asciiText "0080") := not_misread_iff.mpr fun _ ↦ isPort_leadingZeros
  exact ⟨(portChecked_iff ⟨[], []⟩ (by decide)).mpr hmisread, hmisread⟩

/-- Letters behind the port are handed on with it. -/
theorem not_portChecked_letters :
    ¬PortChecked ⟨[], []⟩ (asciiText "127.0.0.1") (asciiText "80abc") ∧
    PassesOn (asciiText "127.0.0.1") (asciiText "80abc") ∧
    ConnectionParams.resolved ⟨[], []⟩
      (handleConnect false (asciiText "127.0.0.1") (asciiText "80abc")) =
      [(asciiText "127.0.0.1", asciiText "80abc")] := by
  have hpasses : PassesOn (asciiText "127.0.0.1") (asciiText "80abc") := by
    unfold PassesOn
    decide
  refine ⟨fun h ↦ ?_, hpasses, by decide⟩
  have hdigits := (h.1.mp hpasses).digits 97 (by decide)
  exact absurd hdigits (by decide)

example : stoi (asciiText " +80 ") = some 80 ∧ stoi (asciiText "99999999999") = none ∧
    stoi (asciiText "port") = none := by
  decide

end Console

end PushService
