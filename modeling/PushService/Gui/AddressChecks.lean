import PushService.Bytes
import PushService.Text.Numerals
import PushService.Text.Patterns

/-!
# The addresses in the main window

The two line edits have validators with the patterns `re_ip_address` and `re_ip_port`, and
`connectToServer` tests the address with the first of them and the port for being empty. That is
enough because of what the second one accepts. It accepts the numerals of ports
(`mem_reIpPort_iff`), and the beginnings of a numeral are numerals again, so of the texts that the
validator lets pass only the empty one is not a port (`isPort_of_validate`). Beginnings of addresses
need not be addresses.

The patterns are compared with the numerals one length at a time. A text of a given length is in the
language if its characters are in some ranges, and it is the numeral of a small number if its
characters are digits, the first one not a zero, and the number that they stand for is small. That
leaves linear arithmetic about the codes of the characters.
-/

namespace PushService

namespace Gui

open Numerals Patterns RegularExpression

/-! ## The patterns -/

/-- `\d`. -/
def digit : RegularExpression Char :=
  oneOf (range '0' '9')

/-- `([1-9]?\d|1\d\d|25[0-5]|2[0-4]\d)`. -/
def octet : RegularExpression Char :=
  optional (oneOf (range '1' '9')) * digit + literal ['1'] * digit * digit +
    literal ['2', '5'] * oneOf (range '0' '5') + literal ['2'] * oneOf (range '0' '4') * digit

/-- `re_ip_address`, between its anchors: `(([1-9]?\d|1\d\d|25[0-5]|2[0-4]\d)\.){3}` and an
octet. -/
def reIpAddress : RegularExpression Char :=
  (octet * literal ['.']) ^ 3 * octet

/-- `re_ip_port`, between its anchors:
`(6553[0-5]|655[0-2]\d|65[0-4]\d{2}|6[0-4]\d{3}|[1-5]\d{4}|[1-9]\d{0,3}|0)`. -/
def reIpPort : RegularExpression Char :=
  literal ['6', '5', '5', '3'] * oneOf (range '0' '5') +
    literal ['6', '5', '5'] * oneOf (range '0' '2') * digit +
    literal ['6', '5'] * oneOf (range '0' '4') * digit ^ 2 +
    literal ['6'] * oneOf (range '0' '4') * digit ^ 3 +
    oneOf (range '1' '5') * digit ^ 4 +
    oneOf (range '1' '9') * upTo digit 3 +
    literal ['0']

/-- `QRegularExpression::match(subject).hasMatch()` for a pattern between `^` and `$`. The `$` also
stands before a line break at the end. -/
def hasMatch (re : RegularExpression Char) (subject : List Char) : Bool :=
  re.rmatch subject || (subject.getLast? == some '\n' && re.rmatch subject.dropLast)

def isValidIPv4 (ip : List Char) : Bool :=
  hasMatch reIpAddress ip

/-- `QValidator::State`. -/
inductive ValidatorState
  | invalid
  | intermediate
  | acceptable
  deriving DecidableEq, Repr

/-- `QRegularExpressionValidator::validate`. -/
def validate (re : RegularExpression Char) (input : List Char) : ValidatorState :=
  if re.rmatch input then .acceptable
  else if input = [] ∨ admits re input then .intermediate
  else .invalid

/-! ## `connectToServer` -/

/-- `QString::toStdString`. -/
def toStdString (s : List Char) : Bytes :=
  utf8 s

/-- What `connectToServer` does. -/
inductive ConnectAction
  | warning (title text : String)
  | configure (host port : Bytes)
  | runClientAppLoop
  | connect
  deriving DecidableEq, Repr

/-- `connectToServer` with these texts in the two line edits. -/
def connectToServer (serverAddress serverPort : List Char) : List ConnectAction :=
  if !isValidIPv4 serverAddress then
    [.warning "Ошибка заполнения" "Неверный Ip-адрес сервера!"]
  else if serverPort.isEmpty then
    [.warning "Ошибка заполнения" "Введите номер порта!"]
  else
    [.configure (toStdString serverAddress) (toStdString serverPort), .runClientAppLoop, .connect]

/-! ## Addresses -/

/-- Four numerals from 0 to 255, joined by dots. -/
def IsIPv4 (s : List Char) : Prop :=
  ∃ octets : List ℕ, octets.length = 4 ∧ (∀ n ∈ octets, n ≤ 255) ∧
    s = ['.'].intercalate (octets.map (Nat.toDigits 10))

/-- The numeral of a number from 0 to 65535. -/
def IsPort (s : List Char) : Prop :=
  ∃ n ≤ 65535, s = Nat.toDigits 10 n

/-! ## The languages of the patterns -/

/-! ### Length by length -/

/-- The octets are the numerals from 0 to 255. -/
theorem mem_octet_iff_isNumeral {s : List Char} :
    s ∈ octet.matches' ↔ IsNumeral s ∧ Nat.ofDigitChars 10 s 0 ≤ 255 := by
  match s with
  | [] =>
    refine iff_of_false ?_ fun h ↦ h.1.ne_nil rfl
    simp [octet, digit, add_mul, mul_assoc, Language.mem_add]
  | [_] | [_, _] | [_, _, _] =>
    simp [octet, digit, add_mul, mul_assoc, Language.mem_add, isNumeral_cons, isDigit_iff,
      ← Char.toNat_inj, Nat.ofDigitChars_cons]
    omega
  | a :: b :: c :: d :: s =>
    have hlarge (h : IsNumeral (a :: b :: c :: d :: s)) :
        10 ^ 3 ≤ Nat.ofDigitChars 10 (a :: b :: c :: d :: s) 0 := h.pow_le (by decide) (by simp)
    -- no alternative is as long
    refine iff_of_false ?_ fun h ↦ absurd (hlarge h.1) (by omega)
    simp [octet, digit, add_mul, mul_assoc, Language.mem_add]

/-- The ports are the numerals from 0 to 65535. -/
theorem mem_reIpPort_iff_isNumeral {s : List Char} :
    s ∈ reIpPort.matches' ↔ IsNumeral s ∧ Nat.ofDigitChars 10 s 0 ≤ 65535 := by
  match s with
  | [] =>
    refine iff_of_false ?_ fun h ↦ h.1.ne_nil rfl
    simp [reIpPort, digit, pow_succ, mul_assoc, Language.mem_add]
  | [_] | [_, _] | [_, _, _] | [_, _, _, _] | [_, _, _, _, _] =>
    simp [reIpPort, digit, pow_succ, mul_assoc, Language.mem_add, isNumeral_cons, isDigit_iff,
      ← Char.toNat_inj, Nat.ofDigitChars_cons]
    omega
  | a :: b :: c :: d :: e :: f :: s =>
    have hlarge (h : IsNumeral (a :: b :: c :: d :: e :: f :: s)) :
        10 ^ 5 ≤ Nat.ofDigitChars 10 (a :: b :: c :: d :: e :: f :: s) 0 :=
          h.pow_le (by decide) (by simp)
    refine iff_of_false ?_ fun h ↦ absurd (hlarge h.1) (by omega)
    simp [reIpPort, digit, pow_succ, mul_assoc, Language.mem_add]

/-! ### As numerals -/

theorem mem_octet_iff {s : List Char} : s ∈ octet.matches' ↔ ∃ n ≤ 255, s = Nat.toDigits 10 n :=
  mem_octet_iff_isNumeral.trans isNumeral_and_le_iff

theorem mem_reIpPort_iff {s : List Char} : s ∈ reIpPort.matches' ↔ IsPort s :=
  mem_reIpPort_iff_isNumeral.trans isNumeral_and_le_iff

/-- An address, octet by octet. -/
theorem isIPv4_iff {s : List Char} :
    IsIPv4 s ↔ ∃ a ≤ 255, ∃ b ≤ 255, ∃ c ≤ 255, ∃ d ≤ 255, s = Nat.toDigits 10 a ++ '.' ::
      (Nat.toDigits 10 b ++ '.' :: (Nat.toDigits 10 c ++ '.' :: Nat.toDigits 10 d)) := by
  constructor
  · rintro ⟨octets, hlength, hle, rfl⟩
    match octets, hlength with
    | [a, b, c, d], _ =>
      refine ⟨a, hle a (by simp), b, hle b (by simp), c, hle c (by simp), d, hle d (by simp), ?_⟩
      simp [List.intercalate]
  · rintro ⟨a, ha, b, hb, c, hc, d, hd, rfl⟩
    refine ⟨[a, b, c, d], rfl, by simp [ha, hb, hc, hd], ?_⟩
    simp [List.intercalate]

/-- The addresses, by splitting a match at the dots. -/
theorem mem_reIpAddress_iff {s : List Char} : s ∈ reIpAddress.matches' ↔ IsIPv4 s := by
  have hmul {L : Language Char} {t : List Char} : t ∈ (octet * literal ['.']).matches' * L ↔
      ∃ n ≤ 255, ∃ u ∈ L, t = Nat.toDigits 10 n ++ '.' :: u := by
    rw [matches'_mul, mul_assoc, Language.mem_mul]
    constructor
    · rintro ⟨o, ho, r, hr, rfl⟩
      obtain ⟨n, hn, rfl⟩ := mem_octet_iff.mp ho
      obtain ⟨u, hu, rfl⟩ := mem_literal_mul.mp hr
      exact ⟨n, hn, u, hu, rfl⟩
    · rintro ⟨n, hn, u, hu, rfl⟩
      exact ⟨_, mem_octet_iff.mpr ⟨n, hn, rfl⟩, _, mem_literal_mul.mpr ⟨u, hu, rfl⟩, rfl⟩
  rw [reIpAddress, matches'_mul, matches'_pow, pow_succ, pow_two, mul_assoc, mul_assoc, isIPv4_iff]
  simp only [hmul, mem_octet_iff]
  constructor
  · rintro ⟨a, ha, _, ⟨b, hb, _, ⟨c, hc, _, ⟨d, hd, rfl⟩, rfl⟩, rfl⟩, rfl⟩
    exact ⟨a, ha, b, hb, c, hc, d, hd, rfl⟩
  · rintro ⟨a, ha, b, hb, c, hc, d, hd, rfl⟩
    exact ⟨a, ha, _, ⟨b, hb, _, ⟨c, hc, _, ⟨d, hd, rfl⟩, rfl⟩, rfl⟩, rfl⟩

/-! ## Matching -/

/-- Without a line break, the anchors are at the ends. -/
theorem hasMatch_iff {re : RegularExpression Char} {s : List Char} (h : '\n' ∉ s) :
    hasMatch re s ↔ s ∈ re.matches' := by
  have hlast : s.getLast? ≠ some '\n' := fun hlast ↦ h (List.mem_of_getLast? hlast)
  rw [hasMatch, beq_eq_false_iff_ne.mpr hlast, Bool.false_and, Bool.or_false, rmatch_iff_matches']

/-- What is left of a port after a few deletions at the end is a port. -/
theorem isPort_of_isPrefix {s t : List Char} (h : IsPort s) (hpre : t <+: s) (ht : t ≠ []) :
    IsPort t := by
  obtain ⟨n, hn, rfl⟩ := h
  obtain ⟨m, hm, rfl⟩ := exists_eq_toDigits_of_isPrefix hpre ht
  exact ⟨m, hm.trans hn, rfl⟩

/-- What the validator lets pass, apart from nothing, is a port. -/
theorem isPort_of_validate {s : List Char} (h : validate reIpPort s ≠ .invalid) (hs : s ≠ []) :
    IsPort s := by
  unfold validate at h
  split_ifs at h with hmatch hadmits
  · rw [rmatch_iff_matches', mem_reIpPort_iff] at hmatch
    exact hmatch
  · obtain ⟨t, ht⟩ := admits_iff.mp (hadmits.resolve_left hs)
    exact isPort_of_isPrefix (mem_reIpPort_iff.mp ht) (List.prefix_append s t) hs
  · exact absurd rfl h

theorem IsPort.ne_nil {s : List Char} (h : IsPort s) : s ≠ [] := by
  obtain ⟨n, -, rfl⟩ := h
  exact Nat.toDigits_ne_nil

/-! ## What is configured -/

theorem lt_of_mem_toDigits (n : ℕ) : ∀ c ∈ Nat.toDigits 10 n, c.toNat < 128 := by
  intro c hc
  have := isDigit_iff.mp (isDigit_of_mem_toDigits hc)
  omega

theorem IsPort.toStdString_eq {s : List Char} (h : IsPort s) : toStdString s = ascii s := by
  obtain ⟨n, -, rfl⟩ := h
  exact utf8_eq_ascii (lt_of_mem_toDigits n)

theorem IsIPv4.toStdString_eq {s : List Char} (h : IsIPv4 s) : toStdString s = ascii s := by
  obtain ⟨a, -, b, -, c, -, d, -, rfl⟩ := isIPv4_iff.mp h
  have hdot : '.'.toNat < 128 := by decide
  refine utf8_eq_ascii ?_
  simp only [List.forall_mem_append, List.forall_mem_cons]
  exact ⟨lt_of_mem_toDigits a, hdot, lt_of_mem_toDigits b, hdot, lt_of_mem_toDigits c, hdot,
    lt_of_mem_toDigits d⟩

theorem configure_mem_connectToServer {address port : List Char} {host p : Bytes} :
    .configure host p ∈ connectToServer address port ↔
      isValidIPv4 address ∧ port ≠ [] ∧ host = toStdString address ∧ p = toStdString port := by
  unfold connectToServer
  by_cases hvalid : isValidIPv4 address
  · by_cases hport : port = []
    · simp [hvalid, hport]
    · simp [hvalid, hport]
  · simp [hvalid]

/-- **The patterns accept the addresses and the ports, and the two tests are enough.** -/
theorem checks_accept_addresses (address port : List Char) (haddress : '\n' ∉ address)
    (hport : '\n' ∉ port) :
    (hasMatch reIpAddress address ↔ IsIPv4 address) ∧
    (hasMatch reIpPort port ↔ IsPort port) ∧
    (hasMatch reIpPort port → ∀ s, s <+: port → s ≠ [] → hasMatch reIpPort s) ∧
    (validate reIpPort port ≠ .invalid → (port ≠ [] ↔ IsPort port) ∧
      ∀ host p, .configure host p ∈ connectToServer address port ↔
        IsIPv4 address ∧ IsPort port ∧ host = ascii address ∧ p = ascii port) := by
  have hmatchAddress : hasMatch reIpAddress address ↔ IsIPv4 address :=
    (hasMatch_iff haddress).trans mem_reIpAddress_iff
  have hmatchPort {s : List Char} (h : '\n' ∉ s) : hasMatch reIpPort s ↔ IsPort s :=
    (hasMatch_iff h).trans mem_reIpPort_iff
  refine ⟨hmatchAddress, hmatchPort hport, ?_, fun hvalid ↦ ?_⟩
  · intro hmatch s hpre hs
    have hline : '\n' ∉ s := fun hmem ↦ hport (hpre.subset hmem)
    exact (hmatchPort hline).mpr (isPort_of_isPrefix ((hmatchPort hport).mp hmatch) hpre hs)
  · have hne : port ≠ [] ↔ IsPort port := ⟨isPort_of_validate hvalid, IsPort.ne_nil⟩
    refine ⟨hne, fun host p ↦ ?_⟩
    rw [configure_mem_connectToServer, isValidIPv4, hmatchAddress, hne]
    constructor
    · rintro ⟨hip, hnumber, rfl, rfl⟩
      exact ⟨hip, hnumber, hip.toStdString_eq, hnumber.toStdString_eq⟩
    · rintro ⟨hip, hnumber, rfl, rfl⟩
      exact ⟨hip, hnumber, hip.toStdString_eq.symm, hnumber.toStdString_eq.symm⟩

/-- With the defaults of a local server. -/
theorem checks_accept_addresses_local :
    IsIPv4 "127.0.0.1".toList ∧ IsPort "8080".toList ∧
    .configure (asciiText "127.0.0.1") (asciiText "8080") ∈
      connectToServer "127.0.0.1".toList "8080".toList := by
  obtain ⟨-, hport, -, hconfigured⟩ :=
    checks_accept_addresses "127.0.0.1".toList "8080".toList (by decide) (by decide)
  have hip : IsIPv4 "127.0.0.1".toList := ⟨[127, 0, 0, 1], rfl, by decide, by decide⟩
  have hnumber : IsPort "8080".toList := hport.mp (by decide)
  exact ⟨hip, hnumber, ((hconfigured (by decide)).2 _ _).mpr ⟨hip, hnumber, rfl, rfl⟩⟩

end Gui

end PushService
