import Mathlib.Data.List.Basic
import Mathlib.Data.UInt

/-!
# Decimal numerals

A number is written with `Nat.toDigits 10`, and read with `Nat.ofDigitChars 10`. What `Nat.toDigits`
writes are the *numerals*: nonempty strings of digits without a leading zero. Strings of digits in
general may have leading zeros, so they are read by more than one text.

Texts are lists of characters where they are text, and lists of bytes where they are what a program
handles. `ascii` goes from the one to the other.
-/

namespace PushService

namespace Numerals

/-- The bytes of a text in ASCII. -/
def ascii (s : List Char) : List UInt8 :=
  s.map fun c ↦ c.toNat.toUInt8

/-- The text of a string literal, in bytes. -/
def asciiText (s : String) : List UInt8 :=
  ascii s.toList

@[simp] theorem ascii_nil : ascii [] = [] := rfl

@[simp] theorem ascii_cons (c : Char) (s : List Char) :
    ascii (c :: s) = c.toNat.toUInt8 :: ascii s := rfl

@[simp] theorem ascii_append (s t : List Char) : ascii (s ++ t) = ascii s ++ ascii t :=
  List.map_append

/-! ## UTF-8 -/

/-- The bytes of a text. -/
def utf8 (s : List Char) : List UInt8 :=
  s.flatMap String.utf8EncodeChar

/-- Texts in ASCII are encoded character by character. -/
theorem utf8_eq_ascii {s : List Char} (h : ∀ c ∈ s, c.toNat < 128) : utf8 s = ascii s := by
  induction s with
  | nil => rfl
  | cons c s ih =>
    have hsize : c.utf8Size = 1 := by
      rw [Char.utf8Size_eq_one_iff, UInt32.le_iff_toNat_le]
      exact Nat.le_of_lt_succ (h c List.mem_cons_self)
    have hrest := ih fun d hd ↦ h d (List.mem_cons_of_mem c hd)
    rw [utf8, List.flatMap_cons, String.utf8EncodeChar_eq_singleton hsize]
    exact congrArg (c.toNat.toUInt8 :: ·) hrest

/-- Only a NUL has a zero among its bytes. -/
theorem zero_not_mem_utf8EncodeChar {c : Char} (h : c ≠ '\x00') : 0 ∉ String.utf8EncodeChar c := by
  have hpos : 0 < c.val.toNat := by
    refine Nat.pos_of_ne_zero fun hzero ↦ h ?_
    exact Char.toNat_inj.mp hzero
  have hbyte : ∀ n, 0 < n % 256 → 0 ≠ UInt8.ofNat n := by
    intro n hn heq
    have hvalue := congrArg UInt8.toNat heq
    rw [UInt8.toNat_ofNat'] at hvalue
    exact hn.ne hvalue
  rw [String.utf8EncodeChar]
  split_ifs
  all_goals
    intro hmem
    simp only [List.mem_cons, List.not_mem_nil, or_false] at hmem
  · exact hbyte _ (by omega) hmem
  · rcases hmem with hmem | hmem
    all_goals exact hbyte _ (by omega) hmem
  · rcases hmem with hmem | hmem | hmem
    all_goals exact hbyte _ (by omega) hmem
  · rcases hmem with hmem | hmem | hmem | hmem
    all_goals exact hbyte _ (by omega) hmem

/-! ## Digits -/

/-- The bytes `0` to `9`. -/
def isDigitByte (b : UInt8) : Bool :=
  48 ≤ b && b ≤ 57

theorem isDigit_iff {c : Char} : c.isDigit ↔ 48 ≤ c.toNat ∧ c.toNat ≤ 57 := by
  rw [Char.isDigit, Bool.and_eq_true, decide_eq_true_eq, decide_eq_true_eq]
  exact Iff.rfl

theorem isDigitByte_iff {b : UInt8} : isDigitByte b ↔ 48 ≤ b.toNat ∧ b.toNat ≤ 57 := by
  rw [isDigitByte, Bool.and_eq_true, decide_eq_true_eq, decide_eq_true_eq, UInt8.le_iff_toNat_le,
    UInt8.le_iff_toNat_le]
  exact Iff.rfl

/-- Digits are bytes of their own. -/
theorem toNat_digit {c : Char} (h : c.isDigit) : c.toNat.toUInt8.toNat = c.toNat := by
  have := isDigit_iff.mp h
  rw [Nat.toUInt8, UInt8.toNat_ofNat']
  omega

theorem isDigitByte_digit {c : Char} (h : c.isDigit) : isDigitByte c.toNat.toUInt8 := by
  rw [isDigitByte_iff, toNat_digit h]
  exact isDigit_iff.mp h

/-- No digit is a NUL. -/
theorem digit_ne_zero {c : Char} (h : c.isDigit) : c.toNat.toUInt8 ≠ 0 := by
  intro hzero
  have hnat := toNat_digit h
  have hrange := (isDigit_iff.mp h).1
  rw [← hnat, hzero] at hrange
  exact absurd hrange (by decide)

/-- The number that a string of digits stands for, in bytes. -/
def number (s : List UInt8) : ℕ :=
  s.foldl (fun n b ↦ 10 * n + (b.toNat - 48)) 0

theorem number_append_singleton (s : List UInt8) (b : UInt8) :
    number (s ++ [b]) = 10 * number s + (b.toNat - 48) := by
  rw [number, List.foldl_append]
  rfl

/-- The two ways to read agree. -/
theorem number_ascii {s : List Char} (h : ∀ c ∈ s, c.isDigit) :
    number (ascii s) = Nat.ofDigitChars 10 s 0 := by
  induction s using List.reverseRecOn with
  | nil => rfl
  | append_singleton s c ih =>
    have hc := toNat_digit (h c (by simp))
    rw [ascii_append, ascii_cons, ascii_nil, number_append_singleton, hc,
      ih fun d hd ↦ h d (List.mem_append_left _ hd), Nat.ofDigitChars_append, Nat.ofDigitChars_cons,
      Nat.ofDigitChars_nil]
    rfl

/-! ## Numerals -/

/-- The numerals of the natural numbers. -/
structure IsNumeral (s : List Char) : Prop where
  ne_nil : s ≠ []
  isDigit : ∀ c ∈ s, c.isDigit
  /-- There are no leading zeros. -/
  leading : s.head? = some '0' → s = ['0']

theorem isDigit_of_mem_toDigits {n : ℕ} {c : Char} (h : c ∈ Nat.toDigits 10 n) : c.isDigit :=
  Nat.isDigit_of_mem_toDigits (by decide) (by decide) h

theorem number_toDigits (n : ℕ) : number (ascii (Nat.toDigits 10 n)) = n := by
  rw [number_ascii fun c hc ↦ isDigit_of_mem_toDigits hc, Nat.ofDigitChars_ten_toDigits]

/-- A digit is written as it is read. -/
theorem toDigits_digit {c : Char} (h : c.isDigit) : Nat.toDigits 10 (c.toNat - 48) = [c] := by
  have hc := isDigit_iff.mp h
  have hlt : c.toNat - 48 < 10 := by omega
  rw [Nat.toDigits_of_lt_base hlt]
  have hdigit : (c.toNat - 48).digitChar.toNat = c.toNat := by
    rw [Nat.toNat_digitChar_of_lt_ten hlt]
    omega
  exact congrArg (fun d ↦ [d]) (Char.toNat_inj.mp hdigit)

theorem isNumeral_toDigits (n : ℕ) : IsNumeral (Nat.toDigits 10 n) := by
  refine ⟨Nat.toDigits_ne_nil, fun c hc ↦ isDigit_of_mem_toDigits hc, fun hzero ↦ ?_⟩
  induction n using Nat.strongRecOn with
  | ind n ih =>
    by_cases hlt : n < 10
    · rw [Nat.toDigits_of_lt_base hlt] at hzero ⊢
      exact congrArg (fun d ↦ [d]) (Option.some_inj.mp hzero)
    · -- the number without its last digit would be a zero in front
      have hge : 10 ≤ n := Nat.not_lt.mp hlt
      rw [Nat.toDigits_of_base_le (by decide) hge,
        List.head?_append_of_ne_nil _ Nat.toDigits_ne_nil]
        at hzero
      have hfront := ih (n / 10) (Nat.div_lt_self (by omega) (by decide)) hzero
      have hvalue := congrArg (fun s ↦ Nat.ofDigitChars 10 s 0) hfront
      simp only [Nat.ofDigitChars_ten_toDigits] at hvalue
      have : n / 10 = 0 := hvalue
      omega

theorem IsNumeral.of_append {s t : List Char} (h : IsNumeral (s ++ t)) (hs : s ≠ []) :
    IsNumeral s := by
  refine ⟨hs, fun d hd ↦ h.isDigit d (List.mem_append_left _ hd), fun hzero ↦ ?_⟩
  have hone := h.leading (by rw [List.head?_append_of_ne_nil _ hs, hzero])
  rcases List.append_eq_singleton_iff.mp hone with ⟨rfl, -⟩ | ⟨rfl, -⟩
  · exact absurd rfl hs
  · rfl

/-- **Numerals are what is written.** -/
theorem IsNumeral.toDigits_ofDigitChars {s : List Char} (h : IsNumeral s) :
    Nat.toDigits 10 (Nat.ofDigitChars 10 s 0) = s := by
  induction s using List.reverseRecOn with
  | nil => exact absurd rfl h.ne_nil
  | append_singleton s c ih =>
    have hc := h.isDigit c (by simp)
    have hlt : c.toNat - 48 < 10 := by
      have := isDigit_iff.mp hc
      omega
    have hvalue : Nat.ofDigitChars 10 (s ++ [c]) 0
        = 10 * Nat.ofDigitChars 10 s 0 + (c.toNat - 48) := by
      rw [Nat.ofDigitChars_append, Nat.ofDigitChars_cons, Nat.ofDigitChars_nil]
      rfl
    by_cases hs : s = []
    · subst hs
      rw [hvalue, Nat.ofDigitChars_nil, Nat.mul_zero, Nat.zero_add, toDigits_digit hc,
        List.nil_append]
    · have hfront := h.of_append hs
      have hpos : 0 < Nat.ofDigitChars 10 s 0 := by
        rw [Nat.pos_iff_ne_zero]
        intro hzero
        have hs0 := ih hfront
        rw [hzero] at hs0
        -- the string would begin with a zero
        have := h.leading (by rw [← hs0]; rfl)
        exact absurd (congrArg List.length this) (by rw [← hs0]; simp)
      rw [hvalue, ← Nat.toDigits_append_toDigits (by decide) hpos hlt, ih hfront, toDigits_digit hc]

/-- A text is the numeral of the number that it stands for, and of no other. -/
theorem eq_toDigits_iff {s : List Char} {n : ℕ} :
    s = Nat.toDigits 10 n ↔ IsNumeral s ∧ Nat.ofDigitChars 10 s 0 = n := by
  constructor
  · rintro rfl
    exact ⟨isNumeral_toDigits n, Nat.ofDigitChars_ten_toDigits⟩
  · rintro ⟨h, rfl⟩
    exact h.toDigits_ofDigitChars.symm

/-- The numerals of the numbers up to a bound. -/
theorem isNumeral_and_le_iff {s : List Char} {k : ℕ} :
    (IsNumeral s ∧ Nat.ofDigitChars 10 s 0 ≤ k) ↔ ∃ n ≤ k, s = Nat.toDigits 10 n := by
  constructor
  · rintro ⟨h, hle⟩
    exact ⟨_, hle, h.toDigits_ofDigitChars.symm⟩
  · rintro ⟨n, hle, hs⟩
    obtain ⟨h, rfl⟩ := eq_toDigits_iff.mp hs
    exact ⟨h, hle⟩

theorem isNumeral_cons {c : Char} {s : List Char} :
    IsNumeral (c :: s) ↔ c.isDigit ∧ s.all Char.isDigit ∧ (c = '0' → s = []) := by
  rw [List.all_eq_true]
  constructor
  · intro h
    refine ⟨h.isDigit c List.mem_cons_self, fun d hd ↦ h.isDigit d (List.mem_cons_of_mem c hd), ?_⟩
    rintro rfl
    exact (List.cons.inj (h.leading rfl)).2
  · rintro ⟨hc, hs, hzero⟩
    refine ⟨List.cons_ne_nil c s, List.forall_mem_cons.mpr ⟨hc, hs⟩, fun hhead ↦ ?_⟩
    obtain rfl := Option.some_inj.mp hhead
    rw [hzero rfl]

/-- Reading on does not make a number smaller. -/
theorem le_ofDigitChars (s : List Char) (n : ℕ) : n ≤ Nat.ofDigitChars 10 s n := by
  induction s generalizing n with
  | nil => rfl
  | cons c s ih =>
    rw [Nat.ofDigitChars_cons]
    have := ih (10 * n + (c.toNat - '0'.toNat))
    omega

/-- The beginnings of a numeral are numerals of smaller numbers. -/
theorem exists_eq_toDigits_of_isPrefix {s : List Char} {n : ℕ} (h : s <+: Nat.toDigits 10 n)
    (hs : s ≠ []) : ∃ m ≤ n, s = Nat.toDigits 10 m := by
  obtain ⟨t, ht⟩ := h
  obtain ⟨hnumeral, hvalue⟩ := eq_toDigits_iff.mp ht
  have hle : Nat.ofDigitChars 10 s 0 ≤ n := by
    rw [← hvalue, Nat.ofDigitChars_append]
    exact le_ofDigitChars t _
  exact ⟨_, hle, (hnumeral.of_append hs).toDigits_ofDigitChars.symm⟩

/-- Long numerals are numerals of large numbers. -/
theorem IsNumeral.pow_le {s : List Char} (h : IsNumeral s) {k : ℕ} (hk : 0 < k)
    (hlt : k < s.length) : 10 ^ k ≤ Nat.ofDigitChars 10 s 0 := by
  by_contra hsmall
  have hlength := (Nat.length_toDigits_le_iff (by decide) hk).mpr (Nat.not_le.mp hsmall)
  rw [h.toDigits_ofDigitChars] at hlength
  omega

/-! ## Integers -/

/-- The numeral of an integer, with a sign if it is negative. -/
def intDigits : ℤ → List Char
  | .ofNat n => Nat.toDigits 10 n
  | .negSucc n => '-' :: Nat.toDigits 10 (n + 1)

theorem eq_or_isDigit_of_mem_intDigits {i : ℤ} {c : Char} (h : c ∈ intDigits i) :
    c = '-' ∨ c.isDigit := by
  cases i with
  | ofNat n => exact .inr (isDigit_of_mem_toDigits h)
  | negSucc n => exact (List.mem_cons.mp h).imp id isDigit_of_mem_toDigits

theorem zero_not_mem_intDigits (i : ℤ) : 0 ∉ ascii (intDigits i) := by
  intro hmem
  obtain ⟨c, hc, hzero⟩ := List.mem_map.mp hmem
  rcases eq_or_isDigit_of_mem_intDigits hc with rfl | hdigit
  · exact absurd hzero (by decide)
  · exact digit_ne_zero hdigit hzero

end Numerals

end PushService
