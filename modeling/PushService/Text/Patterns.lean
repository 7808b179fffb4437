import Mathlib.Computability.RegularExpressions

/-!
# Patterns

Patterns as they are written in programs, over the regular expressions of Mathlib: classes,
literals, optional parts and bounded repetitions. Whether a text is in the language of a pattern is
worked out from its first element, with the rest of the text left for the rest of the pattern.

An input mask lets a text pass that is the beginning of a match (`admits`). The texts that can
follow are those of the derivative, so it is enough to know whether there are any.
-/

namespace PushService

namespace Patterns

open RegularExpression

variable {α : Type*}

/-- `[abc]`. -/
def oneOf (as : List α) : RegularExpression α :=
  as.foldr (fun a P ↦ char a + P) 0

/-- `abc`. -/
def literal (as : List α) : RegularExpression α :=
  as.foldr (fun a P ↦ char a * P) 1

/-- `P?`. -/
def optional (P : RegularExpression α) : RegularExpression α :=
  1 + P

/-- `P{0,n}`. -/
def upTo (P : RegularExpression α) : ℕ → RegularExpression α
  | 0 => 1
  | n + 1 => 1 + P * upTo P n

/-- The characters of `[a-b]`. -/
def range (a b : Char) : List Char :=
  (List.range' a.toNat (b.toNat + 1 - a.toNat)).map Char.ofNat

@[simp] theorem mem_range {a b c : Char} (hb : b.toNat < 0xd800) :
    c ∈ range a b ↔ a.toNat ≤ c.toNat ∧ c.toNat ≤ b.toNat := by
  simp only [range, List.mem_map, List.mem_range'_1]
  constructor
  · rintro ⟨n, hn, rfl⟩
    have hvalid : n.isValidChar := .inl (by omega)
    have hvalue : (Char.ofNat n).toNat = n := by
      rw [Char.ofNat, dif_pos hvalid]
      rfl
    omega
  · intro hc
    exact ⟨c.toNat, by omega, Char.ofNat_toNat c⟩

/-! ## Languages -/

section Languages

variable {a : α} {as s : List α} {P : RegularExpression α} {L : Language α}

theorem mem_singleton {t : List α} : s ∈ ({t} : Language α) ↔ s = t := Iff.rfl

theorem mem_oneOf : s ∈ (oneOf as).matches' ↔ ∃ a ∈ as, s = [a] := by
  induction as with
  | nil => simp [oneOf, Language.notMem_zero]
  | cons b as ih =>
    have hcons : (oneOf (b :: as)).matches' = {[b]} + (oneOf as).matches' := rfl
    rw [hcons, Language.mem_add, mem_singleton, ih]
    simp

theorem matches'_literal : (literal as).matches' = {as} := by
  induction as with
  | nil => rfl
  | cons b as ih =>
    have hcons : (literal (b :: as)).matches' = {[b]} * (literal as).matches' := rfl
    ext s
    rw [hcons, ih, Language.mem_mul]
    simp [mem_singleton, eq_comm]

@[simp] theorem matches'_optional : (optional P).matches' = 1 + P.matches' := rfl

@[simp] theorem matches'_upTo_zero : (upTo P 0).matches' = 1 := rfl

@[simp] theorem matches'_upTo_succ (n : ℕ) :
    (upTo P (n + 1)).matches' = 1 + P.matches' * (upTo P n).matches' := rfl

/-! Membership by the first element. -/

@[simp] theorem cons_mem_one : a :: s ∈ (1 : Language α) ↔ False := by
  simp [Language.mem_one]

@[simp] theorem cons_mem_oneOf : a :: s ∈ (oneOf as).matches' ↔ a ∈ as ∧ s = [] := by
  rw [mem_oneOf]
  simp

@[simp] theorem nil_mem_oneOf : [] ∈ (oneOf as).matches' ↔ False := by
  rw [mem_oneOf]
  simp

@[simp] theorem cons_mem_oneOf_mul : a :: s ∈ (oneOf as).matches' * L ↔ a ∈ as ∧ s ∈ L := by
  rw [Language.mem_mul]
  constructor
  · rintro ⟨t, ht, u, hu, heq⟩
    obtain ⟨b, hb, rfl⟩ := mem_oneOf.mp ht
    obtain ⟨rfl, rfl⟩ := List.cons.inj heq
    exact ⟨hb, hu⟩
  · rintro ⟨ha, hs⟩
    exact ⟨[a], mem_oneOf.mpr ⟨a, ha, rfl⟩, s, hs, rfl⟩

@[simp] theorem nil_mem_oneOf_mul : [] ∈ (oneOf as).matches' * L ↔ False := by
  rw [Language.mem_mul, iff_false]
  rintro ⟨t, ht, u, -, heq⟩
  rw [(List.append_eq_nil_iff.mp heq).1] at ht
  exact nil_mem_oneOf.mp ht

@[simp] theorem mem_literal : s ∈ (literal as).matches' ↔ s = as := by
  rw [matches'_literal, mem_singleton]

theorem mem_literal_mul : s ∈ (literal as).matches' * L ↔ ∃ t ∈ L, as ++ t = s := by
  rw [matches'_literal, Language.mem_mul]
  constructor
  · rintro ⟨_, rfl, t, ht, heq⟩
    exact ⟨t, ht, heq⟩
  · rintro ⟨t, ht, heq⟩
    exact ⟨as, rfl, t, ht, heq⟩

@[simp] theorem literal_nil_mul : (literal ([] : List α)).matches' * L = L :=
  one_mul L

@[simp] theorem cons_mem_literal_mul {b : α} :
    a :: s ∈ (literal (b :: as)).matches' * L ↔ a = b ∧ s ∈ (literal as).matches' * L := by
  rw [mem_literal_mul, mem_literal_mul]
  constructor
  · rintro ⟨t, ht, heq⟩
    obtain ⟨rfl, rfl⟩ := List.cons.inj heq
    exact ⟨rfl, t, ht, rfl⟩
  · rintro ⟨rfl, t, ht, rfl⟩
    exact ⟨t, ht, rfl⟩

@[simp] theorem nil_mem_literal_mul {b : α} : [] ∈ (literal (b :: as)).matches' * L ↔ False := by
  rw [mem_literal_mul]
  simp

end Languages

/-! ## Beginnings of matches -/

/-- There is a text in the language. -/
def inhabited : RegularExpression α → Bool
  | 0 => false
  | 1 => true
  | char _ => true
  | P + Q => inhabited P || inhabited Q
  | P * Q => inhabited P && inhabited Q
  | .star _ => true

theorem inhabited_iff (P : RegularExpression α) : inhabited P ↔ ∃ s, s ∈ P.matches' := by
  induction P with
  | zero => simp [inhabited]
  | epsilon => simp [inhabited, Language.mem_one]
  | char a => simpa [inhabited] using ⟨[a], rfl⟩
  | plus P Q hP hQ =>
    simp only [plus_def, inhabited, Bool.or_eq_true, hP, hQ, matches'_add, Language.mem_add,
      exists_or]
  | comp P Q hP hQ =>
    simp only [comp_def, inhabited, Bool.and_eq_true, hP, hQ, matches'_mul, Language.mem_mul]
    constructor
    · rintro ⟨⟨s, hs⟩, t, ht⟩
      exact ⟨s ++ t, s, hs, t, ht, rfl⟩
    · rintro ⟨-, s, hs, t, ht, -⟩
      exact ⟨⟨s, hs⟩, t, ht⟩
  | star P _ => simpa [inhabited] using ⟨[], Language.nil_mem_kstar _⟩

variable [DecidableEq α]

theorem rmatch_append (P : RegularExpression α) (s t : List α) :
    P.rmatch (s ++ t) = (s.foldl deriv P).rmatch t := by
  induction s generalizing P with
  | nil => rfl
  | cons a s ih => exact ih (P.deriv a)

/-- The text is the beginning of a match. -/
def admits (P : RegularExpression α) (s : List α) : Bool :=
  inhabited (s.foldl deriv P)

theorem admits_iff {P : RegularExpression α} {s : List α} :
    admits P s ↔ ∃ t, s ++ t ∈ P.matches' := by
  rw [admits, inhabited_iff]
  simp only [← rmatch_iff_matches', rmatch_append]

end Patterns

end PushService
