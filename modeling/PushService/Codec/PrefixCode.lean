import Mathlib.Data.List.Infix

/-!
# Prefix codes

A *prefix code* writes values as strings so that a string can be read from the front: `decode` finds
a value and what follows it, or nothing. The one law says that it finds exactly what was written.
Unique decoding, and that no code word is a proper beginning of another, follow from it once for all
codes.

Codes are put together from smaller ones: `symbol` writes one symbol and `block` a fixed number of
them, `seq` writes two values one after the other, where the code of the second may depend on the
first, and `retype` writes values as others.
-/

namespace PushService

/-- A prefix code for the valid values of `α`. -/
structure PrefixCode (σ α : Type*) where
  Valid : α → Prop
  encode : α → List σ
  /-- The value at the front of a string, and what follows it. -/
  decode : List σ → Option (α × List σ)
  decode_eq_some : ∀ {b : List σ} {a : α} {rest : List σ},
    decode b = some (a, rest) ↔ Valid a ∧ b = encode a ++ rest

namespace PrefixCode

variable {σ α β : Type*} (c : PrefixCode σ α)

/-! ## Decoding -/

variable {c} {a a' : α} {b r r' : List σ}

theorem decode_encode_append (ha : c.Valid a) (rest : List σ) :
    c.decode (c.encode a ++ rest) = some (a, rest) :=
  c.decode_eq_some.mpr ⟨ha, rfl⟩

/-- **Unique decoding**: what is written at the front of a string, and where it ends, is
determined. -/
theorem append_inj (ha : c.Valid a) (ha' : c.Valid a') (h : c.encode a ++ r = c.encode a' ++ r') :
    a = a' ∧ r = r' := by
  have hsame := (decode_encode_append ha r).symm.trans (h ▸ decode_encode_append ha' r')
  exact Prod.mk.inj (Option.some_inj.mp hsame)

/-- **No code word is a proper beginning of another.** -/
theorem eq_of_isPrefix (ha : c.Valid a) (ha' : c.Valid a') (h : c.encode a <+: c.encode a') :
    a = a' := by
  obtain ⟨r, hr⟩ := h
  exact (append_inj ha ha' (hr.trans (List.append_nil _).symm)).1

/-- Nothing is found where no code word stands. -/
theorem decode_eq_none : c.decode b = none ↔ ∀ a, c.Valid a → ¬c.encode a <+: b := by
  constructor
  · rintro hnone a ha ⟨r, rfl⟩
    rw [decode_encode_append ha] at hnone
    exact absurd hnone (by simp)
  · intro h
    cases hdecode : c.decode b with
    | none => rfl
    | some found =>
      obtain ⟨ha, hb⟩ := c.decode_eq_some.mp hdecode
      exact absurd ⟨_, hb.symm⟩ (h _ ha)

/-! ## Codes from codes -/

/-- One symbol for each value. -/
def symbol (toSymbol : α → σ) (ofSymbol? : σ → Option α)
    (h : ∀ {x a}, ofSymbol? x = some a ↔ toSymbol a = x) : PrefixCode σ α where
  Valid _ := True
  encode a := [toSymbol a]
  decode
    | [] => none
    | x :: rest => (ofSymbol? x).map fun a ↦ (a, rest)
  decode_eq_some := by
    intro b a rest
    cases b with
    | nil => simp
    | cons x b =>
      simp only [Option.map_eq_some_iff, Prod.mk.injEq, List.singleton_append, List.cons.injEq, h,
        true_and]
      constructor
      · rintro ⟨a, rfl, rfl, rfl⟩
        exact ⟨rfl, rfl⟩
      · rintro ⟨rfl, rfl⟩
        exact ⟨a, rfl, rfl, rfl⟩

/-- A string of `n` symbols. -/
def block (σ : Type*) (n : ℕ) : PrefixCode σ (List σ) where
  Valid l := l.length = n
  encode l := l
  decode b := if n ≤ b.length then some (b.take n, b.drop n) else none
  decode_eq_some := by
    intro b a rest
    simp only [Option.ite_none_right_eq_some, Option.some.injEq, Prod.mk.injEq]
    constructor
    · rintro ⟨hn, rfl, rfl⟩
      exact ⟨List.length_take_of_le hn, (List.take_append_drop n b).symm⟩
    · rintro ⟨rfl, rfl⟩
      simp

/-- One value after the other. -/
def seq (c : PrefixCode σ α) (d : α → PrefixCode σ β) : PrefixCode σ (α × β) where
  Valid v := c.Valid v.1 ∧ (d v.1).Valid v.2
  encode v := c.encode v.1 ++ (d v.1).encode v.2
  decode b := (c.decode b).bind fun r ↦ ((d r.1).decode r.2).map fun s ↦ ((r.1, s.1), s.2)
  decode_eq_some := by
    rintro b ⟨a, x⟩ rest
    simp only [Option.bind_eq_some_iff, Option.map_eq_some_iff, Prod.exists, Prod.mk.injEq]
    constructor
    · rintro ⟨a, r, hc, x, rest, hd, ⟨rfl, rfl⟩, rfl⟩
      obtain ⟨ha, rfl⟩ := c.decode_eq_some.mp hc
      obtain ⟨hx, rfl⟩ := (d a).decode_eq_some.mp hd
      exact ⟨⟨ha, hx⟩, (List.append_assoc ..).symm⟩
    · rintro ⟨⟨ha, hx⟩, rfl⟩
      rw [List.append_assoc]
      exact ⟨a, _, decode_encode_append ha _, x, rest, decode_encode_append hx rest, ⟨rfl, rfl⟩,
        rfl⟩

/-- Values written as others. -/
def retype (c : PrefixCode σ α) (Valid : β → Prop) (f : β → α) (g : α → β)
    (hf : ∀ x, Valid x → c.Valid (f x) ∧ g (f x) = x)
    (hg : ∀ a, c.Valid a → Valid (g a) ∧ f (g a) = a) : PrefixCode σ β where
  Valid := Valid
  encode x := c.encode (f x)
  decode b := (c.decode b).map fun r ↦ (g r.1, r.2)
  decode_eq_some := by
    intro b x rest
    simp only [Option.map_eq_some_iff, Prod.exists, Prod.mk.injEq]
    constructor
    · rintro ⟨a, r, hc, rfl, rfl⟩
      obtain ⟨ha, rfl⟩ := c.decode_eq_some.mp hc
      rw [(hg a ha).2]
      exact ⟨(hg a ha).1, rfl⟩
    · rintro ⟨hx, rfl⟩
      exact ⟨f x, rest, decode_encode_append (hf x hx).1 rest, (hf x hx).2, rfl⟩

end PrefixCode

end PushService
