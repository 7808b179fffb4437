import Mathlib.Data.BitVec
import Mathlib.Data.Finite.Defs
import Mathlib.Data.Fintype.EquivFin
import Mathlib.Data.Nat.Digits.Lemmas
import Mathlib.Data.Nat.ModEq
import Mathlib.Data.Nat.Prime.Basic

/-!
# Reversible operations on machine words

The operations from which word hashes are put together: rotations, `x ^ (x >> s)`, multiplication by
an odd constant, sums and exclusive ors with a known word. None of them loses information, so a
composition of them is a permutation of the words, whatever it does to their distribution.

A word is also read from, and written as, a string of bytes, in one of the two byte orders. A word
filled with fewer bytes than it holds still determines them, once their number is known.
-/

namespace PushService.Words

open Function

variable {w s r : ℕ}

/-! ## Operations -/

/-- The rotation to the left by `r`, as two shifts. -/
def rotl (x : BitVec w) (r : ℕ) : BitVec w := x <<< r ||| x >>> (w - r)

/-- `x ^ (x >> s)`. -/
def xorShift (s : ℕ) (x : BitVec w) : BitVec w := x ^^^ x >>> s

theorem getLsbD_rotl (x : BitVec w) (i : ℕ) :
    (rotl x r).getLsbD i = ((decide (i < w) && !decide (i < r) && x.getLsbD (i - r))
      || x.getLsbD (w - r + i)) := by
  simp [rotl, BitVec.getLsbD_or, BitVec.getLsbD_shiftLeft, BitVec.getLsbD_ushiftRight]

/-- Where a bit of the rotated word comes from. -/
theorem getLsbD_of_rotl (hr : r < w) (x : BitVec w) {i : ℕ} (hi : i < w) :
    x.getLsbD i = (rotl x r).getLsbD (if i + r < w then i + r else i + r - w) := by
  rw [getLsbD_rotl]
  by_cases hlow : i + r < w
  · rw [if_pos hlow, BitVec.getLsbD_of_ge x (w - r + (i + r)) (by omega)]
    simp [hlow]
  · have hpos : w - r + (i + r - w) = i := by omega
    have hlt : i + r - w < r := by omega
    rw [if_neg hlow, hpos]
    simp [hlt]

/-- **A rotation loses nothing.** -/
theorem rotl_injective (hr : r < w) : Injective fun x : BitVec w ↦ rotl x r := by
  intro x y hxy
  refine BitVec.eq_of_getLsbD_eq fun i hi ↦ ?_
  rw [getLsbD_of_rotl hr x hi, getLsbD_of_rotl hr y hi]
  exact congrArg (fun z : BitVec w ↦ z.getLsbD _) hxy

/-- **An exclusive or with a shifted copy loses nothing**: the highest bits are unchanged, and every
other bit is found from one further up. -/
theorem xorShift_injective (hs : 0 < s) : Injective fun x : BitVec w ↦ xorShift s x := by
  intro x y hxy
  have hbits : ∀ d i, w ≤ i + d → x.getLsbD i = y.getLsbD i := by
    intro d
    induction d with
    | zero =>
      intro i hi
      rw [BitVec.getLsbD_of_ge x i hi, BitVec.getLsbD_of_ge y i hi]
    | succ d ih =>
      intro i hi
      have hup : x.getLsbD (s + i) = y.getLsbD (s + i) := ih (s + i) (by omega)
      have hbit : (xorShift s x).getLsbD i = (xorShift s y).getLsbD i :=
        congrArg (fun z : BitVec w ↦ z.getLsbD i) hxy
      simp only [xorShift, BitVec.getLsbD_xor, BitVec.getLsbD_ushiftRight, hup] at hbit
      exact Bool.xor_left_inj.mp hbit
  exact BitVec.eq_of_getLsbD_eq fun i _ ↦ hbits w i (by omega)

/-- **Multiplying by an odd constant loses nothing.** -/
theorem mul_injective {c : BitVec w} (hc : c.toNat % 2 = 1) :
    Injective fun x : BitVec w ↦ x * c := by
  intro x y hxy
  have hmod : x.toNat * c.toNat ≡ y.toNat * c.toNat [MOD 2 ^ w] := by
    have := congrArg BitVec.toNat hxy
    simpa only [BitVec.toNat_mul, Nat.ModEq] using this
  have hcop : Nat.gcd (2 ^ w) c.toNat = 1 :=
    Nat.Coprime.pow_left w (Nat.coprime_two_left.mpr (Nat.odd_iff.mpr hc))
  have heq := Nat.ModEq.cancel_right_of_coprime hcop hmod
  rw [Nat.ModEq, Nat.mod_eq_of_lt x.isLt, Nat.mod_eq_of_lt y.isLt] at heq
  exact BitVec.eq_of_toNat_eq heq

theorem xor_injective (c : BitVec w) : Injective fun x : BitVec w ↦ x ^^^ c :=
  fun _ _ h ↦ (BitVec.xor_left_inj c).mp h

theorem xor_left_injective (c : BitVec w) : Injective fun x : BitVec w ↦ c ^^^ x :=
  fun _ _ h ↦ (BitVec.xor_right_inj c).mp h

theorem add_injective (c : BitVec w) : Injective fun x : BitVec w ↦ x + c :=
  fun _ _ h ↦ add_right_cancel h

/-- The last operation of a round. -/
theorem affine_injective {c : BitVec w} (hc : c.toNat % 2 = 1) (d : BitVec w) :
    Injective fun x : BitVec w ↦ x * c + d := (add_injective d).comp (mul_injective hc)

instance finiteWord : Finite (BitVec w) :=
  Finite.of_injective BitVec.toFin fun _ _ ↦ BitVec.eq_of_toFin_eq

/-! ## Words and bytes -/

/-- The order of the bytes of a word in memory. -/
inductive ByteOrder where
  | little | big
  deriving DecidableEq, Repr

namespace ByteOrder

/-- Bytes in the order of their weight, the lowest first. -/
def lowFirst : ByteOrder → List UInt8 → List UInt8
  | little, b => b
  | big, b => b.reverse

@[simp] theorem lowFirst_lowFirst (order : ByteOrder) (b : List UInt8) :
    order.lowFirst (order.lowFirst b) = b := by
  cases order <;> simp [lowFirst]

theorem lowFirst_injective (order : ByteOrder) : Injective order.lowFirst := by
  cases order with
  | little => exact injective_id
  | big => exact List.reverse_injective

@[simp] theorem length_lowFirst (order : ByteOrder) (b : List UInt8) :
    (order.lowFirst b).length = b.length := by
  cases order <;> simp [lowFirst]

end ByteOrder

/-- The number with the given bytes, the lowest first. -/
def ofBytes (w : ℕ) (b : List UInt8) : BitVec w :=
  BitVec.ofNat w (Nat.ofDigits 256 (b.map UInt8.toNat))

theorem ofDigits_lt (b : List UInt8) : Nat.ofDigits 256 (b.map UInt8.toNat) < 256 ^ b.length := by
  have h := Nat.ofDigits_lt_base_pow_length (b := 256) (l := b.map UInt8.toNat) (by decide)
    fun x hx ↦ by
      obtain ⟨u, -, rfl⟩ := List.mem_map.mp hx
      exact u.toNat_lt
  simpa using h

/-- A word determines the bytes it was filled with, once their number is known. -/
theorem ofBytes_inj {b b' : List UInt8} (hlen : b.length = b'.length) (hfit : 8 * b.length ≤ w)
    (h : ofBytes w b = ofBytes w b') : b = b' := by
  have hpow : 256 ^ b.length ≤ 2 ^ w := by
    rw [show (256 : ℕ) = 2 ^ 8 from rfl, ← pow_mul]
    exact Nat.pow_le_pow_right (by decide) hfit
  have hlt := (ofDigits_lt b).trans_le hpow
  have hlt' := (ofDigits_lt b').trans_le (hlen ▸ hpow)
  have heq : Nat.ofDigits 256 (b.map UInt8.toNat) = Nat.ofDigits 256 (b'.map UInt8.toNat) := by
    have := congrArg BitVec.toNat h
    simpa only [ofBytes, BitVec.toNat_ofNat, Nat.mod_eq_of_lt hlt, Nat.mod_eq_of_lt hlt'] using this
  have hdigits := Nat.ofDigits_inj_of_len_eq (by decide) (by simpa using hlen)
    (by simpa using fun u _ ↦ UInt8.toNat_lt u) (by simpa using fun u _ ↦ UInt8.toNat_lt u) heq
  exact List.map_injective_iff.mpr (fun _ _ ↦ UInt8.toNat_inj.mp) hdigits

/-- The `n` lowest bytes of a number, the lowest first. -/
def toBytes : ℕ → ℕ → List UInt8
  | 0, _ => []
  | n + 1, m => UInt8.ofNat m :: toBytes n (m / 256)

@[simp] theorem length_toBytes (n m : ℕ) : (toBytes n m).length = n := by
  induction n generalizing m with
  | zero => rfl
  | succ n ih => rw [toBytes, List.length_cons, ih]

theorem ofDigits_toBytes (n m : ℕ) :
    Nat.ofDigits 256 ((toBytes n m).map UInt8.toNat) = m % 256 ^ n := by
  induction n generalizing m with
  | zero => simp [toBytes, Nat.mod_one]
  | succ n ih =>
    rw [toBytes, List.map_cons, Nat.ofDigits_cons, ih, pow_succ', Nat.mod_mul, UInt8.toNat_ofNat']

/-- A word is the number with its own bytes. -/
theorem ofBytes_toBytes {n : ℕ} (hn : 8 * n = w) (x : BitVec w) :
    ofBytes w (toBytes n x.toNat) = x := by
  refine BitVec.eq_of_toNat_eq ?_
  have hpow : 256 ^ n = 2 ^ w := by rw [← hn, pow_mul]; rfl
  rw [ofBytes, ofDigits_toBytes, BitVec.toNat_ofNat, hpow, Nat.mod_mod, Nat.mod_eq_of_lt x.isLt]

end PushService.Words
