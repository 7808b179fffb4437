import PushService.Hash.Collisions
import PushService.Text.Numerals

/-!
# The hashers

`hasher.cpp`: hashes as strings of hexadecimal digits. `SHA256` of the OpenSSL library is a
parameter; the MurmurHash of a string is computed from the memory behind `c_str()`, which ends with
a NUL, and from its size, converted from `size_t` to the `int` that the function takes.
-/

namespace PushService.Hasher

open Function MurmurHash3 Numerals Words

variable {s t : Bytes}

/-- `std::hex << std::setw(2) << std::setfill('0') << static_cast<int>(ch)`. -/
def hexByte (ch : UInt8) : Bytes := ascii ((Nat.toDigits 16 ch.toNat).leftpad 2 '0')

def ucharsToString (data : Bytes) : Bytes := data.flatMap hexByte

def hashSHA256 (sha256 : Bytes → List.Vector UInt8 32) (sourceStr salt : Bytes) : Bytes :=
  ucharsToString (sha256 (sourceStr ++ salt)).toList

/-- A size as an `int`: the lowest 32 bits, with a sign. -/
def toInt (size : ℕ) : ℤ := (BitVec.ofNat 32 size).toInt

def murmurHash (order : ByteOrder) (sourceStr : Bytes) (seed : BitVec 32) : Option Bytes := do
  let hash ← murmurHash3_x86_32 order (sourceStr ++ [0]) (toInt sourceStr.length) seed
  some (ucharsToString (order.lowFirst (toBytes 4 hash.toNat)))

inductive HasherType where
  | password | another
  deriving DecidableEq, Repr

def salt : Bytes := asciiText "Masterskaya"

def seed : BitVec 32 := 888888

/-- `MakeHasher(type)->Hash(source_str)`. -/
def makeHasher (sha256 : Bytes → List.Vector UInt8 32) (order : ByteOrder) :
    HasherType → Bytes → Option Bytes
  | .password, sourceStr => some (hashSHA256 sha256 sourceStr salt)
  | .another, sourceStr => murmurHash order sourceStr seed

/-! ## Hexadecimal strings -/

/-- A hexadecimal digit, a small letter from ten on. -/
def hexDigit (n : ℕ) : UInt8 := n.digitChar.toNat.toUInt8

theorem hexByte_eq (ch : UInt8) :
    hexByte ch = [hexDigit (ch.toNat / 16), hexDigit (ch.toNat % 16)] := by
  have hlt : ch.toNat / 16 < 16 := by
    have := ch.toNat_lt
    omega
  obtain hsmall | hbig := Nat.lt_or_ge ch.toNat 16
  · rw [hexByte, Nat.toDigits_of_lt_base hsmall, Nat.div_eq_of_lt hsmall, Nat.mod_eq_of_lt hsmall]
    rfl
  · rw [hexByte, Nat.toDigits_of_base_le (by decide) hbig, Nat.toDigits_of_lt_base hlt]
    rfl

theorem hexDigit_inj : ∀ n < 16, ∀ m < 16, hexDigit n = hexDigit m → n = m := by decide

theorem hexByte_injective : Injective hexByte := by
  intro ch ch' h
  have hlt := ch.toNat_lt
  have hlt' := ch'.toNat_lt
  rw [hexByte_eq, hexByte_eq, List.cons.injEq, List.cons.injEq] at h
  have hdiv := hexDigit_inj _ (by omega) _ (by omega) h.1
  have hmod := hexDigit_inj _ (by omega) _ (by omega) h.2.1
  exact UInt8.toNat_inj.mp (by omega)

theorem length_ucharsToString (data : Bytes) : (ucharsToString data).length = 2 * data.length := by
  induction data with
  | nil => rfl
  | cons ch data ih =>
    rw [ucharsToString, List.flatMap_cons, List.length_append, ← ucharsToString, ih, hexByte_eq]
    simp only [List.length_cons, List.length_nil]
    omega

/-- **Different bytes have different strings.** -/
theorem ucharsToString_injective : Injective ucharsToString := by
  intro data
  induction data with
  | nil =>
    intro data' h
    have hlen := congrArg List.length h
    rw [length_ucharsToString, length_ucharsToString, List.length_nil, Nat.mul_zero] at hlen
    exact (List.length_eq_zero_iff.mp (by omega)).symm
  | cons ch data ih =>
    intro data' h
    cases data' with
    | nil =>
      have hlen := congrArg List.length h
      rw [length_ucharsToString, length_ucharsToString] at hlen
      simp at hlen
    | cons ch' data' =>
      rw [ucharsToString, ucharsToString, List.flatMap_cons, List.flatMap_cons] at h
      obtain ⟨hch, hdata⟩ := List.append_inj h (by rw [hexByte_eq, hexByte_eq]; rfl)
      rw [hexByte_injective hch, ih hdata]

/-- Only the digits and the small letters up to `f` are written. -/
def IsHex (b : UInt8) : Prop := isDigitByte b ∨ 97 ≤ b ∧ b ≤ 102

theorem isHex_hexDigit : ∀ n < 16, IsHex (hexDigit n) := by
  unfold IsHex
  decide

theorem isHex_of_mem {data : Bytes} {b : UInt8} (hb : b ∈ ucharsToString data) : IsHex b := by
  obtain ⟨ch, -, hmem⟩ := List.mem_flatMap.mp hb
  have hlt := ch.toNat_lt
  rw [hexByte_eq, List.mem_cons, List.mem_singleton] at hmem
  obtain rfl | rfl := hmem
  · exact isHex_hexDigit _ (by omega)
  · exact isHex_hexDigit _ (Nat.mod_lt _ (by decide))

/-! ## The size of the string -/

theorem toInt_of_lt {n : ℕ} (hn : n % 2 ^ 32 < 2 ^ 31) : toInt n = (n % 2 ^ 32 : ℕ) := by
  rw [toInt, BitVec.toInt_eq_toNat_bmod, BitVec.toNat_ofNat, Int.bmod_def]
  push_cast
  omega

theorem toInt_of_le {n : ℕ} (hn : 2 ^ 31 ≤ n % 2 ^ 32) : toInt n = (n % 2 ^ 32 : ℕ) - 2 ^ 32 := by
  rw [toInt, BitVec.toInt_eq_toNat_bmod, BitVec.toNat_ofNat, Int.bmod_def]
  push_cast
  omega

theorem tdiv_of_nonpos {len : ℤ} (hlen : len ≤ 0) : len.tdiv 4 = -(len.natAbs / 4 : ℕ) := by
  obtain ⟨n, rfl⟩ : ∃ n : ℕ, len = -n := ⟨len.natAbs, by omega⟩
  rw [Int.neg_tdiv, Int.natAbs_neg, Int.natAbs_natCast]
  rfl

/-- From a positive number the counter does not come back to zero. -/
theorem untilZero_of_pos {σ : Type*} (body : ℤ → σ → Option σ) {i : ℤ} (hi : 0 < i) (h : σ) :
    untilZero body i h = none := by
  induction hd : (2 ^ 31 - i).toNat generalizing i h with
  | zero =>
    rw [untilZero, if_neg hi.ne']
    cases body i h with
    | none => rfl
    | some h' => exact if_neg (by omega)
  | succ d ih =>
    rw [untilZero, if_neg hi.ne']
    cases body i h with
    | none => rfl
    | some h' =>
      have hnext : untilZero body (i + 1) h' = none := ih (by omega) h' (by omega)
      change (if i + 1 < 2 ^ 31 then untilZero body (i + 1) h' else none) = none
      rw [hnext, ite_self]

/-- A length of minus one block or less is the end: the loop runs away. -/
theorem murmurHash3_x86_32_of_neg (order : ByteOrder) (data : Bytes) {len : ℤ} (hlen : len ≤ -4)
    (h : BitVec 32) : murmurHash3_x86_32 order data len h = none := by
  have hpos : 0 < -(len.tdiv 4) := by
    rw [tdiv_of_nonpos (by omega)]
    omega
  rw [murmurHash3_x86_32]
  simp only [untilZero_of_pos _ hpos, Option.bind_eq_bind, Option.bind_none]

/-- With a length of minus one to minus three there is no block, and at most three bytes are
read. -/
theorem murmurHash3_x86_32_isSome (order : ByteOrder) {data : Bytes} (hdata : 3 ≤ data.length)
    {len : ℤ} (hlen : -3 ≤ len) (hneg : len < 0) (h : BitVec 32) :
    (murmurHash3_x86_32 order data len h).isSome := by
  have hdiv : len.tdiv 4 = 0 := by
    rw [tdiv_of_nonpos hneg.le]
    omega
  have hr : (len % 4).toNat ≤ 3 := by omega
  have hlast : (data.take (len % 4).toNat).length = (len % 4).toNat := by
    rw [List.length_take]
    omega
  have htail := tailInto_eq (p := 0) X86_32.mixK1 h (by decide : 0 < 4) rfl hlast
  rw [murmurHash3_x86_32, hdiv]
  have hloop : untilZero (X86_32.readBody order data (0 * 4)) (-0) h = some h := by
    rw [untilZero]
    rfl
  simp only [hloop, Option.bind_eq_bind, Option.bind_some]
  rw [zero_mul, ← Nat.cast_zero, htail]
  rfl

/-- The string of a hash that is there. -/
theorem murmurHash_eq (order : ByteOrder) (seed : BitVec 32) (hs : s.length % 2 ^ 32 < 2 ^ 31) :
    murmurHash order s seed = some (ucharsToString (order.lowFirst
      (toBytes 4 ((x86_32 order).hash seed (s.take (s.length % 2 ^ 32))).toNat))) := by
  have hle : s.length % 2 ^ 32 ≤ s.length := Nat.mod_le _ _
  have hmem : s.length % 2 ^ 32 ≤ (s ++ [0]).length := by
    rw [List.length_append]
    exact Nat.le_add_right_of_le hle
  rw [murmurHash, toInt_of_lt hs, murmurHash3_x86_32_eq order seed hmem hs,
    List.take_append_of_le_length hle]
  rfl

/-- **A size that does not fit an `int`.** The hash is computed exactly unless the lowest 32 bits of
the size say a negative number below -3, and from the beginning of the string only, as many bytes as
they say. -/
theorem murmurHash_of_size (order : ByteOrder) (seed : BitVec 32) (s : Bytes) :
    (murmurHash order s seed = none ↔
        2 ^ 31 ≤ s.length % 2 ^ 32 ∧ s.length % 2 ^ 32 < 2 ^ 32 - 3)
      ∧ (s.length % 2 ^ 32 < 2 ^ 31 →
        murmurHash order s seed = murmurHash order (s.take (s.length % 2 ^ 32)) seed) := by
  obtain hsmall | hbig := Nat.lt_or_ge (s.length % 2 ^ 32) (2 ^ 31)
  · refine ⟨?_, fun _ ↦ ?_⟩
    · rw [murmurHash_eq order seed hsmall]
      exact ⟨fun h ↦ (Option.some_ne_none _ h).elim, fun h ↦ absurd hsmall h.1.not_gt⟩
    · have htake : (s.take (s.length % 2 ^ 32)).length = s.length % 2 ^ 32 := by
        rw [List.length_take, min_eq_left (Nat.mod_le _ _)]
      have hmod : (s.take (s.length % 2 ^ 32)).length % 2 ^ 32 = s.length % 2 ^ 32 := by
        rw [htake, Nat.mod_mod]
      rw [murmurHash_eq order seed hsmall, murmurHash_eq order seed (hmod.trans_lt hsmall), hmod,
        List.take_take, min_self]
  · refine ⟨?_, fun h ↦ absurd h hbig.not_gt⟩
    rw [murmurHash, toInt_of_le hbig]
    obtain hfar | hnear := Nat.lt_or_ge (s.length % 2 ^ 32) (2 ^ 32 - 3)
    · rw [murmurHash3_x86_32_of_neg order _ (by omega)]
      exact ⟨fun _ ↦ ⟨hbig, hfar⟩, fun _ ↦ rfl⟩
    · have hlong : 3 ≤ (s ++ [0]).length := by
        have := Nat.mod_le s.length (2 ^ 32)
        rw [List.length_append]
        omega
      have hneg : -3 ≤ ((s.length % 2 ^ 32 : ℕ) - 2 ^ 32 : ℤ) := by omega
      obtain ⟨h, hh⟩ := Option.isSome_iff_exists.mp
        (murmurHash3_x86_32_isSome order hlong hneg (by omega) seed)
      rw [hh]
      exact ⟨fun h ↦ (Option.some_ne_none _ h).elim, fun h ↦ absurd hnear h.2.not_ge⟩

/-- The strings of two hashes of MurmurHash are the same just when the hashes are. -/
theorem murmurHash_inj (order : ByteOrder) (seed : BitVec 32) (hs : s.length < 2 ^ 31)
    (ht : t.length < 2 ^ 31) (h : murmurHash order s seed = murmurHash order t seed) :
    (x86_32 order).hash seed s = (x86_32 order).hash seed t := by
  have hmod : s.length % 2 ^ 32 = s.length := Nat.mod_eq_of_lt (by omega)
  have hmod' : t.length % 2 ^ 32 = t.length := Nat.mod_eq_of_lt (by omega)
  rw [murmurHash_eq order seed (hmod.trans_lt hs), murmurHash_eq order seed (hmod'.trans_lt ht),
    hmod,
    hmod', List.take_length, List.take_length] at h
  have hbytes := order.lowFirst_injective (ucharsToString_injective (Option.some.inj h))
  rw [← ofBytes_toBytes (n := 4) rfl ((x86_32 order).hash seed s), hbytes, ofBytes_toBytes rfl]

/-- The number of digits a hasher writes. -/
def HasherType.digits : HasherType → ℕ
  | .password => 64
  | .another => 8

/-- **What the hashers promise.** Password hashes are the same just when SHA-256 does not tell the
salted passwords apart; the other hasher tells apart all strings of one length that differ in one
block only; and both write hexadecimal digits, always the same number. -/
theorem makeHasher_spec (sha256 : Bytes → List.Vector UInt8 32) (order : ByteOrder) :
    (∀ s t, makeHasher sha256 order .password s = makeHasher sha256 order .password t ↔
        sha256 (s ++ salt) = sha256 (t ++ salt))
      ∧ (∀ (s t : Bytes) (j : ℕ), s.length = t.length → s.length < 2 ^ 31 →
        (∀ i, i / 4 ≠ j → s[i]? = t[i]?) →
        (makeHasher sha256 order .another s = makeHasher sha256 order .another t ↔ s = t))
      ∧ ∀ type s hash, makeHasher sha256 order type s = some hash →
        hash.length = type.digits ∧ ∀ b ∈ hash, IsHex b := by
  refine ⟨fun s t ↦ ⟨fun h ↦ ?_, fun h ↦ ?_⟩, fun s t j hlen hs hout ↦ ⟨fun h ↦ ?_, fun h ↦ ?_⟩, ?_⟩
  · exact List.Vector.toList_injective (ucharsToString_injective (Option.some.inj h))
  · rw [makeHasher, makeHasher, hashSHA256, hashSHA256, h]
  · have heq := murmurHash_inj order seed hs (hlen ▸ hs) h
    exact (onto_x86_32 order).eq_of_hash_eq hlen hout heq
  · rw [h]
  · rintro (_ | _) s hash h
    · obtain rfl := Option.some.inj h
      refine ⟨?_, fun b ↦ isHex_of_mem⟩
      rw [hashSHA256, length_ucharsToString, List.Vector.toList_length]
      rfl
    · obtain ⟨value, -, hvalue⟩ := Option.bind_eq_some_iff.mp h
      obtain rfl := Option.some.inj hvalue
      refine ⟨?_, fun b ↦ isHex_of_mem⟩
      rw [length_ucharsToString, ByteOrder.length_lowFirst, length_toBytes]
      rfl

end PushService.Hasher
