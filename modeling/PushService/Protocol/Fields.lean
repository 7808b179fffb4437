import PushService.Bytes
import PushService.Codec.PrefixCode

/-!
# The fields of a packet

A number in network byte order, and a string behind its length. Both are prefix codes; the packets
of the protocol are put together from them.

In C++ a read past the end of a span is undefined, so a function that reads has two ways to fail: it
throws, or it reads where there is nothing (`ReadError`).
-/

namespace PushService

/-- Reading and writing back. -/
theorem netBytes_readNet {b : Bytes} (h : 4 ≤ b.length) : netBytes (readNet b) ++ b.drop 4 = b := by
  match b, h with
  | b₀ :: b₁ :: b₂ :: b₃ :: b, _ =>
    have h₀ := b₀.toNat_lt
    have h₁ := b₁.toNat_lt
    have h₂ := b₂.toNat_lt
    have h₃ := b₃.toNat_lt
    simp only [readNet, netBytes, List.drop_succ_cons, List.drop_zero, List.cons_append,
      List.nil_append, List.cons.injEq, and_true, ← UInt8.toNat_inj, UInt8.toNat_ofNat',
      UInt32.toNat_ofNat']
    omega

/-- A `uint32_t` in network byte order. -/
def net32 : PrefixCode UInt8 UInt32 where
  Valid _ := True
  encode := netBytes
  decode b := if 4 ≤ b.length then some (readNet b, b.drop 4) else none
  decode_eq_some := by
    intro b n rest
    simp only [Option.ite_none_right_eq_some, Option.some.injEq, Prod.mk.injEq, true_and]
    constructor
    · rintro ⟨hlong, rfl, rfl⟩
      exact (netBytes_readNet hlong).symm
    · rintro rfl
      exact ⟨by simp, readNet_netBytes n rest, rfl⟩

/-- A string behind its length. -/
def lengthPrefixed : PrefixCode UInt8 Bytes :=
  (net32.seq fun n ↦ .block UInt8 n.toNat).retype (fun t ↦ t.length < 2 ^ 32)
    (fun t ↦ (UInt32.ofNat t.length, t)) Prod.snd
    (fun _ ht ↦ ⟨⟨trivial, (UInt32.toNat_ofNat_of_lt' ht).symm⟩, rfl⟩)
    fun ⟨n, t⟩ ⟨_, ht⟩ ↦ by
      obtain rfl : n = UInt32.ofNat t.length := by rw [ht, UInt32.ofNat_toNat]
      exact ⟨ht.trans_lt (UInt32.toNat_lt _), rfl⟩

@[simp] theorem lengthPrefixed_encode (t : Bytes) :
    lengthPrefixed.encode t = netBytes (UInt32.ofNat t.length) ++ t := rfl

theorem lengthPrefixed_decode {b : Bytes} (h : 4 ≤ b.length) :
    lengthPrefixed.decode b =
      if (readNet b).toNat ≤ (b.drop 4).length then
        some ((b.drop 4).take (readNet b).toNat, (b.drop 4).drop (readNet b).toNat)
      else none := by
  simp only [lengthPrefixed, PrefixCode.retype, PrefixCode.seq, PrefixCode.block, net32, if_pos h,
    Option.bind_some]
  split_ifs <;> rfl

/-! ## Checked reads -/

/-- Why there is no result. -/
inductive ReadError
  /-- An exception is thrown. -/
  | thrown (message : String)
  /-- Something is read past the end, which is undefined. -/
  | pastEnd
  deriving DecidableEq, Repr

/-- `if (condition) throw std::runtime_error(message);` -/
def throwIf (condition : Bool) (message : String) : Except ReadError Unit :=
  if condition then .error (.thrown message) else .ok ()

/-- `data[offset]` -/
def byteAt (data : Bytes) (offset : ℕ) : Except ReadError UInt8 :=
  match data[offset]? with
  | some b => .ok b
  | none => .error .pastEnd

/-- The `size` bytes from `data.data() + offset`. -/
def bytesAt (data : Bytes) (offset size : ℕ) : Except ReadError Bytes :=
  if offset + size ≤ data.length then .ok ((data.drop offset).take size) else .error .pastEnd

section Reads

variable {α : Type} {message : String}

@[simp] theorem throwIf_false_bind (f : Unit → Except ReadError α) :
    (throwIf false message >>= f) = f () := rfl

@[simp] theorem ok_bind {ε β : Type} (a : α) (f : α → Except ε β) : (Except.ok a >>= f) = f a := rfl

theorem bytesAt_of_le {data : Bytes} {offset size : ℕ} (h : offset + size ≤ data.length) :
    bytesAt data offset size = .ok ((data.drop offset).take size) :=
  if_pos h

end Reads

end PushService
