import Mathlib.Data.List.Basic
import Mathlib.Data.UInt

/-!
# Byte strings and network byte order

`Bytes` stands for `std::string` and `std::vector<uint8_t>` alike. A `uint32_t` goes on the wire as
`htonl` followed by a `memcpy` of its four bytes, that is, most significant byte first, whatever
the byte order of the host.
-/

namespace PushService

/-- A byte string. -/
abbrev Bytes := List UInt8

/-- `htonl`, then `memcpy` of the four bytes. -/
def netBytes (n : UInt32) : Bytes :=
  [UInt8.ofNat (n.toNat / 2 ^ 24), UInt8.ofNat (n.toNat / 2 ^ 16), UInt8.ofNat (n.toNat / 2 ^ 8),
    UInt8.ofNat n.toNat]

/-- `memcpy` of the first four bytes, then `ntohl`. Callers check first that there are four. -/
def readNet : Bytes → UInt32
  | b₀ :: b₁ :: b₂ :: b₃ :: _ =>
    UInt32.ofNat (b₀.toNat * 2 ^ 24 + b₁.toNat * 2 ^ 16 + b₂.toNat * 2 ^ 8 + b₃.toNat)
  | _ => 0

@[simp] theorem length_netBytes (n : UInt32) : (netBytes n).length = 4 := rfl

/-- Writing and reading back. -/
@[simp] theorem readNet_netBytes (n : UInt32) (rest : Bytes) :
    readNet (netBytes n ++ rest) = n := by
  have hn := n.toNat_lt
  rw [← UInt32.toNat_inj]
  simp only [netBytes, readNet, List.cons_append, List.nil_append, UInt8.toNat_ofNat',
    UInt32.toNat_ofNat']
  omega

/-- Only the first four bytes are read. -/
theorem readNet_append {b : Bytes} (h : 4 ≤ b.length) (rest : Bytes) :
    readNet (b ++ rest) = readNet b := by
  match b, h with
  | b₀ :: b₁ :: b₂ :: b₃ :: b, _ => rfl

end PushService
