import PushService.Hash.MurmurHash3

/-!
# MurmurHash3, block by block

What the three functions compute on memory that holds the whole key: a block hash of the key. The
pointers, the counter that runs from minus the number of blocks, the two loops and the cases of the
`switch` are gone here. Then: none of their operations loses information.
-/

namespace PushService.MurmurHash3

open Function Words

variable {w : ℕ} {σ τ : Type*} {data t key : Bytes} {i j n p : ℕ}

/-! ## What is read -/

theorem byteAt_natCast (data : Bytes) (i : ℕ) : byteAt data i = data[i]? := by
  rw [byteAt, if_pos (Int.natCast_nonneg i), Int.toNat_natCast]

theorem bytesAt_eq (h : p + n ≤ data.length) : bytesAt data p n = some ((data.drop p).take n) := by
  induction n generalizing p with
  | zero => simp [bytesAt]
  | succ n ih =>
    have hlt : p < data.length := by omega
    have hrest : bytesAt data (p + 1) n = some ((data.drop (p + 1)).take n) := by
      exact_mod_cast ih (p := p + 1) (by omega)
    rw [bytesAt, byteAt_natCast, List.getElem?_eq_getElem hlt, hrest, List.drop_eq_getElem_cons hlt]
    rfl

theorem getblock_eq {order : ByteOrder} {blocks i : ℤ} (hp : blocks + n * i = p)
    (h : p + n ≤ data.length) :
    getblock w n order data blocks i
      = some (ofBytes w (order.lowFirst ((data.drop p).take n))) := by
  rw [getblock, hp, bytesAt_eq h, Option.map_some]

/-- A byte put above the others. -/
theorem ofBytes_concat (w : ℕ) (t : Bytes) (b : UInt8) :
    ofBytes w (t ++ [b]) = ofBytes w t ^^^ BitVec.ofNat w b.toNat <<< (8 * t.length) := by
  have hpow : 256 ^ t.length = 2 ^ (8 * t.length) := by rw [pow_mul]; rfl
  have hlt : Nat.ofDigits 256 (t.map UInt8.toNat) < 2 ^ (8 * t.length) := hpow ▸ ofDigits_lt t
  have hsum : Nat.ofDigits 256 ((t ++ [b]).map UInt8.toNat)
      = 2 ^ (8 * t.length) * b.toNat + Nat.ofDigits 256 (t.map UInt8.toNat) := by
    rw [List.map_append, Nat.ofDigits_append, List.length_map, hpow, add_comm]
    simp
  refine BitVec.eq_of_getLsbD_eq fun i hi ↦ ?_
  rw [ofBytes, ofBytes, BitVec.getLsbD_xor, BitVec.getLsbD_ofNat, BitVec.getLsbD_ofNat,
    BitVec.getLsbD_shiftLeft, BitVec.getLsbD_ofNat, hsum, Nat.testBit_two_pow_mul_add _ hlt]
  by_cases hlow : i < 8 * t.length
  · simp [hi, hlow]
  · rw [Nat.testBit_lt_two_pow (hlt.trans_le (Nat.pow_le_pow_right (by decide) (by omega)))]
    have : i - 8 * t.length < w := by omega
    simp [hi, hlow, this]

/-- The `switch` puts the bytes together, the lowest first, in whatever order it reads them. -/
theorem xorBytes_eq (ht : (data.drop p).take n = t) (hn : t.length = n) (k : BitVec w) :
    xorBytes data p n k = some (k ^^^ ofBytes w t) := by
  induction n generalizing t k with
  | zero =>
    rw [List.length_eq_zero_iff.mp hn]
    simp [xorBytes, ofBytes]
  | succ n ih =>
    have hlen : n < (data.drop p).length := by
      have := ht ▸ hn
      rw [List.length_take] at this
      omega
    have hget : data[p + n]? = some (data.drop p)[n] := by
      rw [← List.getElem?_drop, List.getElem?_eq_getElem hlen]
    have hshort : ((data.drop p).take n).length = n := by
      rw [List.length_take]
      omega
    have hbyte : byteAt data (p + n) = some (data.drop p)[n] := by
      exact_mod_cast (byteAt_natCast data (p + n)).trans hget
    rw [List.take_succ_eq_append_getElem hlen] at ht
    rw [xorBytes, hbyte, ← ht, ofBytes_concat, hshort]
    exact (ih rfl hshort _).trans (by rw [BitVec.xor_assoc, BitVec.xor_comm (ofBytes w _)])

/-- The way of the bytes of one word into the state. -/
def mixInto (mix : BitVec w → BitVec w) (t : Bytes) (h : BitVec w) : BitVec w :=
  if t = [] then h else h ^^^ mix (ofBytes w t)

/-- The bytes `lo` to `hi` of what is left. -/
def part (lo hi : ℕ) (t : Bytes) : Bytes := (t.take hi).drop lo

theorem tailInto_eq (mix : BitVec w → BitVec w) (h : BitVec w) {r lo hi : ℕ} (hlohi : lo < hi)
    (ht : (data.drop p).take r = t) (hr : t.length = r) :
    tailInto data p r lo hi mix h = some (mixInto mix (part lo hi t) h) := by
  have hlen : (part lo hi t).length = min r hi - lo := by
    rw [part, List.length_drop, List.length_take, hr, min_comm]
  by_cases hlo : lo < r
  · have hbytes : (data.drop (p + lo)).take (min r hi - lo) = part lo hi t := by
      rw [part, ← ht, List.take_take, List.drop_take, List.drop_drop, min_comm]
    have hpart : part lo hi t ≠ [] := List.ne_nil_of_length_pos (by omega)
    have hread : xorBytes data (p + lo) (min r hi - lo) 0 = some (ofBytes w (part lo hi t)) := by
      exact_mod_cast (xorBytes_eq hbytes hlen 0).trans (by simp)
    rw [tailInto, if_pos hlo, mixInto, if_neg hpart, hread]
    rfl
  · have hpart : part lo hi t = [] := List.length_eq_zero_iff.mp (by omega)
    rw [tailInto, if_neg hlo, mixInto, if_pos hpart]

/-! ## The loops -/

section Loops

variable {H : BlockHash UInt8 σ τ} {body : ℤ → σ → Option σ}

theorem untilZero_eq (hn : n < 2 ^ 31) (s : σ)
    (hbody : ∀ k < n, ∀ h, body (k - n) h = some (H.step h (H.block k key))) :
    untilZero body (-n) s = some (H.eat s n key) := by
  induction n generalizing key s with
  | zero => rw [untilZero]; rfl
  | succ n ih =>
    have hfirst : body (-(n + 1 : ℕ)) s = some (H.step s (key.take H.size)) := by
      have := hbody 0 (Nat.succ_pos n) s
      rwa [BlockHash.block_zero, Nat.cast_zero, zero_sub] at this
    have hnext : (-(n + 1 : ℕ) + 1 : ℤ) = -n := by omega
    rw [untilZero, if_neg (by omega), hfirst, hnext, BlockHash.eat]
    refine (if_pos (by omega)).trans (ih (by omega) _ fun k hk h ↦ ?_)
    have := hbody (k + 1) (by omega) h
    rwa [BlockHash.block_succ, show ((k + 1 : ℕ) - (n + 1 : ℕ) : ℤ) = k - n by omega] at this

theorem upTo_eq (s : σ) (hbody : ∀ k < n, ∀ h, body (j + k) h = some (H.step h (H.block k key))) :
    upTo (j + n) body j s = some (H.eat s n key) := by
  induction n generalizing key s j with
  | zero => rw [upTo, if_neg (by omega)]; rfl
  | succ n ih =>
    have hfirst : body j s = some (H.step s (key.take H.size)) := by
      have := hbody 0 (Nat.succ_pos n) s
      rwa [BlockHash.block_zero, Nat.cast_zero, add_zero] at this
    rw [upTo, if_pos (by omega), hfirst, BlockHash.eat]
    have hlater : ∀ k < n, ∀ h,
        body ((j + 1 : ℕ) + k) h = some (H.step h (H.block k (key.drop H.size))) := by
      intro k hk h
      have := hbody (k + 1) (by omega) h
      rwa [BlockHash.block_succ, show (j + (k + 1 : ℕ) : ℤ) = (j + 1 : ℕ) + k by omega] at this
    have hrest := ih (H.step s (key.take H.size)) hlater
    rwa [show ((j + 1 : ℕ) + n : ℤ) = j + (n + 1 : ℕ) by omega] at hrest

end Loops

/-! ## The three functions as block hashes -/

/-- The word with number `j` of a block. -/
def word (w n : ℕ) (order : ByteOrder) (j : ℕ) (b : Bytes) : BitVec w :=
  ofBytes w (order.lowFirst ((b.drop (n * j)).take n))

def x86_32 (order : ByteOrder) : BlockHash UInt8 (BitVec 32) (BitVec 32) where
  size := 4
  size_pos := by decide
  step h1 b := X86_32.body h1 (word 32 4 order 0 b)
  last h1 t := mixInto X86_32.mixK1 (part 0 4 t) h1
  finish n h1 := fmix32 (h1 ^^^ BitVec.ofNat 32 n)

def x86_128 (order : ByteOrder) : BlockHash UInt8 X86_128.State X86_128.State where
  size := 16
  size_pos := by decide
  step h b := X86_128.body h (word 32 4 order 0 b) (word 32 4 order 1 b) (word 32 4 order 2 b)
    (word 32 4 order 3 b)
  last h t := ⟨mixInto X86_128.mixK1 (part 0 4 t) h.h1, mixInto X86_128.mixK2 (part 4 8 t) h.h2,
    mixInto X86_128.mixK3 (part 8 12 t) h.h3, mixInto X86_128.mixK4 (part 12 16 t) h.h4⟩
  finish n h := X86_128.finalize (BitVec.ofNat 32 n) h

def x64_128 (order : ByteOrder) : BlockHash UInt8 X64_128.State X64_128.State where
  size := 16
  size_pos := by decide
  step h b := X64_128.body h (word 64 8 order 0 b) (word 64 8 order 1 b)
  last h t := ⟨mixInto X64_128.mixK1 (part 0 8 t) h.h1, mixInto X64_128.mixK2 (part 8 16 t) h.h2⟩
  finish n h := X64_128.finalize (BitVec.ofNat 64 n) h

section Refinement

variable {H : BlockHash UInt8 σ τ} {order : ByteOrder} {k m : ℕ}

/-- A word of a block of the key, read from the memory. -/
theorem getblock_word {blocks i : ℤ} (hi : blocks + m * i = (H.size * k + m * j : ℕ))
    (hj : m * (j + 1) ≤ H.size) (hk : k < n / H.size) (hn : n ≤ data.length) :
    getblock w m order data blocks i = some (word w m order j (H.block k (data.take n))) := by
  have hle : H.size * (k + 1) ≤ n := (Nat.mul_le_mul_left _ hk).trans (Nat.mul_div_le _ _)
  have hbytes : ((H.block k (data.take n)).drop (m * j)).take m
      = (data.drop (H.size * k + m * j)).take m := by
    rw [Nat.mul_add_one] at hj
    rw [BlockHash.block_take_of_lt hle, BlockHash.block, List.drop_take, List.take_take,
      List.drop_drop, min_eq_left (by omega)]
  rw [Nat.mul_add_one] at hj hle
  rw [getblock_eq hi (by omega), word, hbytes]

/-- What is left after the full blocks, read from the memory. -/
theorem tailInto_rest (mix : BitVec w → BitVec w) (h : BitVec w) {tail : ℤ} {lo hi : ℕ}
    (hlohi : lo < hi) (htail : tail = (H.size * (n / H.size) : ℕ)) (hn : n ≤ data.length) :
    tailInto data tail (n % H.size) lo hi mix h
      = some (mixInto mix (part lo hi (H.block (n / H.size) (data.take n))) h) := by
  have hlt := Nat.mod_lt n H.size_pos
  have hdiv := Nat.div_add_mod n H.size
  have hblock : H.block (n / H.size) (data.take n)
      = (data.drop (H.size * (n / H.size))).take (n % H.size) := by
    rw [BlockHash.block, List.drop_take, List.take_take, min_eq_right (by omega),
      show n - H.size * (n / H.size) = n % H.size by omega]
  have hlen : (H.block (n / H.size) (data.take n)).length = n % H.size := by
    rw [hblock, List.length_take, List.length_drop]
    omega
  rw [htail]
  exact tailInto_eq mix h hlohi hblock.symm hlen

theorem hash_take (s : σ) (hn : n ≤ data.length) :
    H.hash s (data.take n) = H.finish n
      (H.last (H.eat s (n / H.size) (data.take n)) (H.block (n / H.size) (data.take n))) := by
  rw [BlockHash.hash, List.length_take, min_eq_left hn]

end Refinement

/-- **The code computes the block hash of the first `n` bytes of its memory**: every read stays
inside them, and the counter stops at zero. -/
theorem murmurHash3_x86_32_eq (order : ByteOrder) (seed : BitVec 32) (hn : n ≤ data.length)
    (hint : n < 2 ^ 31) :
    murmurHash3_x86_32 order data n seed = some ((x86_32 order).hash seed (data.take n)) := by
  have hdiv : (n : ℤ).tdiv 4 = (n / 4 : ℕ) := rfl
  have hmod : ((n : ℤ) % 4).toNat = n % 4 := by omega
  have htail : ((n / 4 : ℕ) * 4 : ℤ) = (4 * (n / 4) : ℕ) := by omega
  have hread : ∀ k < n / 4, ∀ h1 : BitVec 32,
      X86_32.readBody order data ((n / 4 : ℕ) * 4) (k - (n / 4 : ℕ)) h1
        = some ((x86_32 order).step h1 ((x86_32 order).block k (data.take n))) := by
    intro k hk h1
    have hi : ((n / 4 : ℕ) * 4 + (4 : ℕ) * (k - (n / 4 : ℕ)) : ℤ) = (4 * k + 4 * 0 : ℕ) := by
      push_cast
      ring
    rw [X86_32.readBody, getblock32, getblock_word (H := x86_32 order) hi (le_refl 4) hk hn]
    rfl
  have hpart : ∀ h1, tailInto data ((n / 4 : ℕ) * 4) (n % 4) 0 4 X86_32.mixK1 h1
      = some ((x86_32 order).last h1 ((x86_32 order).block (n / 4) (data.take n))) := fun h1 ↦
    tailInto_rest (H := x86_32 order) X86_32.mixK1 h1 (by decide) htail hn
  rw [murmurHash3_x86_32, hdiv, hmod, hash_take seed hn]
  simp only [untilZero_eq (n := n / 4) (by omega) seed hread, hpart, Option.bind_eq_bind,
    Option.bind_some]
  rfl

theorem murmurHash3_x86_128_eq (order : ByteOrder) (seed : BitVec 32) (hn : n ≤ data.length)
    (hint : n < 2 ^ 31) :
    murmurHash3_x86_128 order data n seed
      = some ((x86_128 order).hash ⟨seed, seed, seed, seed⟩ (data.take n)) := by
  have hdiv : (n : ℤ).tdiv 16 = (n / 16 : ℕ) := rfl
  have hmod : ((n : ℤ) % 16).toNat = n % 16 := by omega
  have htail : ((n / 16 : ℕ) * 16 : ℤ) = (16 * (n / 16) : ℕ) := by omega
  have hread : ∀ k < n / 16, ∀ h,
      X86_128.readBody order data ((n / 16 : ℕ) * 16) (k - (n / 16 : ℕ)) h
        = some ((x86_128 order).step h ((x86_128 order).block k (data.take n))) := by
    intro k hk h
    have hword : ∀ j : ℕ, j < 4 →
        getblock32 order data ((n / 16 : ℕ) * 16) ((k - (n / 16 : ℕ)) * 4 + j)
          = some (word 32 4 order j ((x86_128 order).block k (data.take n))) := by
      intro j hj
      refine getblock_word (H := x86_128 order) ?_ (show 4 * (j + 1) ≤ 16 by omega) hk hn
      show ((n / 16 : ℕ) * 16 + (4 : ℕ) * ((k - (n / 16 : ℕ)) * 4 + j) : ℤ) = (16 * k + 4 * j : ℕ)
      push_cast
      ring
    have h0 := hword 0 (by decide)
    have h1 := hword 1 (by decide)
    have h2 := hword 2 (by decide)
    have h3 := hword 3 (by decide)
    push_cast at h0 h1 h2 h3
    rw [X86_128.readBody]
    push_cast
    rw [h0, h1, h2, h3]
    rfl
  have hpart : ∀ (mix : BitVec 32 → BitVec 32) (h : BitVec 32) (lo hi : ℕ), lo < hi →
      tailInto data ((n / 16 : ℕ) * 16) (n % 16) lo hi mix h
        = some (mixInto mix (part lo hi ((x86_128 order).block (n / 16) (data.take n))) h) :=
    fun mix h lo hi hlohi ↦ tailInto_rest (H := x86_128 order) mix h hlohi htail hn
  rw [murmurHash3_x86_128, hdiv, hmod, hash_take _ hn]
  simp only [untilZero_eq (n := n / 16) (by omega) _ hread, Option.bind_eq_bind, Option.bind_some,
    hpart _ _ 12 16 (by decide), hpart _ _ 8 12 (by decide), hpart _ _ 4 8 (by decide),
    hpart _ _ 0 4 (by decide)]
  rfl

theorem murmurHash3_x64_128_eq (order : ByteOrder) (seed : BitVec 32) (hn : n ≤ data.length) :
    murmurHash3_x64_128 order data n seed
      = some ((x64_128 order).hash ⟨seed.setWidth 64, seed.setWidth 64⟩ (data.take n)) := by
  have hdiv : (n : ℤ).tdiv 16 = (n / 16 : ℕ) := rfl
  have hmod : ((n : ℤ) % 16).toNat = n % 16 := by omega
  have htail : ((n / 16 : ℕ) * 16 : ℤ) = (16 * (n / 16) : ℕ) := by omega
  have hread : ∀ k < n / 16, ∀ h,
      X64_128.readBody order data 0 ((0 : ℕ) + k) h
        = some ((x64_128 order).step h ((x64_128 order).block k (data.take n))) := by
    intro k hk h
    have hword : ∀ j : ℕ, j < 2 →
        getblock64 order data 0 (((0 : ℕ) + k) * 2 + j)
          = some (word 64 8 order j ((x64_128 order).block k (data.take n))) := by
      intro j hj
      refine getblock_word (H := x64_128 order) ?_ (show 8 * (j + 1) ≤ 16 by omega) hk hn
      show (0 + (8 : ℕ) * (((0 : ℕ) + k) * 2 + j) : ℤ) = (16 * k + 8 * j : ℕ)
      push_cast
      ring
    have h0 := hword 0 (by decide)
    have h1 := hword 1 (by decide)
    push_cast at h0 h1
    rw [X64_128.readBody]
    push_cast
    rw [h0, h1]
    rfl
  have hpart : ∀ (mix : BitVec 64 → BitVec 64) (h : BitVec 64) (lo hi : ℕ), lo < hi →
      tailInto data ((n / 16 : ℕ) * 16) (n % 16) lo hi mix h
        = some (mixInto mix (part lo hi ((x64_128 order).block (n / 16) (data.take n))) h) :=
    fun mix h lo hi hlohi ↦ tailInto_rest (H := x64_128 order) mix h hlohi htail hn
  have hloop := upTo_eq (n := n / 16) (j := 0) ⟨seed.setWidth 64, seed.setWidth 64⟩ hread
  rw [Nat.cast_zero, zero_add] at hloop
  rw [murmurHash3_x64_128, hdiv, hmod, hash_take _ hn]
  simp only [hloop, Option.bind_eq_bind, Option.bind_some, hpart _ _ 8 16 (by decide),
    hpart _ _ 0 8 (by decide)]
  rfl

/-! ## Nothing is lost -/

theorem mixKey_injective {c c' : BitVec w} {r : ℕ} (hr : r < w) (hc : c.toNat % 2 = 1)
    (hc' : c'.toNat % 2 = 1) : Injective (mixKey c r c') :=
  (mul_injective hc').comp ((rotl_injective hr).comp (mul_injective hc))

theorem fmix32_injective : Injective fmix32 :=
  (xorShift_injective (by decide)).comp ((mul_injective (by decide)).comp
    ((xorShift_injective (by decide)).comp ((mul_injective (by decide)).comp
      (xorShift_injective (by decide)))))

theorem fmix64_injective : Injective fmix64 :=
  (xorShift_injective (by decide)).comp ((mul_injective (by decide)).comp
    ((xorShift_injective (by decide)).comp ((mul_injective (by decide)).comp
      (xorShift_injective (by decide)))))

/-- One word of the state in a round can be told from the result by who knows the others. -/
theorem lane_injective {r : ℕ} (hr : r < w) (hodd : (5 : BitVec w).toNat % 2 = 1) (x d : BitVec w) :
    Injective fun h : BitVec w ↦ (rotl h r + x) * 5 + d :=
  (affine_injective hodd d).comp ((add_injective x).comp (rotl_injective hr))

theorem mixInto_injective (mix : BitVec w → BitVec w) (t : Bytes) : Injective (mixInto mix t) := by
  intro h h' heq
  by_cases ht : t = []
  · simpa [mixInto, ht] using heq
  · rw [mixInto, if_neg ht, mixInto, if_neg ht] at heq
    exact xor_injective _ heq

theorem mixInto_inj {mix : BitVec w → BitVec w} (hmix : Injective mix) {t t' : Bytes} {h : BitVec w}
    (hlen : t.length = t'.length) (hfit : 8 * t.length ≤ w)
    (heq : mixInto mix t h = mixInto mix t' h) :
    t = t' := by
  by_cases ht : t = []
  · rw [ht, List.length_nil] at hlen
    rw [ht, List.length_eq_zero_iff.mp hlen.symm]
  · have ht' : t' ≠ [] := by rintro rfl; exact ht (List.length_eq_zero_iff.mp hlen)
    rw [mixInto, if_neg ht, mixInto, if_neg ht'] at heq
    exact ofBytes_inj hlen hfit (hmix (xor_left_injective h heq))

/-- What is left of a key is determined by the parts that go into the words of the state. -/
theorem eq_of_part_eq {m q : ℕ} (hm : 0 < m) (hlen : t.length ≤ m * q) (hlen' : key.length ≤ m * q)
    (h : ∀ j < q, part (m * j) (m * (j + 1)) t = part (m * j) (m * (j + 1)) key) : t = key := by
  refine BlockHash.eq_of_pieces_eq hm fun j ↦ ?_
  obtain hj | hj := Nat.lt_or_ge j q
  · have hpart := h j hj
    rwa [part, part, List.drop_take, List.drop_take, Nat.mul_add_one,
      Nat.add_sub_cancel_left] at hpart
  · have hle := Nat.mul_le_mul_left m hj
    rw [List.drop_of_length_le (hlen.trans hle), List.drop_of_length_le (hlen'.trans hle)]

theorem length_part {lo hi : ℕ} : (part lo hi t).length = min hi t.length - lo := by
  rw [part, List.length_drop, List.length_take]

/-- A block is determined by its words. -/
theorem eq_of_word_eq {m q : ℕ} (order : ByteOrder) (hm : 0 < m) (hfit : 8 * m ≤ w)
    (hlen : t.length = m * q) (hlen' : key.length = m * q)
    (h : ∀ j < q, word w m order j t = word w m order j key) : t = key := by
  refine BlockHash.eq_of_pieces_eq hm fun j ↦ ?_
  obtain hj | hj := Nat.lt_or_ge j q
  · have hle : m * (j + 1) ≤ m * q := Nat.mul_le_mul_left m hj
    rw [Nat.mul_add_one] at hle
    refine order.lowFirst_injective (ofBytes_inj ?_ ?_ (h j hj))
    · rw [ByteOrder.length_lowFirst, ByteOrder.length_lowFirst, List.length_take, List.length_take,
        List.length_drop, List.length_drop, hlen, hlen']
    · rw [ByteOrder.length_lowFirst, List.length_take]
      exact (Nat.mul_le_mul_left 8 (min_le_left _ _)).trans hfit
  · have hle := Nat.mul_le_mul_left m hj
    rw [List.drop_of_length_le (hlen.trans_le hle), List.drop_of_length_le (hlen'.trans_le hle)]

/-- Words in a row, each written as it stands in memory. -/
def blockOf (n : ℕ) (order : ByteOrder) (words : List (BitVec w)) : Bytes :=
  words.flatMap fun k ↦ order.lowFirst (toBytes n k.toNat)

theorem length_blockOf (n : ℕ) (order : ByteOrder) (words : List (BitVec w)) :
    (blockOf n order words).length = n * words.length := by
  induction words with
  | nil => rfl
  | cons k words ih =>
    rw [blockOf, List.flatMap_cons, List.length_append, ByteOrder.length_lowFirst, length_toBytes,
      ← blockOf, ih, List.length_cons, Nat.mul_add_one, Nat.add_comm]

theorem word_blockOf (hn : 8 * n = w) (order : ByteOrder) (words : List (BitVec w))
    (hj : j < words.length) : word w n order j (blockOf n order words) = words[j] := by
  induction words generalizing j with
  | nil => exact absurd hj (Nat.not_lt_zero j)
  | cons k words ih =>
    have hlen : (order.lowFirst (toBytes n k.toNat)).length = n := by simp
    rw [blockOf, List.flatMap_cons, ← blockOf]
    cases j with
    | zero =>
      rw [word, Nat.mul_zero, List.drop_zero, List.take_left' hlen, ByteOrder.lowFirst_lowFirst,
        ofBytes_toBytes hn]
      rfl
    | succ j =>
      rw [word, Nat.mul_add_one, Nat.add_comm, ← List.drop_drop, List.drop_left' hlen]
      exact ih (Nat.lt_of_succ_lt_succ hj)

/-! ### `MurmurHash3_x86_32` -/

theorem X86_32.mixK1_injective : Injective X86_32.mixK1 :=
  mixKey_injective (by decide) (by decide) (by decide)

theorem X86_32.body_injective (k1 : BitVec 32) : Injective fun h1 ↦ X86_32.body h1 k1 :=
  (affine_injective (by decide) _).comp ((rotl_injective (by decide)).comp (xor_injective _))

theorem X86_32.body_inj (h1 : BitVec 32) : Injective (X86_32.body h1) :=
  (affine_injective (by decide) _).comp ((rotl_injective (by decide)).comp
    ((xor_left_injective h1).comp X86_32.mixK1_injective))

theorem onto_x86_32 (order : ByteOrder) : (x86_32 order).Onto where
  step_state b := X86_32.body_injective _
  step_block s {b b'} hb hb' h := eq_of_word_eq (w := 32) (m := 4) (q := 1) order (by decide)
    (by decide) hb hb' fun j hj ↦ by
      obtain rfl : j = 0 := by omega
      exact X86_32.body_inj s h
  last_state t := mixInto_injective _ _
  last_rest s {t t'} hlen ht h := by
    have hpart : part 0 4 t = part 0 4 t' := by
      refine mixInto_inj X86_32.mixK1_injective ?_ ?_ h
      · rw [length_part, length_part, hlen]
      · rw [length_part]
        omega
    change t.length < 4 at ht
    refine eq_of_part_eq (m := 4) (q := 1) (by decide) (by omega) (by omega) fun j hj ↦ ?_
    obtain rfl : j = 0 := by omega
    exact hpart
  finish n := fmix32_injective.comp (xor_injective _)
  step_onto s s' := by
    obtain ⟨k1, hk1⟩ := Finite.surjective_of_injective (X86_32.body_inj s) s'
    refine ⟨blockOf 4 order [k1], length_blockOf 4 order [k1], ?_⟩
    change X86_32.body s (word 32 4 order 0 _) = s'
    rw [word_blockOf (n := 4) (j := 0) rfl order [k1] (by simp)]
    exact hk1
  finish_onto n := Finite.surjective_of_injective (fmix32_injective.comp (xor_injective _))

/-! ### `MurmurHash3_x86_128` -/

namespace X86_128

instance finiteState : Finite State :=
  Finite.of_injective (fun h : State ↦ (h.h1, h.h2, h.h3, h.h4)) fun h h' heq ↦ by
    simp only [Prod.mk.injEq] at heq
    exact State.ext heq.1 heq.2.1 heq.2.2.1 heq.2.2.2

theorem mix_injective : Injective mixK1 ∧ Injective mixK2 ∧ Injective mixK3 ∧ Injective mixK4 := by
  refine ⟨?_, ?_, ?_, ?_⟩
  all_goals exact mixKey_injective (by decide) (by decide) (by decide)

/-- Backwards through a round: the last word first, since the others were mixed with old ones. -/
theorem body_injective (k1 k2 k3 k4 : BitVec 32) : Injective fun h ↦ body h k1 k2 k3 k4 := by
  intro h h' heq
  obtain ⟨heq1, heq2, heq3, heq4⟩ := State.mk.inj heq
  rw [heq1] at heq4
  have h4 : h.h4 = h'.h4 := xor_injective _ (lane_injective (by decide) (by decide) _ _ heq4)
  rw [h4] at heq3
  have h3 : h.h3 = h'.h3 := xor_injective _ (lane_injective (by decide) (by decide) _ _ heq3)
  rw [h3] at heq2
  have h2 : h.h2 = h'.h2 := xor_injective _ (lane_injective (by decide) (by decide) _ _ heq2)
  rw [h2] at heq1
  have h1 : h.h1 = h'.h1 := xor_injective _ (lane_injective (by decide) (by decide) _ _ heq1)
  exact State.ext h1 h2 h3 h4

/-- The words of a block can be told from the state before and after it. -/
theorem body_inj (h : State) {k1 k2 k3 k4 k1' k2' k3' k4' : BitVec 32}
    (heq : body h k1 k2 k3 k4 = body h k1' k2' k3' k4') :
    k1 = k1' ∧ k2 = k2' ∧ k3 = k3' ∧ k4 = k4' := by
  obtain ⟨heq1, heq2, heq3, heq4⟩ := State.mk.inj heq
  rw [heq1] at heq4
  obtain ⟨hmix1, hmix2, hmix3, hmix4⟩ := mix_injective
  exact ⟨hmix1 (xor_left_injective _ (lane_injective (by decide) (by decide) _ _ heq1)),
    hmix2 (xor_left_injective _ (lane_injective (by decide) (by decide) _ _ heq2)),
    hmix3 (xor_left_injective _ (lane_injective (by decide) (by decide) _ _ heq3)),
    hmix4 (xor_left_injective _ (lane_injective (by decide) (by decide) _ _ heq4))⟩

theorem addUp_injective : Injective addUp := by
  intro h h' heq
  obtain ⟨heq1, heq2, heq3, heq4⟩ := State.mk.inj heq
  rw [heq1] at heq2 heq3 heq4
  have h2 : h.h2 = h'.h2 := add_injective _ heq2
  have h3 : h.h3 = h'.h3 := add_injective _ heq3
  have h4 : h.h4 = h'.h4 := add_injective _ heq4
  rw [h2, h3, h4] at heq1
  exact State.ext (add_injective _ (add_injective _ (add_injective _ heq1))) h2 h3 h4

theorem map_injective {f : BitVec 32 → BitVec 32} (hf : Injective f) : Injective (map f) := by
  intro h h' heq
  obtain ⟨heq1, heq2, heq3, heq4⟩ := State.mk.inj heq
  exact State.ext (hf heq1) (hf heq2) (hf heq3) (hf heq4)

theorem finalize_injective (len : BitVec 32) : Injective (finalize len) :=
  addUp_injective.comp ((map_injective fmix32_injective).comp
    (addUp_injective.comp (map_injective (xor_injective len))))

end X86_128

theorem onto_x86_128 (order : ByteOrder) : (x86_128 order).Onto where
  step_state b := X86_128.body_injective _ _ _ _
  step_block s {b b'} hb hb' h := by
    obtain ⟨h0, h1, h2, h3⟩ := X86_128.body_inj s h
    refine eq_of_word_eq (w := 32) (m := 4) (q := 4) order (by decide) (by decide) hb hb'
      fun j hj ↦ ?_
    match j, hj with
    | 0, _ => exact h0
    | 1, _ => exact h1
    | 2, _ => exact h2
    | 3, _ => exact h3
  last_state t := by
    intro h h' heq
    obtain ⟨heq1, heq2, heq3, heq4⟩ := X86_128.State.mk.inj heq
    exact X86_128.State.ext (mixInto_injective _ _ heq1) (mixInto_injective _ _ heq2)
      (mixInto_injective _ _ heq3) (mixInto_injective _ _ heq4)
  last_rest s {t t'} hlen ht h := by
    obtain ⟨heq1, heq2, heq3, heq4⟩ := X86_128.State.mk.inj h
    obtain ⟨hmix1, hmix2, hmix3, hmix4⟩ := X86_128.mix_injective
    change t.length < 16 at ht
    have hpart : ∀ lo hi, (part lo hi t).length = (part lo hi t').length := fun lo hi ↦ by
      rw [length_part, length_part, hlen]
    have hfit : ∀ lo, 8 * (part lo (lo + 4) t).length ≤ 32 := fun lo ↦ by
      rw [length_part]
      omega
    refine eq_of_part_eq (m := 4) (q := 4) (by decide) (by omega) (by omega) fun j hj ↦ ?_
    match j, hj with
    | 0, _ => exact mixInto_inj hmix1 (hpart _ _) (hfit 0) heq1
    | 1, _ => exact mixInto_inj hmix2 (hpart _ _) (hfit 4) heq2
    | 2, _ => exact mixInto_inj hmix3 (hpart _ _) (hfit 8) heq3
    | 3, _ => exact mixInto_inj hmix4 (hpart _ _) (hfit 12) heq4
  finish n := X86_128.finalize_injective _
  step_onto s s' := by
    have hinj : Injective fun k : X86_128.State ↦ X86_128.body s k.h1 k.h2 k.h3 k.h4 :=
      fun k k' heq ↦ by
        obtain ⟨h1, h2, h3, h4⟩ := X86_128.body_inj s heq
        exact X86_128.State.ext h1 h2 h3 h4
    obtain ⟨k, hk⟩ := Finite.surjective_of_injective hinj s'
    have hword := fun j hj ↦ word_blockOf (n := 4) (j := j) rfl order [k.h1, k.h2, k.h3, k.h4] hj
    refine ⟨blockOf 4 order [k.h1, k.h2, k.h3, k.h4], length_blockOf 4 order _, ?_⟩
    change X86_128.body s (word 32 4 order 0 _) (word 32 4 order 1 _) (word 32 4 order 2 _)
      (word 32 4 order 3 _) = s'
    rw [hword 0 (by simp), hword 1 (by simp), hword 2 (by simp), hword 3 (by simp)]
    exact hk
  finish_onto n := Finite.surjective_of_injective (X86_128.finalize_injective _)

/-! ### `MurmurHash3_x64_128` -/

namespace X64_128

instance finiteState : Finite State :=
  Finite.of_injective (fun h : State ↦ (h.h1, h.h2)) fun h h' heq ↦ by
    simp only [Prod.mk.injEq] at heq
    exact State.ext heq.1 heq.2

theorem mix_injective : Injective mixK1 ∧ Injective mixK2 := by
  refine ⟨?_, ?_⟩
  all_goals exact mixKey_injective (by decide) (by decide) (by decide)

theorem body_injective (k1 k2 : BitVec 64) : Injective fun h ↦ body h k1 k2 := by
  intro h h' heq
  obtain ⟨heq1, heq2⟩ := State.mk.inj heq
  rw [heq1] at heq2
  have h2 : h.h2 = h'.h2 := xor_injective _ (lane_injective (by decide) (by decide) _ _ heq2)
  rw [h2] at heq1
  exact State.ext (xor_injective _ (lane_injective (by decide) (by decide) _ _ heq1)) h2

theorem body_inj (h : State) {k1 k2 k1' k2' : BitVec 64} (heq : body h k1 k2 = body h k1' k2') :
    k1 = k1' ∧ k2 = k2' := by
  obtain ⟨heq1, heq2⟩ := State.mk.inj heq
  rw [heq1] at heq2
  obtain ⟨hmix1, hmix2⟩ := mix_injective
  exact ⟨hmix1 (xor_left_injective _ (lane_injective (by decide) (by decide) _ _ heq1)),
    hmix2 (xor_left_injective _ (lane_injective (by decide) (by decide) _ _ heq2))⟩

theorem addUp_injective : Injective addUp := by
  intro h h' heq
  obtain ⟨heq1, heq2⟩ := State.mk.inj heq
  rw [heq1] at heq2
  have h2 : h.h2 = h'.h2 := add_injective _ heq2
  rw [h2] at heq1
  exact State.ext (add_injective _ heq1) h2

theorem map_injective {f : BitVec 64 → BitVec 64} (hf : Injective f) : Injective (map f) := by
  intro h h' heq
  obtain ⟨heq1, heq2⟩ := State.mk.inj heq
  exact State.ext (hf heq1) (hf heq2)

theorem finalize_injective (len : BitVec 64) : Injective (finalize len) :=
  addUp_injective.comp ((map_injective fmix64_injective).comp
    (addUp_injective.comp (map_injective (xor_injective len))))

end X64_128

theorem onto_x64_128 (order : ByteOrder) : (x64_128 order).Onto where
  step_state b := X64_128.body_injective _ _
  step_block s {b b'} hb hb' h := by
    obtain ⟨h0, h1⟩ := X64_128.body_inj s h
    refine eq_of_word_eq (w := 64) (m := 8) (q := 2) order (by decide) (by decide) hb hb'
      fun j hj ↦ ?_
    match j, hj with
    | 0, _ => exact h0
    | 1, _ => exact h1
  last_state t := by
    intro h h' heq
    obtain ⟨heq1, heq2⟩ := X64_128.State.mk.inj heq
    exact X64_128.State.ext (mixInto_injective _ _ heq1) (mixInto_injective _ _ heq2)
  last_rest s {t t'} hlen ht h := by
    obtain ⟨heq1, heq2⟩ := X64_128.State.mk.inj h
    obtain ⟨hmix1, hmix2⟩ := X64_128.mix_injective
    change t.length < 16 at ht
    have hpart : ∀ lo hi, (part lo hi t).length = (part lo hi t').length := fun lo hi ↦ by
      rw [length_part, length_part, hlen]
    have hfit : ∀ lo, 8 * (part lo (lo + 8) t).length ≤ 64 := fun lo ↦ by
      rw [length_part]
      omega
    refine eq_of_part_eq (m := 8) (q := 2) (by decide) (by omega) (by omega) fun j hj ↦ ?_
    match j, hj with
    | 0, _ => exact mixInto_inj hmix1 (hpart _ _) (hfit 0) heq1
    | 1, _ => exact mixInto_inj hmix2 (hpart _ _) (hfit 8) heq2
  finish n := X64_128.finalize_injective _
  step_onto s s' := by
    have hinj : Injective fun k : X64_128.State ↦ X64_128.body s k.h1 k.h2 := fun k k' heq ↦ by
      obtain ⟨h1, h2⟩ := X64_128.body_inj s heq
      exact X64_128.State.ext h1 h2
    obtain ⟨k, hk⟩ := Finite.surjective_of_injective hinj s'
    have hword := fun j hj ↦ word_blockOf (n := 8) (j := j) rfl order [k.h1, k.h2] hj
    refine ⟨blockOf 8 order [k.h1, k.h2], length_blockOf 8 order _, ?_⟩
    change X64_128.body s (word 64 8 order 0 _) (word 64 8 order 1 _) = s'
    rw [hword 0 (by simp), hword 1 (by simp)]
    exact hk
  finish_onto n := Finite.surjective_of_injective (X64_128.finalize_injective _)

end PushService.MurmurHash3
