import Mathlib.Data.Finite.Defs
import Mathlib.Data.Fintype.EquivFin
import Mathlib.Data.List.Basic

/-!
# Hashes that read a key in blocks

A block hash carries a state through a key: one step for every full block, one for the rest, and a
last one that is given the length. When no step loses information the hash may still send two keys
to one value, but the two then differ in more than one block; and when a step takes each state to
each state, every value is taken by exactly one block, whatever stands before and after it.
-/

namespace PushService

open Function

/-- A hash of strings over `β`, read in blocks of `size` symbols. -/
structure BlockHash (β σ τ : Type*) where
  size : ℕ
  size_pos : 0 < size
  /-- Take in a full block. -/
  step : σ → List β → σ
  /-- Take in what is left, less than a block. -/
  last : σ → List β → σ
  /-- The value of a key of the given length. -/
  finish : ℕ → σ → τ

namespace BlockHash

variable {β σ τ : Type*} (H : BlockHash β σ τ)

/-- The block with number `k`. -/
def block (k : ℕ) (key : List β) : List β := (key.drop (H.size * k)).take H.size

/-- The state after the first `n` blocks. -/
def eat (s : σ) : ℕ → List β → σ
  | 0, _ => s
  | n + 1, key => eat (H.step s (key.take H.size)) n (key.drop H.size)

/-- The value of a key, from the state `s`. -/
def hash (s : σ) (key : List β) : τ :=
  H.finish key.length (H.last (H.eat s (key.length / H.size) key)
    (H.block (key.length / H.size) key))

/-! ## Blocks one after the other -/

variable {H} {s s' : σ} {a b key pre post : List β} {j k m n : ℕ}

theorem block_zero : H.block 0 key = key.take H.size := by
  rw [block, Nat.mul_zero, List.drop_zero]

theorem block_succ : H.block (k + 1) key = H.block k (key.drop H.size) := by
  rw [block, block, List.drop_drop, Nat.mul_add_one, Nat.add_comm]

/-- One block more. -/
theorem eat_succ : H.eat s (n + 1) key = H.step (H.eat s n key) (H.block n key) := by
  induction n generalizing s key with
  | zero => rw [eat, eat, eat, block_zero]
  | succ n ih => rw [eat, ih, eat, block_succ]

theorem block_drop : H.block n (key.drop (H.size * m)) = H.block (m + n) key := by
  rw [block, block, List.drop_drop, Nat.mul_add]

theorem eat_add : H.eat s (m + n) key = H.eat (H.eat s m key) n (key.drop (H.size * m)) := by
  induction n with
  | zero => rfl
  | succ n ih => rw [← Nat.add_assoc, eat_succ, eat_succ, ih, block_drop]

/-- Only the blocks that are taken in matter. -/
theorem eat_congr (h : ∀ k < n, H.block k a = H.block k b) : H.eat s n a = H.eat s n b := by
  induction n with
  | zero => rfl
  | succ n ih => rw [eat_succ, eat_succ, ih fun k hk ↦ h k (by omega), h n (by omega)]

theorem block_congr (h : ∀ i, i / H.size = k → a[i]? = b[i]?) : H.block k a = H.block k b := by
  refine List.ext_getElem? fun i ↦ ?_
  by_cases hi : i < H.size
  · have hdiv : (H.size * k + i) / H.size = k := by
      rw [Nat.mul_add_div H.size_pos, Nat.div_eq_of_lt hi, Nat.add_zero]
    simp only [block, List.getElem?_take_of_lt hi, List.getElem?_drop]
    exact h _ hdiv
  · rw [block, block, List.getElem?_eq_none (by simp; omega),
      List.getElem?_eq_none (by simp; omega)]

theorem length_block (h : k < key.length / H.size) : (H.block k key).length = H.size := by
  have hle : H.size * (k + 1) ≤ key.length :=
    (Nat.mul_le_mul_left _ h).trans (Nat.mul_div_le _ _)
  rw [Nat.mul_add_one] at hle
  rw [block, List.length_take, List.length_drop]
  omega

theorem length_block_last : (H.block (key.length / H.size) key).length < H.size := by
  have hmod := Nat.mod_lt key.length H.size_pos
  rw [Nat.mod_eq_sub_mul_div] at hmod
  rw [block, List.length_take, List.length_drop]
  omega

/-- A string is determined by its pieces of one length. -/
theorem eq_of_pieces_eq {m : ℕ} (hm : 0 < m)
    (h : ∀ k, (a.drop (m * k)).take m = (b.drop (m * k)).take m) : a = b := by
  have hpiece : ∀ (l : List β) (i : ℕ), ((l.drop (m * (i / m))).take m)[i % m]? = l[i]? := by
    intro l i
    rw [List.getElem?_take_of_lt (Nat.mod_lt i hm), List.getElem?_drop, Nat.div_add_mod]
  exact List.ext_getElem? fun i ↦ by rw [← hpiece a i, h, hpiece b i]

theorem eq_of_block_eq (h : ∀ k, H.block k a = H.block k b) : a = b := eq_of_pieces_eq H.size_pos h

theorem block_take_of_lt (hk : H.size * (k + 1) ≤ n) : H.block k (key.take n) = H.block k key := by
  rw [Nat.mul_add_one] at hk
  rw [block, block, List.drop_take, List.take_take, Nat.min_eq_left (by omega)]

theorem block_append_of_lt (hpre : pre.length = H.size * j) (hk : k < j) :
    H.block k (pre ++ post) = H.block k pre := by
  have hle : H.size * (k + 1) ≤ pre.length := hpre ▸ Nat.mul_le_mul_left _ hk
  rw [Nat.mul_add_one] at hle
  rw [block, block, List.drop_append_of_le_length (by omega), List.take_append_of_le_length]
  rw [List.length_drop]
  omega

/-- The value of a key with the block `b` in the place with number `j`. -/
theorem hash_insert (hpre : pre.length = H.size * j) (hb : b.length = H.size) :
    H.hash s (pre ++ (b ++ post)) = H.finish (pre.length + (H.size + post.length))
      (H.last (H.eat (H.step (H.eat s j pre) b) (post.length / H.size) post)
        (H.block (post.length / H.size) post)) := by
  have hblocks : (pre ++ (b ++ post)).length / H.size = j + (post.length / H.size + 1) := by
    rw [List.length_append, List.length_append, hpre, hb, Nat.mul_add_div H.size_pos,
      Nat.add_div_left _ H.size_pos]
  have hdrop : (pre ++ (b ++ post)).drop (H.size * j) = b ++ post := by
    rw [← hpre, List.drop_left]
  have hrest : (b ++ post).drop H.size = post := by rw [← hb, List.drop_left]
  have htake : (b ++ post).take H.size = b := by rw [← hb, List.take_left]
  rw [hash, hblocks, eat_add, hdrop, eat, htake, hrest,
    eat_congr fun k hk ↦ block_append_of_lt hpre hk, ← block_drop, hdrop, block_succ, hrest,
      List.length_append, List.length_append, hb]

/-! ## Reversible hashes -/

variable (H) in
/-- No operation of the hash loses information. -/
structure Reversible : Prop where
  step_state : ∀ b, Injective fun s ↦ H.step s b
  step_block : ∀ s {b b' : List β}, b.length = H.size → b'.length = H.size →
    H.step s b = H.step s b' → b = b'
  last_state : ∀ t, Injective fun s ↦ H.last s t
  last_rest : ∀ s {t t' : List β}, t.length = t'.length → t.length < H.size →
    H.last s t = H.last s t' → t = t'
  finish : ∀ n, Injective (H.finish n)

namespace Reversible

variable (hrev : H.Reversible)
include hrev

/-- From the end back to the block where two keys differ. -/
theorem eat_eq_of_later (hj : j < n) (hlater : ∀ k, j < k → k < n → H.block k a = H.block k b)
    (h : H.eat s n a = H.eat s n b) : H.eat s (j + 1) a = H.eat s (j + 1) b := by
  induction n with
  | zero => exact absurd hj (Nat.not_lt_zero j)
  | succ n ih =>
    obtain hjn | rfl := Nat.lt_succ_iff_lt_or_eq.mp hj
    · rw [eat_succ, eat_succ, hlater n hjn (Nat.lt_succ_self n)] at h
      exact ih hjn (fun k hk hkn ↦ hlater k hk (hkn.trans (Nat.lt_succ_self n)))
        (hrev.step_state _ h)
    · exact h

/-- **Keys of one length that differ in one block only have different values.** -/
theorem eq_of_hash_eq (hlen : a.length = b.length) (hout : ∀ i, i / H.size ≠ j → a[i]? = b[i]?)
    (h : H.hash s a = H.hash s b) : a = b := by
  have hblock : ∀ k, k ≠ j → H.block k a = H.block k b := fun k hk ↦
    block_congr fun i hi ↦ hout i (hi ▸ hk)
  rw [hash, hash, ← hlen] at h
  have hlast := hrev.finish _ h
  refine eq_of_block_eq (H := H) fun k ↦ ?_
  obtain hk | rfl := ne_or_eq k j
  · exact hblock k hk
  obtain hlt | heq | hgt := Nat.lt_trichotomy k (a.length / H.size)
  · -- the block is a full one: what comes after it is the same, and so is what comes before
    rw [hblock _ hlt.ne'] at hlast
    have hafter := hrev.eat_eq_of_later hlt (fun i hi _ ↦ hblock i hi.ne') (hrev.last_state _ hlast)
    rw [eat_succ, eat_succ, eat_congr fun i hi ↦ hblock i hi.ne] at hafter
    exact hrev.step_block _ (length_block hlt) (length_block (hlen ▸ hlt)) hafter
  · -- it is the incomplete one at the end
    rw [← heq, eat_congr fun i hi ↦ hblock i hi.ne] at hlast
    have hshort : (H.block k a).length < H.size := heq ▸ length_block_last
    refine hrev.last_rest _ ?_ hshort hlast
    rw [block, block, List.length_take, List.length_take, List.length_drop, List.length_drop, hlen]
  · -- it begins after the end
    have hend : a.length ≤ H.size * k :=
      (Nat.lt_mul_of_div_lt hgt H.size_pos).le.trans_eq (Nat.mul_comm _ _)
    rw [block, block, List.drop_of_length_le hend, List.drop_of_length_le (hlen ▸ hend)]

theorem eat_injective (n : ℕ) (key : List β) : Injective fun s ↦ H.eat s n key := by
  induction n with
  | zero => exact injective_id
  | succ n ih =>
    intro s s' h
    have hstep : H.step (H.eat s n key) (H.block n key)
        = H.step (H.eat s' n key) (H.block n key) := by
      rw [← eat_succ, ← eat_succ]; exact h
    exact ih (hrev.step_state _ hstep)

end Reversible

/-! ## Every value, once for every place of a block -/

variable (H) in
/-- A reversible hash whose steps take every state to every state. -/
structure Onto : Prop extends H.Reversible where
  step_onto : ∀ s s', ∃ b : List β, b.length = H.size ∧ H.step s b = s'
  finish_onto : ∀ n, Surjective (H.finish n)

namespace Onto

variable (hH : H.Onto)
include hH

/-- Any state is reached, before the blocks that follow, from some state. -/
theorem eat_surjective [Finite σ] (n : ℕ) (key : List β) : Surjective fun s ↦ H.eat s n key := by
  induction n with
  | zero => exact surjective_id
  | succ n ih =>
    intro s'
    obtain ⟨t, ht⟩ := Finite.surjective_of_injective (hH.step_state (H.block n key)) s'
    obtain ⟨s, rfl⟩ := ih t
    exact ⟨s, eat_succ.trans ht⟩

/-- **Whatever stands before and after it, one block gives a key the wanted value.** -/
theorem existsUnique_block [Finite σ] (s : σ) (hpre : pre.length = H.size * j) (post : List β)
    (value : τ) : ∃! b : List β, b.length = H.size ∧ H.hash s (pre ++ (b ++ post)) = value := by
  obtain ⟨u, hu⟩ := hH.finish_onto (pre.length + (H.size + post.length)) value
  obtain ⟨t, ht⟩ :=
    Finite.surjective_of_injective (hH.last_state (H.block (post.length / H.size) post)) u
  obtain ⟨s', hs'⟩ := hH.eat_surjective (post.length / H.size) post t
  obtain ⟨b, hb, hstep⟩ := hH.step_onto (H.eat s j pre) s'
  refine ⟨b, ⟨hb, ?_⟩, ?_⟩
  · dsimp only at ht hs'
    rw [hash_insert hpre hb, hstep, hs', ht, hu]
  · rintro b' ⟨hb', hvalue⟩
    dsimp only at ht hs'
    rw [← hu, ← ht, ← hs', ← hstep, hash_insert hpre hb'] at hvalue
    exact hH.step_block _ hb' hb ((hH.toReversible.eat_injective _ _)
      (hH.last_state _ (hH.finish _ hvalue)))

end Onto

end BlockHash

end PushService
