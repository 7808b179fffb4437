import Mathlib.Tactic.IntervalCases
import PushService.Hash.Blockwise

/-!
# What MurmurHash3 keeps apart

Two keys of one length can have the same hash, but not if all their differences lie in one block, or
in the bytes after the last full one. And with everything else given, the block at any place can be
chosen for any hash, in one way only.
-/

namespace PushService.MurmurHash3

open Words

variable {a b pre post : Bytes} {j : ℕ}

/-- The hash of a whole key. -/
theorem murmurHash3_x86_32_self (order : ByteOrder) (seed : BitVec 32) (ha : a.length < 2 ^ 31) :
    murmurHash3_x86_32 order a a.length seed = some ((x86_32 order).hash seed a) := by
  rw [murmurHash3_x86_32_eq order seed (le_refl _) ha, List.take_length]

theorem murmurHash3_x86_128_self (order : ByteOrder) (seed : BitVec 32) (ha : a.length < 2 ^ 31) :
    murmurHash3_x86_128 order a a.length seed
      = some ((x86_128 order).hash ⟨seed, seed, seed, seed⟩ a) := by
  rw [murmurHash3_x86_128_eq order seed (le_refl _) ha, List.take_length]

theorem murmurHash3_x64_128_self (order : ByteOrder) (seed : BitVec 32) (a : Bytes) :
    murmurHash3_x64_128 order a a.length seed
      = some ((x64_128 order).hash ⟨seed.setWidth 64, seed.setWidth 64⟩ a) := by
  rw [murmurHash3_x64_128_eq order seed (le_refl _), List.take_length]

/-- **Differences inside one block are never lost.** Keys of one length that agree outside the block
with number `j` have different hashes, under each of the three functions, unless they are the
same. -/
theorem keeps_block_differences (order : ByteOrder) (seed : BitVec 32) (hlen : a.length = b.length)
    (hint : a.length < 2 ^ 31) :
    ((∀ i, i / 4 ≠ j → a[i]? = b[i]?) →
        murmurHash3_x86_32 order a a.length seed = murmurHash3_x86_32 order b b.length seed → a = b)
      ∧ ((∀ i, i / 16 ≠ j → a[i]? = b[i]?) →
        murmurHash3_x86_128 order a a.length seed = murmurHash3_x86_128 order b b.length seed
          ∨ murmurHash3_x64_128 order a a.length seed = murmurHash3_x64_128 order b b.length seed →
        a = b) := by
  refine ⟨fun hout h ↦ ?_, fun hout h ↦ ?_⟩
  · rw [murmurHash3_x86_32_self order seed hint,
      murmurHash3_x86_32_self order seed (hlen ▸ hint)] at h
    exact (onto_x86_32 order).eq_of_hash_eq hlen hout (Option.some.inj h)
  · obtain h | h := h
    · rw [murmurHash3_x86_128_self order seed hint,
        murmurHash3_x86_128_self order seed (hlen ▸ hint)] at h
      exact (onto_x86_128 order).eq_of_hash_eq hlen hout (Option.some.inj h)
    · rw [murmurHash3_x64_128_self, murmurHash3_x64_128_self] at h
      exact (onto_x64_128 order).eq_of_hash_eq hlen hout (Option.some.inj h)

theorem keeps_block_differences_lastLetter :
    murmurHash3_x86_32 .little [97, 98, 99, 100, 101, 102] 6 888888
      ≠ murmurHash3_x86_32 .little [97, 98, 99, 100, 101, 103] 6 888888 := by
  intro h
  have hout : ∀ i, i / 4 ≠ 1 →
      ([97, 98, 99, 100, 101, 102] : Bytes)[i]? = ([97, 98, 99, 100, 101, 103] : Bytes)[i]? := by
    intro i hi
    obtain hlt | hge := Nat.lt_or_ge i 6
    · interval_cases i <;> first | rfl | exact absurd rfl hi
    · rw [List.getElem?_eq_none (by simpa using hge), List.getElem?_eq_none (by simpa using hge)]
  have heq := (keeps_block_differences (a := [97, 98, 99, 100, 101, 102])
      (b := [97, 98, 99, 100, 101, 103])
    .little 888888 rfl (by decide)).1 hout h
  exact absurd heq (by decide)

/-- **Every value is taken exactly once** as the block at one place runs through all blocks,
whatever stands before and after it. -/
theorem each_value_once (order : ByteOrder) (seed : BitVec 32) :
    (4 ∣ pre.length → pre.length + (4 + post.length) < 2 ^ 31 → ∀ value,
      ∃! b : Bytes, b.length = 4 ∧
        murmurHash3_x86_32 order (pre ++ (b ++ post)) (pre ++ (b ++ post)).length seed = some value)
      ∧ (16 ∣ pre.length → pre.length + (16 + post.length) < 2 ^ 31 → ∀ value,
      ∃! b : Bytes, b.length = 16 ∧
        murmurHash3_x86_128 order (pre ++ (b ++ post)) (pre ++ (b ++ post)).length seed
          = some value)
      ∧ (16 ∣ pre.length → pre.length + (16 + post.length) < 2 ^ 31 → ∀ value,
      ∃! b : Bytes, b.length = 16 ∧
        murmurHash3_x64_128 order (pre ++ (b ++ post)) (pre ++ (b ++ post)).length seed
          = some value) := by
  refine ⟨?_, ?_, ?_⟩
  · rintro ⟨j, hpre⟩ hint value
    have hlen : ∀ b : Bytes, b.length = 4 → (pre ++ (b ++ post)).length < 2 ^ 31 := by
      intro b hb
      rwa [List.length_append, List.length_append, hb]
    obtain ⟨b, ⟨hb, hvalue⟩, honly⟩ :=
      (onto_x86_32 order).existsUnique_block seed hpre post value
    refine ⟨b, ⟨hb, ?_⟩, fun b' ⟨hb', hvalue'⟩ ↦ honly b' ⟨hb', ?_⟩⟩
    · rw [murmurHash3_x86_32_self order seed (hlen b hb), hvalue]
    · rw [murmurHash3_x86_32_self order seed (hlen b' hb')] at hvalue'
      exact Option.some.inj hvalue'
  · rintro ⟨j, hpre⟩ hint value
    have hlen : ∀ b : Bytes, b.length = 16 → (pre ++ (b ++ post)).length < 2 ^ 31 := by
      intro b hb
      rwa [List.length_append, List.length_append, hb]
    obtain ⟨b, ⟨hb, hvalue⟩, honly⟩ :=
      (onto_x86_128 order).existsUnique_block ⟨seed, seed, seed, seed⟩ hpre post value
    refine ⟨b, ⟨hb, ?_⟩, fun b' ⟨hb', hvalue'⟩ ↦ honly b' ⟨hb', ?_⟩⟩
    · rw [murmurHash3_x86_128_self order seed (hlen b hb), hvalue]
    · rw [murmurHash3_x86_128_self order seed (hlen b' hb')] at hvalue'
      exact Option.some.inj hvalue'
  · rintro ⟨j, hpre⟩ - value
    obtain ⟨b, ⟨hb, hvalue⟩, honly⟩ :=
      (onto_x64_128 order).existsUnique_block ⟨seed.setWidth 64, seed.setWidth 64⟩ hpre post value
    refine ⟨b, ⟨hb, ?_⟩, fun b' ⟨hb', hvalue'⟩ ↦ honly b' ⟨hb', ?_⟩⟩
    · rw [murmurHash3_x64_128_self, hvalue]
    · rw [murmurHash3_x64_128_self] at hvalue'
      exact Option.some.inj hvalue'

theorem each_value_once_fourBytes :
    ∃! b : Bytes, b.length = 4 ∧
      murmurHash3_x86_32 .little ([] ++ (b ++ [])) ([] ++ (b ++ [])).length 888888 = some 0 :=
  (each_value_once .little 888888).1 (by decide) (by decide) 0

end PushService.MurmurHash3
