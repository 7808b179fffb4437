import PushService.Protocol.Fields
import PushService.Protocol.Message

/-!
# What is a frame

`frameCode` finds every frame that stands at the front of a buffer. It finds nothing else, so the
frames are a prefix code, and the three outcomes of `TryDecodeFrame` are told apart by what the
buffer begins with: a whole frame, four bytes that announce too large a one, or neither.
-/

namespace PushService

namespace Protocol

/-- **What `split` finds stands there.** -/
theorem split_eq_frame {b p rest : Bytes} :
    frameCode.split b = .frame p rest ↔ frameCode.Fits p ∧ b = frameCode.encode p ++ rest := by
  constructor
  · intro h
    simp only [frameCode] at h
    split_ifs at h with hshort hlarge hmore
    obtain ⟨rfl, rfl⟩ := Split.frame.inj h
    have hfits : (readNet b).toNat ≤ (b.drop 4).length := by
      simp only [lengthPrefixSize] at hshort hmore
      rw [List.length_drop]
      omega
    have hdecode := lengthPrefixed_decode (not_lt.mp hshort)
    rw [if_pos hfits, List.drop_drop] at hdecode
    obtain ⟨-, hb⟩ := lengthPrefixed.decode_eq_some.mp hdecode
    refine ⟨?_, hb⟩
    exact (List.length_take_le _ _).trans (not_lt.mp hlarge)
  · rintro ⟨hp, rfl⟩
    exact frameCode.split_encode p rest hp

/-- `split` rejects four bytes that announce too large a frame. -/
theorem split_eq_reject {b : Bytes} :
    frameCode.split b = .reject ↔
      lengthPrefixSize ≤ b.length ∧ maxMessageSize < (readNet b).toNat := by
  simp only [frameCode]
  split_ifs with hshort hlarge hmore
  · simp [hshort]
  · simp [not_lt.mp hshort, hlarge]
  · simp [hlarge]
  · simp [hlarge]

/-- The frames, as a prefix code. -/
def frames : PrefixCode UInt8 Bytes where
  Valid := frameCode.Fits
  encode := frameCode.encode
  decode b :=
    match frameCode.split b with
    | .frame p rest => some (p, rest)
    | .more | .reject => none
  decode_eq_some := by
    intro b p rest
    rw [← split_eq_frame]
    cases frameCode.split b with
    | more | reject => simp
    | frame p' rest' => simp

variable {buffer out : Bytes}

theorem tryDecodeFrame_eq_true {b' o' : Bytes} :
    tryDecodeFrame buffer out = (.ok true, b', o') ↔ frameCode.split buffer = .frame o' b' := by
  rw [tryDecodeFrame_eq]
  cases frameCode.split buffer with
  | more | reject => simp
  | frame p rest => simp [and_comm]

theorem tryDecodeFrame_fst_eq_error :
    (∃ message, (tryDecodeFrame buffer out).1 = .error message) ↔
      frameCode.split buffer = .reject := by
  rw [tryDecodeFrame_eq]
  cases frameCode.split buffer with
  | more | reject | frame => simp

theorem tryDecodeFrame_fst_eq_false :
    (tryDecodeFrame buffer out).1 = .ok false ↔ frameCode.split buffer = .more := by
  rw [tryDecodeFrame_eq]
  cases frameCode.split buffer with
  | more | reject | frame => simp

/-- There are too few bytes if neither a frame nor too large a length stands at the front. -/
theorem split_eq_more {b : Bytes} :
    frameCode.split b = .more ↔ (∀ p, frameCode.Fits p → ¬frameCode.encode p <+: b) ∧
      ¬(lengthPrefixSize ≤ b.length ∧ maxMessageSize < (readNet b).toNat) := by
  have hnone : frames.decode b = none ↔ ∀ p, frameCode.Fits p → ¬frameCode.encode p <+: b :=
    PrefixCode.decode_eq_none
  rw [← hnone, ← split_eq_reject]
  cases hsplit : frameCode.split b with
  | more | reject | frame => simp [frames, hsplit]

/-- **Framing is exact, and fails without side effects.** -/
theorem tryDecodeFrame_exact (buffer out : Bytes) :
    (∀ b' o', tryDecodeFrame buffer out = (.ok true, b', o') ↔
      o'.length ≤ maxMessageSize ∧ ∃ frame, encodeFrame o' = .ok frame ∧ buffer = frame ++ b') ∧
    ((∃ message, (tryDecodeFrame buffer out).1 = .error message) ↔
      4 ≤ buffer.length ∧ maxMessageSize < (readNet buffer).toNat) ∧
    ((tryDecodeFrame buffer out).1 = .ok false ↔
      (∀ p frame, encodeFrame p = .ok frame → ¬frame <+: buffer) ∧
        ¬(4 ≤ buffer.length ∧ maxMessageSize < (readNet buffer).toNat)) ∧
    ((tryDecodeFrame buffer out).1 ≠ .ok true → (tryDecodeFrame buffer out).2 = (buffer, out)) ∧
    ∀ p q f g, encodeFrame p = .ok f → encodeFrame q = .ok g → f <+: g → f = g := by
  refine ⟨fun b' o' ↦ ?_, ?_, ?_, fun h ↦ ?_, fun p q f g hf hg hpre ↦ ?_⟩
  · rw [tryDecodeFrame_eq_true, split_eq_frame]
    simp only [encodeFrame_eq_ok]
    constructor
    · rintro ⟨hfits, rfl⟩
      exact ⟨hfits, _, ⟨hfits, rfl⟩, rfl⟩
    · rintro ⟨-, _, ⟨hfits, rfl⟩, rfl⟩
      exact ⟨hfits, rfl⟩
  · exact tryDecodeFrame_fst_eq_error.trans split_eq_reject
  · rw [tryDecodeFrame_fst_eq_false, split_eq_more]
    simp [encodeFrame_eq_ok, lengthPrefixSize]
  · rw [tryDecodeFrame_eq] at h ⊢
    cases hsplit : frameCode.split buffer with
    | more | reject => rfl
    | frame p rest => simp [hsplit] at h
  · obtain ⟨hp, rfl⟩ := encodeFrame_eq_ok.mp hf
    obtain ⟨hq, rfl⟩ := encodeFrame_eq_ok.mp hg
    exact congrArg _ (frames.eq_of_isPrefix hp hq hpre)

end Protocol

end PushService
