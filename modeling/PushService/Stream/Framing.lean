import Mathlib.Data.List.Induction
import Mathlib.Data.List.Infix
import Mathlib.Order.Basic
import PushService.System.Run

/-!
# Framing a byte stream

A *frame code* cuts a stream into frames. `split` looks at the front of a buffer and finds a whole
frame, or too few bytes to tell, or something that can never become a frame. The two laws are that
an encoded payload is found whatever follows it, and that a proper beginning of one is never taken
for anything but too few bytes.

## The reader

The reader keeps a buffer. Each call appends a chunk, looks for *one* frame, and empties the buffer
when what it found cannot be used: when `split` rejects the front, or `read` rejects the payload.
What stands behind an unusable frame goes with it.

## The two laws of the reader

While only whole unusable frames stand behind an unusable frame (`Tidy`) the bytes fed are the
frames taken followed by the buffer (`Reads`), so nothing is lost, invented or moved. And the number
of frames taken follows a schedule of its own (`taken`): one call takes one frame, so the reader
falls behind whenever a chunk completes several.
-/

namespace PushService

/-- What stands at the front of a buffer. -/
inductive Split (β : Type*)
  /-- Too few bytes to tell. -/
  | more
  /-- No continuation makes this a frame. -/
  | reject
  /-- A whole frame, and what follows it. -/
  | frame (payload rest : List β)
  deriving DecidableEq

/-- A prefix code for payloads, with the function that finds a frame. -/
structure FrameCode (β : Type*) where
  /-- The payloads that have a frame. -/
  Fits : List β → Prop
  encode : List β → List β
  split : List β → Split β
  split_nil : split [] = .more
  split_encode : ∀ p rest, Fits p → split (encode p ++ rest) = .frame p rest
  split_of_isPrefix : ∀ p b, Fits p → b <+: encode p → b ≠ encode p → split b = .more

/-- The number of frames whose last element is among the first `n` elements of the stream. -/
def arrived {β : Type*} : List (List β) → ℕ → ℕ
  | [], _ => 0
  | f :: fs, n => if f.length ≤ n then arrived fs (n - f.length) + 1 else 0

section Arrived

variable {β : Type*}

@[simp] theorem arrived_nil (n : ℕ) : arrived ([] : List (List β)) n = 0 := rfl

theorem arrived_cons_of_le {f : List β} {n : ℕ} (h : f.length ≤ n) (fs : List (List β)) :
    arrived (f :: fs) n = arrived fs (n - f.length) + 1 := by
  rw [arrived, if_pos h]

theorem arrived_cons_of_lt {f : List β} {n : ℕ} (h : n < f.length) (fs : List (List β)) :
    arrived (f :: fs) n = 0 := by
  rw [arrived, if_neg (not_le.mpr h)]

theorem arrived_le_length (fs : List (List β)) (n : ℕ) : arrived fs n ≤ fs.length := by
  induction fs generalizing n with
  | nil => exact le_rfl
  | cons f fs ih =>
    rw [arrived]
    split_ifs
    · exact Nat.succ_le_succ (ih _)
    · exact Nat.zero_le _

/-- Frames that have arrived are counted, and those behind them see the elements left. -/
theorem arrived_append (fs gs : List (List β)) (n : ℕ) :
    arrived (fs ++ gs) (fs.flatten.length + n) = fs.length + arrived gs n := by
  induction fs with
  | nil => simp
  | cons f fs ih =>
    have hle : f.length ≤ f.length + fs.flatten.length + n := by omega
    have hsub : f.length + fs.flatten.length + n - f.length = fs.flatten.length + n := by omega
    rw [List.cons_append, List.flatten_cons, List.length_append, arrived_cons_of_le hle, hsub, ih,
      List.length_cons]
    omega

theorem arrived_flatten (fs : List (List β)) : arrived fs fs.flatten.length = fs.length := by
  simpa using arrived_append fs [] 0

end Arrived

namespace FrameCode

variable {β μ : Type*} (F : FrameCode β) (read : List β → Option μ)

/-! ## The reader -/

/-- The frames of the payloads, one after the other. -/
def frames (ps : List (List β)) : List (List β) := ps.map F.encode

/-- One call with one chunk: the message found, if any, and the buffer afterwards. -/
def feed (b chunk : List β) : Option μ × List β :=
  match F.split (b ++ chunk) with
  | .more => (none, b ++ chunk)
  | .reject => (none, [])
  | .frame p rest =>
    match read p with
    | some m => (some m, rest)
    | none => (none, [])

/-- The reader as a system: its state is the buffer, its actions are the chunks. -/
def reader : System (List β) (List β) μ where
  step b chunk := some ((F.feed read b chunk).2, (F.feed read b chunk).1.toList)

/-- A payload that `read` makes nothing of. -/
def Unusable (p : List β) : Prop := F.Fits p ∧ read p = none

/-- If this call takes one of the payloads `ps` and it is unusable, only whole unusable frames stand
behind it. -/
def Tidy (ps : List (List β)) (b chunk : List β) : Prop :=
  ∀ p ∈ ps, ∀ rest, F.split (b ++ chunk) = .frame p rest → read p = none →
    ∃ qs, (∀ q ∈ qs, F.Unusable read q) ∧ rest = (F.frames qs).flatten

variable {F read}

theorem encode_ne_nil {p : List β} (hp : F.Fits p) : F.encode p ≠ [] := by
  intro hnil
  have hframe := F.split_encode p [] hp
  rw [hnil, List.append_nil, F.split_nil] at hframe
  exact absurd hframe (by simp)

theorem reader_step {b chunk b' : List β} {es : List μ} :
    (F.reader read).step b chunk = some (b', es) ↔
      b' = (F.feed read b chunk).2 ∧ es = (F.feed read b chunk).1.toList := by
  simp [reader, eq_comm]

theorem feed_of_more {b chunk : List β} (h : F.split (b ++ chunk) = .more) :
    F.feed read b chunk = (none, b ++ chunk) := by
  rw [feed, h]

theorem feed_of_frame {b chunk p rest : List β} {m : μ}
    (h : F.split (b ++ chunk) = .frame p rest) (hread : read p = some m) :
    F.feed read b chunk = (some m, rest) := by
  rw [feed, h]
  simp only [hread]

theorem feed_of_unusable {b chunk p rest : List β} (h : F.split (b ++ chunk) = .frame p rest)
    (hread : read p = none) : F.feed read b chunk = (none, []) := by
  rw [feed, h]
  simp only [hread]

/-- A call that finds no message leaves no frame in the buffer. -/
theorem feed_snd_ne_of_none {b chunk : List β} (h : (F.feed read b chunk).1 = none) {p : List β}
    (hp : F.Fits p) (rest : List β) : (F.feed read b chunk).2 ≠ F.encode p ++ rest := by
  have hnil : ([] : List β) ≠ F.encode p ++ rest := fun heq ↦
    encode_ne_nil hp (List.append_eq_nil_iff.mp heq.symm).1
  rw [feed] at h ⊢
  cases hsplit : F.split (b ++ chunk) with
  | more =>
    intro heq
    have hframe := F.split_encode p rest hp
    rw [show F.encode p ++ rest = b ++ chunk from heq.symm, hsplit] at hframe
    exact absurd hframe (by simp)
  | reject => exact hnil
  | frame q r =>
    rw [hsplit] at h
    cases hread : read q with
    | none => simpa [hread] using hnil
    | some m => exact absurd h (by simp [hread])

/-! ## Beginnings of a stream of frames -/

@[simp] theorem frames_nil : F.frames [] = [] := rfl

@[simp] theorem frames_cons (p : List β) (ps : List (List β)) :
    F.frames (p :: ps) = F.encode p :: F.frames ps := rfl

@[simp] theorem frames_append (ps qs : List (List β)) :
    F.frames (ps ++ qs) = F.frames ps ++ F.frames qs := List.map_append ..

@[simp] theorem length_frames (ps : List (List β)) : (F.frames ps).length = ps.length :=
  List.length_map _

/-- What a beginning of a stream of frames looks like to `split`. -/
theorem split_of_stream {ps : List (List β)} (hfit : ∀ p ∈ ps, F.Fits p) {b : List β}
    (hb : b <+: (F.frames ps).flatten) :
    (F.split b = .more ∧ arrived (F.frames ps) b.length = 0) ∨
      ∃ p qs rest, ps = p :: qs ∧ b = F.encode p ++ rest ∧ F.split b = .frame p rest := by
  cases ps with
  | nil =>
    obtain rfl : b = [] := List.prefix_nil.mp hb
    exact .inl ⟨F.split_nil, rfl⟩
  | cons p ps =>
    have hp := hfit p List.mem_cons_self
    rw [frames_cons, List.flatten_cons] at hb
    by_cases hle : (F.encode p).length ≤ b.length
    · obtain ⟨rest, rfl⟩ := List.prefix_of_prefix_length_le (List.prefix_append _ _) hb hle
      exact .inr ⟨p, ps, rest, rfl, rfl, F.split_encode p rest hp⟩
    · have hlt := not_le.mp hle
      have hpre := List.prefix_of_prefix_length_le hb (List.prefix_append _ _) hlt.le
      refine .inl ⟨F.split_of_isPrefix p b hp hpre fun heq ↦ ?_, ?_⟩
      · rw [heq] at hlt
        exact lt_irrefl _ hlt
      · rw [frames_cons, arrived_cons_of_lt hlt]

/-- Whole frames at the beginning of a stream of frames are the first of them. -/
theorem isPrefix_of_frames {qs ps : List (List β)} (hqs : ∀ q ∈ qs, F.Fits q)
    (hps : ∀ p ∈ ps, F.Fits p) (h : (F.frames qs).flatten <+: (F.frames ps).flatten) :
    qs <+: ps := by
  induction qs generalizing ps with
  | nil => exact List.nil_prefix
  | cons q qs ih =>
    have hq := hqs q List.mem_cons_self
    have hsplit := F.split_encode q (F.frames qs).flatten hq
    rw [frames_cons, List.flatten_cons] at h
    rcases split_of_stream hps h with ⟨hmore, -⟩ | ⟨p, ps, rest, rfl, hb, hframe⟩
    · rw [hmore] at hsplit
      exact absurd hsplit (by simp)
    · rw [hsplit, Split.frame.injEq] at hframe
      obtain ⟨rfl, rfl⟩ := hframe
      rw [frames_cons, List.flatten_cons, List.prefix_append_right_inj] at h
      have hpre := ih (fun r hr ↦ hqs r (List.mem_cons_of_mem q hr))
        (fun r hr ↦ hps r (List.mem_cons_of_mem q hr)) h
      exact (List.prefix_cons_inj q).mpr hpre

/-! ## Conservation -/

/-- Of the payloads `ps`, of whose frames `fed` has arrived, the reader has taken `done`. -/
structure Reads (F : FrameCode β) (read : List β → Option μ) (ps : List (List β)) (fed b : List β)
    (h : List μ) (done : List (List β)) : Prop where
  isPrefix : done <+: ps
  fed_eq : fed = (F.frames done).flatten ++ b
  returned_eq : h = done.filterMap read

variable {ps done : List (List β)} {fed b b' : List β} {h h' : List μ}

theorem reads_nil (ps : List (List β)) : Reads F read ps [] [] [] [] :=
  ⟨List.nil_prefix, rfl, rfl⟩

theorem Reads.arrived_eq (hr : Reads F read ps fed b h done) {todo : List (List β)}
    (htodo : ps = done ++ todo) (n : ℕ) :
    arrived (F.frames ps) (fed.length + n)
      = done.length + arrived (F.frames todo) (b.length + n) := by
  rw [htodo, hr.fed_eq, frames_append, List.length_append, Nat.add_assoc, arrived_append,
    length_frames]

/-- A reader that has taken all that has arrived holds no whole frame. -/
theorem Reads.ne_frame (hr : Reads F read ps fed b h done) (hfit : ∀ p ∈ ps, F.Fits p)
    (hpre : fed <+: (F.frames ps).flatten) (hall : arrived (F.frames ps) fed.length ≤ done.length)
    {p : List β} (hp : F.Fits p) (rest : List β) : b ≠ F.encode p ++ rest := by
  obtain ⟨todo, rfl⟩ := hr.isPrefix
  have harr : arrived _ fed.length = _ := hr.arrived_eq rfl 0
  rw [hr.fed_eq, frames_append, List.flatten_append, List.prefix_append_right_inj] at hpre
  intro heq
  have hframe := F.split_encode p rest hp
  rw [← heq] at hframe
  rcases split_of_stream (fun q hq ↦ hfit q (List.mem_append_right done hq)) hpre with
    ⟨hmore, -⟩ | ⟨q, qs, rest', rfl, hb, -⟩
  · rw [hmore] at hframe
    exact absurd hframe (by simp)
  · have hle : (F.encode q).length ≤ b.length := by
      rw [hb, List.length_append]
      exact Nat.le_add_right _ _
    rw [Nat.add_zero, frames_cons, arrived_cons_of_le hle] at harr
    omega

/-- One call takes one frame if one is there, and what is fed stays accounted for. Only behind an
unusable frame does it take more than one. -/
theorem Reads.step (hr : Reads F read ps fed b h done) (hfit : ∀ p ∈ ps, F.Fits p)
    {chunk : List β} (hpre : fed ++ chunk <+: (F.frames ps).flatten)
    (htidy : F.Tidy read ps b chunk) :
    ∃ done', Reads F read ps (fed ++ chunk) (F.feed read b chunk).2
        (h ++ (F.feed read b chunk).1.toList) done' ∧
      min (done.length + 1) (arrived (F.frames ps) (fed ++ chunk).length) ≤ done'.length ∧
      ((∀ p ∈ ps, read p ≠ none) →
        done'.length = min (done.length + 1) (arrived (F.frames ps) (fed ++ chunk).length)) := by
  obtain ⟨todo, rfl⟩ := hr.isPrefix
  have hfed : fed ++ chunk = (F.frames done).flatten ++ (b ++ chunk) := by
    rw [hr.fed_eq, List.append_assoc]
  rw [hfed, frames_append, List.flatten_append, List.prefix_append_right_inj] at hpre
  have hfit' : ∀ p ∈ todo, F.Fits p := fun p hp ↦ hfit p (List.mem_append_right done hp)
  have harr := hr.arrived_eq rfl chunk.length
  rw [← List.length_append, ← List.length_append] at harr
  rw [harr]
  rcases split_of_stream hfit' hpre with ⟨hmore, hzero⟩ | ⟨p, ps, rest, rfl, hb, hframe⟩
  · refine ⟨done, ⟨hr.isPrefix, ?_, ?_⟩, ?_, fun _ ↦ ?_⟩
    · rw [feed_of_more hmore, hfed]
    · rw [feed_of_more hmore, hr.returned_eq, Option.toList_none, List.append_nil]
    · omega
    · omega
  · have hone : 1 ≤ arrived (F.frames (p :: ps)) (b ++ chunk).length := by
      have hle : (F.encode p).length ≤ (b ++ chunk).length := by
        rw [hb, List.length_append]
        exact Nat.le_add_right _ _
      rw [frames_cons, arrived_cons_of_le hle]
      exact Nat.le_add_left 1 _
    cases hread : read p with
    | some m =>
      have hlength : (done ++ [p]).length = done.length + 1 := by simp
      refine ⟨done ++ [p], ⟨⟨ps, by simp⟩, ?_, ?_⟩, by omega, fun _ ↦ by omega⟩
      · rw [feed_of_frame hframe hread, hfed, hb]
        simp
      · rw [feed_of_frame hframe hread, hr.returned_eq]
        simp [hread]
    | none =>
      obtain ⟨qs, hqs, rfl⟩ := htidy p (by simp) rest hframe hread
      rw [hb, frames_cons, List.flatten_cons, List.prefix_append_right_inj] at hpre
      obtain ⟨todo, rfl⟩ := isPrefix_of_frames (fun q hq ↦ (hqs q hq).1)
        (fun q hq ↦ hfit' q (List.mem_cons_of_mem p hq)) hpre
      have hnone : qs.filterMap read = [] :=
        List.filterMap_eq_nil_iff.mpr fun q hq ↦ (hqs q hq).2
      have hlength : (done ++ p :: qs).length = done.length + (qs.length + 1) := by simp
      refine ⟨done ++ p :: qs, ⟨⟨todo, by simp⟩, ?_, ?_⟩, by omega, fun husable ↦ ?_⟩
      · rw [feed_of_unusable hframe hread, hfed, hb]
        simp
      · rw [feed_of_unusable hframe hread, hr.returned_eq]
        simp [hread, hnone]
      · exact absurd hread (husable p (by simp))

/-! ## The schedule -/

/-- The number of frames taken after the given chunks, when `n` elements have been fed and `k`
frames taken before. -/
def taken (fs : List (List β)) : ℕ → ℕ → List (List β) → ℕ
  | _, k, [] => k
  | n, k, c :: cs => taken fs (n + c.length) (min (k + 1) (arrived fs (n + c.length))) cs

@[simp] theorem taken_nil (fs : List (List β)) (n k : ℕ) : taken fs n k [] = k := rfl

theorem taken_concat (fs : List (List β)) (n k : ℕ) (cs : List (List β)) (c : List β) :
    taken fs n k (cs ++ [c])
      = min (taken fs n k cs + 1) (arrived fs (n + (cs ++ [c]).flatten.length)) := by
  induction cs generalizing n k with
  | nil => simp [taken]
  | cons d cs ih =>
    rw [List.cons_append, taken, taken, ih, List.flatten_cons, List.length_append, Nat.add_assoc]

theorem taken_le_arrived (fs : List (List β)) {n k : ℕ} (hk : k ≤ arrived fs n)
    (cs : List (List β)) : taken fs n k cs ≤ arrived fs (n + cs.flatten.length) := by
  induction cs using List.reverseRecOn with
  | nil => simpa using hk
  | append_singleton cs c _ =>
    rw [taken_concat]
    exact Nat.min_le_right _ _

/-- Empty chunks let the reader catch up, one frame a call. -/
theorem taken_replicate_nil (fs : List (List β)) {n k : ℕ} (hk : k ≤ arrived fs n) (j : ℕ) :
    taken fs n k (List.replicate j []) = min (k + j) (arrived fs n) := by
  induction j generalizing k with
  | zero => simp [hk]
  | succ j ih =>
    rw [List.replicate_succ, taken, List.length_nil, Nat.add_zero, ih (Nat.min_le_right _ _)]
    omega

theorem taken_append (fs : List (List β)) (n k : ℕ) (cs ds : List (List β)) :
    taken fs n k (cs ++ ds) = taken fs (n + cs.flatten.length) (taken fs n k cs) ds := by
  induction cs generalizing n k with
  | nil => simp
  | cons c cs ih =>
    rw [List.cons_append, taken, ih, taken, List.flatten_cons, List.length_append, Nat.add_assoc]

theorem taken_take_succ (fs : List (List β)) {cs : List (List β)} {i : ℕ} (hi : i < cs.length) :
    taken fs 0 0 (cs.take (i + 1))
      = min (taken fs 0 0 (cs.take i) + 1) (arrived fs (cs.take (i + 1)).flatten.length) := by
  rw [← List.take_append_getElem hi, taken_concat, Nat.zero_add]

/-- **The reader keeps up with the stream if and only if no chunk completes two frames.** -/
theorem taken_eq_arrived_iff {fs : List (List β)} (hne : arrived fs 0 = 0) (cs : List (List β)) :
    (∀ i ≤ cs.length, taken fs 0 0 (cs.take i) = arrived fs (cs.take i).flatten.length) ↔
      ∀ i < cs.length,
        arrived fs (cs.take (i + 1)).flatten.length
          ≤ arrived fs (cs.take i).flatten.length + 1 := by
  constructor
  · intro hkeeps i hi
    have hnow := hkeeps i hi.le
    have hnext := hkeeps (i + 1) hi
    rw [taken_take_succ fs hi] at hnext
    omega
  · intro hone i hi
    induction i with
    | zero => simp [hne]
    | succ i ih =>
      have hnow := ih (Nat.le_of_succ_le hi)
      have hstep := hone i hi
      rw [taken_take_succ fs hi]
      omega

theorem taken_mono (fs : List (List β)) (n : ℕ) {k k' : ℕ} (h : k ≤ k') (cs : List (List β)) :
    taken fs n k cs ≤ taken fs n k' cs := by
  induction cs generalizing n k k' with
  | nil => exact h
  | cons c cs ih => exact ih _ (by omega)

/-- **The run law of the reader**: over tidy calls the bytes fed are the frames taken followed by
the buffer. At least as many frames are taken as the schedule says, and exactly as many if all
payloads are usable. -/
theorem Reads.run (hr : Reads F read ps fed b h done) (hfit : ∀ p ∈ ps, F.Fits p)
    {cs : List (List β)} (hpre : fed ++ cs.flatten <+: (F.frames ps).flatten)
    (htidy : (F.reader read).Obeys (F.Tidy read ps) b cs)
    (hrun : (F.reader read).run b cs = some (b', h')) :
    ∃ done', Reads F read ps (fed ++ cs.flatten) b' (h ++ h') done' ∧
      taken (F.frames ps) fed.length done.length cs ≤ done'.length ∧
      ((∀ p ∈ ps, read p ≠ none) →
        done'.length = taken (F.frames ps) fed.length done.length cs) := by
  induction cs generalizing fed b h done h' with
  | nil =>
    obtain ⟨rfl, rfl⟩ : b = b' ∧ [] = h' := by simpa using hrun
    exact ⟨done, by simpa using hr, le_rfl, fun _ ↦ rfl⟩
  | cons c cs ih =>
    obtain ⟨b₁, h₁, h₂, hstep, hrest, rfl⟩ := System.run_cons_eq_some.mp hrun
    rw [List.flatten_cons, ← List.append_assoc] at hpre ⊢
    obtain ⟨done₁, hr₁, hle, hexact⟩ :=
      hr.step hfit ((List.prefix_append _ _).trans hpre) htidy.1
    obtain ⟨rfl, rfl⟩ := reader_step.mp hstep
    obtain ⟨done₂, hr₂, hle₂, hexact₂⟩ := ih hr₁ hpre (htidy.2 _ hstep) hrest
    rw [taken, ← List.length_append, ← List.append_assoc]
    refine ⟨done₂, hr₂, (taken_mono _ _ hle cs).trans hle₂, fun husable ↦ ?_⟩
    rw [hexact₂ husable, hexact husable]

/-! ## Falling behind -/

/-- A chunk of `k + 1` equal frames, of which the call takes one. -/
theorem feed_replicate {p : List β} {m : μ} (hp : F.Fits p) (hread : read p = some m) (j k : ℕ) :
    F.feed read (F.frames (List.replicate j p)).flatten
        (F.frames (List.replicate (k + 1) p)).flatten
      = (some m, (F.frames (List.replicate (j + k) p)).flatten) := by
  have hsplit : (F.frames (List.replicate j p)).flatten
        ++ (F.frames (List.replicate (k + 1) p)).flatten
      = F.encode p ++ (F.frames (List.replicate (j + k) p)).flatten := by
    rw [← List.flatten_append, ← frames_append, List.replicate_append_replicate, ← Nat.add_assoc,
      List.replicate_succ, frames_cons, List.flatten_cons]
  refine feed_of_frame ?_ hread
  rw [hsplit, F.split_encode p _ hp]

/-- **The reader falls behind** by `k` frames in every call if every chunk consists of `k + 1`. -/
theorem run_replicate {p : List β} {m : μ} (hp : F.Fits p) (hread : read p = some m) (k n : ℕ) :
    (F.reader read).run [] (List.replicate n (F.frames (List.replicate (k + 1) p)).flatten)
      = some ((F.frames (List.replicate (n * k) p)).flatten, List.replicate n m) := by
  induction n with
  | zero => simp
  | succ n ih =>
    have hlast : (F.reader read).step (F.frames (List.replicate (n * k) p)).flatten
        (F.frames (List.replicate (k + 1) p)).flatten
        = some ((F.frames (List.replicate (n * k + k) p)).flatten, [m]) := by
      rw [reader_step, feed_replicate hp hread]
      exact ⟨rfl, rfl⟩
    rw [List.replicate_add n 1, List.replicate_add n 1, Nat.succ_mul]
    exact System.run_append_eq_some.mpr ⟨_, _, [m], ih, System.run_singleton hlast, rfl⟩

end FrameCode

end PushService
