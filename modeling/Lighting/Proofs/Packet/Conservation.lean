import Lighting.Packet.Codec
import Lighting.Proofs.Packet.Chunking

/-!
# Nothing is lost but line ends

Octets come in as chunks and go on as frames.  Whatever the chunks are, the frames and what is left
of them spell what came in without its line ends, in the same order: no line is too long for that,
and no confirmation stands in a place where it would swallow an octet.

Cutting is a loop, and it is told here without a bound on its rounds: `Drains` goes on as long as a
frame can be cut off.  Every frame takes an octet off, so that the loop ends on every buffer, and
there is one way only for it to go (`drains_iff`).  What it leaves is less than a frame
(`Unfinished`): a row that holds no line end, has not grown too long, and does not begin with a
confirmation.
-/

namespace Lighting.Packet

variable {buffer row frame rest : List UInt8} {cut : List (List UInt8)}

/-- Frames are cut off a buffer one after the other until none is whole: the frames, and what is
left. -/
inductive Drains : List UInt8 → List (List UInt8) → List UInt8 → Prop where
  /-- No frame is whole. -/
  | stop {buffer rest : List UInt8} (none : nextFrame buffer = (none, rest)) : Drains buffer [] rest
  /-- A frame is cut off, and then those of what it leaves. -/
  | next {buffer frame left rest : List UInt8} {cut : List (List UInt8)}
      (some : nextFrame buffer = (some frame, left)) (later : Drains left cut rest) :
      Drains buffer (frame :: cut) rest

/-- What waits for more octets. -/
structure Unfinished (row : List UInt8) : Prop where
  /-- It has not grown too long. -/
  short : row.length ≤ 512
  /-- It holds no line end. -/
  free : ∀ b ∈ row, b ≠ 0x0D ∧ b ≠ 0x0A
  /-- Its first two octets are no confirmation. -/
  other : confirmation? (row.take 2) = none

/-! ## Line ends -/

theorem isLineEnd_eq_false_iff {b : UInt8} : isLineEnd b = false ↔ b ≠ 0x0D ∧ b ≠ 0x0A := by
  simp [isLineEnd]

/-- What stands in a row besides line ends. -/
def solid (row : List UInt8) : List UInt8 := row.filter fun b => b ≠ 0x0D ∧ b ≠ 0x0A

theorem solid_append (row more : List UInt8) : solid (row ++ more) = solid row ++ solid more :=
  List.filter_append row more

theorem solid_of_free (free : ∀ b ∈ row, isLineEnd b = false) : solid row = row :=
  List.filter_eq_self.mpr fun b hb => decide_eq_true (isLineEnd_eq_false_iff.mp (free b hb))

/-- Line ends in front do not count. -/
theorem solid_dropWhile (buffer : List UInt8) :
    solid (buffer.dropWhile isLineEnd) = solid buffer := by
  induction buffer with
  | nil => rfl
  | cons b buffer ih =>
      cases ends : isLineEnd b with
      | false => rw [List.dropWhile_cons_of_neg (by simp [ends])]
      | true =>
          rw [List.dropWhile_cons_of_pos ends, ih, solid, solid, List.filter_cons_of_neg]
          rw [decide_eq_true_iff, ← isLineEnd_eq_false_iff, ends]
          nofun

/-! ## Confirmations -/

/-- Neither octet of a confirmation ends a line. -/
theorem free_of_confirms {code status : UInt8}
    (confirms : startsWithConfirmation (code :: status :: rest) = true) :
    ∀ b ∈ [code, status], isLineEnd b = false := by
  obtain ⟨token, accepted⟩ := Bool.and_eq_true_iff.mp confirms
  have front : isLineEnd code = false := by
    rw [isLineEnd_eq_false_iff]
    constructor <;> rintro rfl <;> exact absurd token (by decide)
  have back : isLineEnd status = false := by
    rw [isLineEnd_eq_false_iff]
    constructor <;> rintro rfl <;> exact absurd accepted (by decide)
  simp [front, back]

/-- A row is cut behind a confirmation exactly if decoding takes its first two octets for one. -/
theorem startsWithConfirmation_eq (row : List UInt8) :
    startsWithConfirmation row = (confirmation? (row.take 2)).isSome := by
  match row with
  | [] => rfl
  | [_] => rfl
  | code :: status :: rest =>
      show (isToken code && (accepted? status).isSome) = _
      cases token : isToken code <;> simp [confirmation?, token]

/-! ## One frame -/

/-- No line end gets into a frame. -/
theorem Cut.free (h : Cut row (some frame) rest) : ∀ b ∈ frame, isLineEnd b = false := by
  cases h with
  | confirmation eq confirms =>
      subst eq
      exact free_of_confirms confirms
  | line other eq ends full free => exact free
  | overlong other free long => exact free

theorem free_nextFrame (h : nextFrame buffer = (some frame, rest)) :
    ∀ b ∈ frame, isLineEnd b = false :=
  (nextFrame_eq_iff.mp h).free

/-- A frame and what it leaves spell what was there. -/
theorem solid_nextFrame (h : nextFrame buffer = (some frame, rest)) :
    frame ++ solid rest = solid buffer := by
  rw [← solid_dropWhile buffer, ← (nextFrame_eq_iff.mp h).append_eq, solid_append,
    solid_of_free (free_nextFrame h)]

/-- Where no frame is whole, all that is left waits, and it is what was there. -/
theorem unfinished_nextFrame (h : nextFrame buffer = (none, rest)) :
    Unfinished rest ∧ rest = solid buffer := by
  rw [← solid_dropWhile buffer]
  have cut := nextFrame_eq_iff.mp h
  generalize buffer.dropWhile isLineEnd = row at cut
  cases cut with
  | wait other free short =>
      refine ⟨⟨short, fun b hb => isLineEnd_eq_false_iff.mp (free b hb), ?_⟩,
        (solid_of_free free).symm⟩
      rw [startsWithConfirmation_eq] at other
      simpa using other

/-! ## All frames -/

/-- **The loop ends on every buffer, and in one way only.** -/
theorem drains_iff : Drains buffer cut rest ↔ frames buffer = (cut, rest) := by
  constructor
  · intro drains
    induction drains with
    | stop none => exact frames_of_none none
    | next some later ih => rw [frames_of_some some, ih]
  · intro h
    induction buffer using nextFrame_induction generalizing cut with
    | wait buffer left next =>
        rw [frames_of_none next] at h
        obtain ⟨rfl, rfl⟩ := Prod.mk.inj h
        exact .stop next
    | cut buffer frame left next ih =>
        rw [frames_of_some next] at h
        obtain ⟨rfl, rfl⟩ := Prod.mk.inj h
        exact .next next (ih rfl)

/-- Every frame takes an octet, so that there are no more frames than octets. -/
theorem length_frames_le (buffer : List UInt8) : (frames buffer).1.length ≤ buffer.length := by
  induction buffer using nextFrame_induction with
  | wait buffer rest next =>
      rw [frames_of_none next]
      exact Nat.zero_le _
  | cut buffer frame rest next ih =>
      rw [frames_of_some next]
      exact Nat.lt_of_le_of_lt ih (length_nextFrame next)

/-- What cutting leaves waits for more. -/
theorem unfinished_frames (buffer : List UInt8) : Unfinished (frames buffer).2 :=
  (unfinished_nextFrame (nextFrame_frames buffer)).1

/-- **The frames of a buffer and what they leave spell it without its line ends.** -/
theorem flatten_frames (buffer : List UInt8) :
    (frames buffer).1.flatten ++ (frames buffer).2 = solid buffer := by
  induction buffer using nextFrame_induction with
  | wait buffer rest next =>
      rw [frames_of_none next]
      exact (unfinished_nextFrame next).2
  | cut buffer frame rest next ih =>
      rw [frames_of_some next, List.flatten_cons, List.append_assoc, ih, solid_nextFrame next]

/-- A frame is neither empty nor does it hold a line end. -/
theorem whole_of_mem_frames (h : frame ∈ (frames buffer).1) :
    frame ≠ [] ∧ ∀ b ∈ frame, isLineEnd b = false := by
  induction buffer using nextFrame_induction with
  | wait buffer rest next =>
      rw [frames_of_none next] at h
      cases h
  | cut buffer first rest next ih =>
      rw [frames_of_some next] at h
      rcases List.mem_cons.mp h with rfl | h
      · exact ⟨(nextFrame_eq_iff.mp next).ne_nil, free_nextFrame next⟩
      · exact ih h

/-! ## Chunks -/

theorem feed_append (buffer : List UInt8) (front back : List (List UInt8)) :
    feed buffer (front ++ back) =
      ((feed buffer front).1 ++ (feed (feed buffer front).2 back).1,
        (feed (feed buffer front).2 back).2) := by
  induction front generalizing buffer with
  | nil => rfl
  | cons chunk front ih =>
      rw [List.cons_append, feed, ih]
      simp only [feed, List.append_assoc]

/-- A chunk that comes last adds the frames of what waited and the chunk. -/
theorem feed_concat (buffer : List UInt8) (front : List (List UInt8)) (chunk : List UInt8) :
    feed buffer (front ++ [chunk]) =
      ((feed buffer front).1 ++ (frames ((feed buffer front).2 ++ chunk)).1,
        (frames ((feed buffer front).2 ++ chunk)).2) := by
  rw [feed_append]
  simp only [feed, List.append_nil]

theorem Unfinished.solid_eq (h : Unfinished row) : solid row = row :=
  solid_of_free fun b hb => isLineEnd_eq_false_iff.mpr (h.free b hb)

/-- Between two chunks nothing waits but the beginning of a frame. -/
theorem unfinished_feed (chunks : List (List UInt8)) : Unfinished (feed [] chunks).2 := by
  induction chunks using List.reverseRecOn with
  | nil => exact ⟨Nat.zero_le _, nofun, rfl⟩
  | append_singleton front chunk ih =>
      rw [feed_concat]
      exact unfinished_frames _

/-- **The frames of all chunks and what is left spell the chunks without their line ends.** -/
theorem flatten_feed (chunks : List (List UInt8)) :
    (feed [] chunks).1.flatten ++ (feed [] chunks).2 = solid chunks.flatten := by
  induction chunks using List.reverseRecOn with
  | nil => rfl
  | append_singleton front chunk ih =>
      have left := (unfinished_feed front).solid_eq
      calc (feed [] (front ++ [chunk])).1.flatten ++ (feed [] (front ++ [chunk])).2
        _ = (feed [] front).1.flatten ++ solid ((feed [] front).2 ++ chunk) := by
            rw [feed_concat, List.flatten_append, List.append_assoc, flatten_frames]
        _ = solid front.flatten ++ solid chunk := by
            rw [solid_append, left, ← List.append_assoc, ih]
        _ = solid (front ++ [chunk]).flatten := by
            rw [← solid_append, List.flatten_append, List.flatten_singleton]

theorem whole_of_mem_feed {chunks : List (List UInt8)} (h : frame ∈ (feed buffer chunks).1) :
    frame ≠ [] ∧ ∀ b ∈ frame, isLineEnd b = false := by
  induction chunks generalizing buffer with
  | nil => cases h
  | cons chunk chunks ih =>
      rcases List.mem_append.mp h with h | h
      · exact whole_of_mem_frames h
      · exact ih h

end Lighting.Packet
