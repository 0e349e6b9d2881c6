import Lighting.Proofs.Packet.Framing

/-!
# Chunks

What comes in does not come in frame by frame.  A chunk may end inside a confirmation, between the
two octets of a line end or in the middle of a line, and what is left of it is kept until the next
chunk has come.  As long as no line is longer than the buffer keeps, that makes no difference: the
frames that are cut off chunk by chunk are those of the whole row of octets.

The reason is that a frame that can be cut off is not cut off differently when more octets are there
(`Cut.append`).  The one decision that depends on where a chunk ends is to cut a line that has grown
too long, and rows that are `HasShortLines` never call for it.
-/

namespace Lighting.Packet

/-- No row of octets without a line end is longer than the buffer keeps. -/
def HasShortLines (octets : List UInt8) : Prop :=
  ∀ line, line <:+: octets → (∀ b ∈ line, isLineEnd b = false) → line.length ≤ maxLine

/-- Takes in chunks one after the other, each behind what was left of those before it: all frames
that were cut off, and what is left at the end. -/
def feed (buffer : List UInt8) : List (List UInt8) → List (List UInt8) × List UInt8
  | [] => ([], buffer)
  | chunk :: chunks =>
    let cut := frames (buffer ++ chunk)
    let later := feed cut.2 chunks
    (cut.1 ++ later.1, later.2)

variable {buffer row frame rest : List UInt8}

theorem HasShortLines.of_infix (h : HasShortLines row) (part : rest <:+: row) :
    HasShortLines rest :=
  fun line there => h line (there.trans part)

theorem hasShortLines_of_length_le (few : row.length ≤ maxLine) : HasShortLines row :=
  fun _ there _ => Nat.le_trans there.length_le few

/-! ## One frame -/

/-- Whether a row begins with a confirmation shows in its first two octets. -/
theorem startsWithConfirmation_append (two : 2 ≤ row.length) (more : List UInt8) :
    startsWithConfirmation (row ++ more) = startsWithConfirmation row := by
  match row, two with
  | _ :: _ :: _, _ => rfl

/-- **A frame that is whole is cut off whatever comes after it.** -/
theorem Cut.append (short : HasShortLines row) (h : Cut row (some frame) rest) (more : List UInt8) :
    Cut (row ++ more) (some frame) (rest ++ more) := by
  cases h with
  | confirmation eq confirms =>
      subst eq
      exact .confirmation rfl confirms
  | @line text rest stop other eq ends full free =>
      -- the text and the line end are two octets, so that no more are needed to know what this is
      have two : 2 ≤ row.length := by
        have := List.length_pos_of_ne_nil full
        rw [eq, List.length_append, List.length_cons]
        omega
      exact .line (by rwa [startsWithConfirmation_append two]) (by rw [eq, List.append_assoc]; rfl)
        ends full free
  | overlong other free long => exact absurd (short row List.infix_rfl free) (Nat.not_le.mpr long)

theorem nextFrame_append (short : HasShortLines buffer) (h : nextFrame buffer = (some frame, rest))
    (more : List UInt8) : nextFrame (buffer ++ more) = (some frame, rest ++ more) := by
  have cut := nextFrame_eq_iff.mp h
  have full : (buffer.dropWhile isLineEnd).isEmpty = false := by
    have := List.length_pos_of_ne_nil cut.ne_nil
    rw [← cut.append_eq, List.isEmpty_eq_false_iff, ← List.length_pos_iff, List.length_append]
    omega
  rw [nextFrame_eq_iff, List.dropWhile_append, full]
  exact cut.append (short.of_infix (buffer.dropWhile_suffix isLineEnd).isInfix) more

/-- What waits for its end waits with the octets that come next. -/
theorem nextFrame_append_of_none (h : nextFrame buffer = (none, rest)) (more : List UInt8) :
    nextFrame (buffer ++ more) = nextFrame (rest ++ more) := by
  rw [← nextFrame_dropWhile (buffer ++ more), ← nextFrame_dropWhile (rest ++ more),
    eq_dropWhile_of_none h, List.dropWhile_append, List.dropWhile_append,
    List.dropWhile_idempotent]

/-! ## All frames -/

/-- A buffer from which the same frame is cut off, or none, has the same frames. -/
theorem frames_congr {other : List UInt8} (h : nextFrame buffer = nextFrame other) :
    frames buffer = frames other := by
  cases next : nextFrame other with
  | mk frame? rest =>
    cases frame? with
    | none => rw [frames_of_none next, frames_of_none (h.trans next)]
    | some frame => rw [frames_of_some next, frames_of_some (h.trans next)]

/-- **The frames of a row are those of its front, and those of the rest behind what the front
leaves.** -/
theorem frames_append (short : HasShortLines buffer) (more : List UInt8) :
    frames (buffer ++ more) =
      ((frames buffer).1 ++ (frames ((frames buffer).2 ++ more)).1,
        (frames ((frames buffer).2 ++ more)).2) := by
  induction buffer using nextFrame_induction with
  | wait buffer rest next =>
      rw [frames_of_none next, List.nil_append]
      exact frames_congr (nextFrame_append_of_none next more)
  | cut buffer frame rest next ih =>
      have left : rest <:+ buffer := by simpa [next] using suffix_nextFrame buffer
      rw [frames_of_some (nextFrame_append short next more), frames_of_some next,
        ih (short.of_infix left.isInfix)]
      rfl

/-- What the frames leave is the end of what came in. -/
theorem suffix_frames (buffer : List UInt8) : (frames buffer).2 <:+ buffer := by
  induction buffer using nextFrame_induction with
  | wait buffer rest next =>
      rw [frames_of_none next]
      simpa [next] using suffix_nextFrame buffer
  | cut buffer frame rest next ih =>
      rw [frames_of_some next]
      exact ih.trans (by simpa [next] using suffix_nextFrame buffer)

/-- From a buffer without a whole frame, chunks are taken in as if they had come at once. -/
theorem feed_eq {chunks : List (List UInt8)} (wait : nextFrame buffer = (none, buffer))
    (short : HasShortLines (buffer ++ chunks.flatten)) :
    feed buffer chunks = frames (buffer ++ chunks.flatten) := by
  induction chunks generalizing buffer with
  | nil => rw [List.flatten_nil, List.append_nil, frames_of_none wait, feed]
  | cons chunk chunks ih =>
      rw [List.flatten_cons, ← List.append_assoc] at short ⊢
      have front := short.of_infix (List.prefix_append (buffer ++ chunk) chunks.flatten).isInfix
      have left : (frames (buffer ++ chunk)).2 ++ chunks.flatten <:+
          buffer ++ chunk ++ chunks.flatten :=
        List.suffix_append_self_iff.mpr (suffix_frames (buffer ++ chunk))
      rw [feed, ih (nextFrame_frames _) (short.of_infix left.isInfix), frames_append front]

/-- **How octets are cut into chunks makes no difference.**  Take a row of octets in which no line
is longer than the buffer keeps, and cut it into any chunks.  The frames that are cut off while the
chunks come in, and what is left at the end, are those of the whole row. -/
theorem feed_chunks {chunks : List (List UInt8)} (short : HasShortLines chunks.flatten) :
    feed [] chunks = frames chunks.flatten :=
  feed_eq rfl short

/-- A chunk ends inside a confirmation, one is empty, and one ends between carriage return and line
feed; the first octet of the next confirmation is left. -/
theorem feed_chunks_of_four :
    HasShortLines
        ([[0x68], [0x2E, 0x30, 0x35, 0x0D], [], [0x0A, 0x69]] : List (List UInt8)).flatten ∧
      feed [] [[0x68], [0x2E, 0x30, 0x35, 0x0D], [], [0x0A, 0x69]] =
        frames [0x68, 0x2E, 0x30, 0x35, 0x0D, 0x0A, 0x69] ∧
      feed [] [[0x68], [0x2E, 0x30, 0x35, 0x0D], [], [0x0A, 0x69]] =
        ([[0x68, 0x2E], [0x30, 0x35]], [0x69]) :=
  have short : HasShortLines ([[0x68], [0x2E, 0x30, 0x35, 0x0D], [], [0x0A, 0x69]] :
      List (List UInt8)).flatten := hasShortLines_of_length_le (by decide)
  ⟨short, feed_chunks short, by decide⟩

end Lighting.Packet
