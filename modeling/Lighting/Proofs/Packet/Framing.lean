import Mathlib.Data.List.DropRight
import Lighting.Packet.Line

/-!
# Cutting frames off

A frame takes at least one octet off what has come in, so cutting comes to an end, and it ends only
where no whole frame is left: the bound on the number of frames is never reached.  The frames hold
nothing but what came in.

`Cut` says once how the next frame is cut off, by what the row is made of and not by a search in it.
All else is read off its four cases.
-/

namespace Lighting.Packet

variable {buffer row frame rest : List UInt8} {frame? : Option (List UInt8)}

/-! ## One frame -/

/-- How the next frame is cut off a row that does not begin with a line end. -/
inductive Cut (row : List UInt8) : Option (List UInt8) → List UInt8 → Prop where
  /-- A confirmation is whole with its second octet. -/
  | confirmation {code status : UInt8} {rest : List UInt8} (eq : row = code :: status :: rest)
      (confirms : startsWithConfirmation row = true) : Cut row (some [code, status]) rest
  /-- A line is whole when its end is there. -/
  | line {text rest : List UInt8} {stop : UInt8} (other : startsWithConfirmation row = false)
      (eq : row = text ++ stop :: rest) (ends : isLineEnd stop = true) (full : text ≠ [])
      (free : ∀ b ∈ text, isLineEnd b = false) : Cut row (some text) (stop :: rest)
  /-- A line without an end is cut when it has grown too long. -/
  | overlong (other : startsWithConfirmation row = false) (free : ∀ b ∈ row, isLineEnd b = false)
      (long : maxLine < row.length) : Cut row (some row) []
  /-- Anything else waits. -/
  | wait (other : startsWithConfirmation row = false) (free : ∀ b ∈ row, isLineEnd b = false)
      (short : row.length ≤ maxLine) : Cut row none row

/-- What is left of a buffer without the line ends in front begins with none. -/
theorem isLineEnd_head_dropWhile (buffer : List UInt8) :
    ∀ b ∈ (buffer.dropWhile isLineEnd).head?, isLineEnd b = false := fun b hb => by
  have head := List.head?_dropWhile_not isLineEnd buffer
  rwa [Option.mem_def.mp hb] at head

/-- A text without a line end in front of one is found by looking for it. -/
theorem span_line {text : List UInt8} {stop : UInt8} (free : ∀ b ∈ text, isLineEnd b = false)
    (ends : isLineEnd stop = true) (rest : List UInt8) :
    (text ++ stop :: rest).takeWhile (!isLineEnd ·) = text ∧
      (text ++ stop :: rest).dropWhile (!isLineEnd ·) = stop :: rest := by
  have free : ∀ b ∈ text, (!isLineEnd b) = true := fun b hb => by simp [free b hb]
  rw [List.takeWhile_append_of_pos free, List.dropWhile_append_of_pos free,
    List.takeWhile_cons_of_neg (by simp [ends]), List.dropWhile_cons_of_neg (by simp [ends])]
  simp

/-- **How the next frame is cut off.** -/
theorem cut_nextFrame (buffer : List UInt8) :
    Cut (buffer.dropWhile isLineEnd) (nextFrame buffer).1 (nextFrame buffer).2 := by
  have first := isLineEnd_head_dropWhile buffer
  unfold nextFrame
  dsimp only
  generalize buffer.dropWhile isLineEnd = row at first
  cases confirms : startsWithConfirmation row with
  | true =>
      match row, confirms with
      | code :: status :: rest, confirms => exact .confirmation rfl confirms
  | false =>
      cases ends : row.any isLineEnd with
      | true =>
          obtain ⟨b, there, stops⟩ := List.any_eq_true.mp ends
          obtain ⟨stop, found⟩ := Option.isSome_iff_exists.mp
            (List.find?_isSome.mpr ⟨b, there, stops⟩)
          obtain ⟨stops, text, rest, rfl, free⟩ := List.find?_eq_some_iff_append.mp found
          have free : ∀ b ∈ text, isLineEnd b = false := fun b hb => by simpa using free b hb
          obtain ⟨front, back⟩ := span_line free stops rest
          simp only [if_true, Bool.false_eq_true, if_false, front, back]
          refine .line confirms rfl stops ?_ free
          -- an empty line would begin with its end
          rintro rfl
          exact absurd (first stop rfl) (by simp [stops])
      | false =>
          have free : ∀ b ∈ row, isLineEnd b = false := by simpa using ends
          simp only [Bool.false_eq_true, if_false]
          split
          · rename_i long
            exact .overlong confirms free long
          · rename_i short
            exact .wait confirms free (Nat.not_lt.mp short)

/-- A row is cut in one way only. -/
theorem Cut.nextFrame_eq (h : Cut (buffer.dropWhile isLineEnd) frame? rest) :
    nextFrame buffer = (frame?, rest) := by
  unfold nextFrame
  dsimp only
  generalize buffer.dropWhile isLineEnd = row at h
  cases h with
  | confirmation eq confirms =>
      subst eq
      simp [confirms]
  | @line text rest stop other eq ends full free =>
      subst eq
      obtain ⟨front, back⟩ := span_line free ends rest
      simp [other, ends, front, back]
  | overlong other free long =>
      have none : row.any isLineEnd = false := List.any_eq_false.mpr fun b hb => by simp [free b hb]
      simp only [other, none, long, Bool.false_eq_true, if_false, if_true]
  | wait other free short =>
      have none : rest.any isLineEnd = false :=
        List.any_eq_false.mpr fun b hb => by simp [free b hb]
      simp only [other, none, Nat.not_lt.mpr short, Bool.false_eq_true, if_false]

theorem nextFrame_eq_iff :
    nextFrame buffer = (frame?, rest) ↔ Cut (buffer.dropWhile isLineEnd) frame? rest :=
  ⟨fun h => by simpa [h] using cut_nextFrame buffer, Cut.nextFrame_eq⟩

/-- What is cut off and what is left is the row. -/
theorem Cut.append_eq (h : Cut row (some frame) rest) : frame ++ rest = row := by
  cases h with
  | confirmation eq confirms => exact eq.symm
  | line other eq ends full free => exact eq.symm
  | overlong other free long => exact List.append_nil row

/-- A frame is not empty. -/
theorem Cut.ne_nil (h : Cut row (some frame) rest) : frame ≠ [] := by
  cases h with
  | confirmation eq confirms => exact List.cons_ne_nil _ _
  | line other eq ends full free => exact full
  | overlong other free long =>
      rintro rfl
      exact absurd long (by simp)

/-- **A frame takes an octet off.** -/
theorem length_nextFrame (h : nextFrame buffer = (some frame, rest)) :
    rest.length < buffer.length := by
  have shorter := (buffer.dropWhile_sublist isLineEnd).length_le
  have cut := nextFrame_eq_iff.mp h
  have some := List.length_pos_of_ne_nil cut.ne_nil
  rw [← cut.append_eq, List.length_append] at shorter
  omega

/-- Where no frame is whole, only the line ends in front are gone. -/
theorem eq_dropWhile_of_none (h : nextFrame buffer = (none, rest)) :
    rest = buffer.dropWhile isLineEnd := by
  cases nextFrame_eq_iff.mp h
  rfl

/-- Line ends in front of a frame do not count. -/
theorem nextFrame_dropWhile (buffer : List UInt8) :
    nextFrame (buffer.dropWhile isLineEnd) = nextFrame buffer := by
  unfold nextFrame
  rw [List.dropWhile_idempotent]

/-- Where no whole frame was left, none is left. -/
theorem nextFrame_of_none (h : nextFrame buffer = (none, rest)) :
    nextFrame rest = (none, rest) := by
  rw [eq_dropWhile_of_none h, nextFrame_dropWhile, h, eq_dropWhile_of_none h]

/-- What is left is the end of what came in. -/
theorem suffix_nextFrame (buffer : List UInt8) : (nextFrame buffer).2 <:+ buffer := by
  refine List.IsSuffix.trans ?_ (buffer.dropWhile_suffix isLineEnd)
  have cut := cut_nextFrame buffer
  generalize nextFrame buffer = r at cut
  obtain ⟨frame?, rest⟩ := r
  cases frame? with
  | none => cases cut; exact List.suffix_refl _
  | some frame => exact ⟨frame, cut.append_eq⟩

/-! ## All frames -/

/-- To show something of every buffer, show it where no frame is whole, and for a buffer with a
whole frame if it holds for what is left. -/
theorem nextFrame_induction {P : List UInt8 → Prop}
    (wait : ∀ buffer rest, nextFrame buffer = (none, rest) → P buffer)
    (cut : ∀ buffer frame rest, nextFrame buffer = (some frame, rest) → P rest → P buffer)
    (buffer : List UInt8) : P buffer := by
  induction length : buffer.length using Nat.strongRecOn generalizing buffer with
  | _ n ih =>
    cases next : nextFrame buffer with
    | mk frame? rest =>
      cases frame? with
      | none => exact wait buffer rest next
      | some frame =>
          exact cut buffer frame rest next (ih _ (length ▸ length_nextFrame next) rest rfl)

/-- With more fuel than octets there is fuel enough. -/
theorem framesUpTo_eq {fuel : Nat} (enough : buffer.length < fuel) :
    framesUpTo fuel buffer = frames buffer := by
  induction buffer using nextFrame_induction generalizing fuel with
  | wait buffer rest next =>
      obtain ⟨fuel, rfl⟩ := Nat.exists_eq_succ_of_ne_zero (Nat.ne_of_gt (Nat.zero_lt_of_lt enough))
      simp only [frames, framesUpTo, next]
  | cut buffer frame rest next ih =>
      have shorter := length_nextFrame next
      obtain ⟨fuel, rfl⟩ := Nat.exists_eq_succ_of_ne_zero (Nat.ne_of_gt (Nat.zero_lt_of_lt enough))
      have enough : framesUpTo fuel rest = frames rest := ih (by omega)
      have whole : framesUpTo buffer.length rest = frames rest := ih shorter
      simp only [frames, framesUpTo, next, enough, whole]

/-- No frame is cut off where none is whole. -/
theorem frames_of_none (h : nextFrame buffer = (none, rest)) : frames buffer = ([], rest) := by
  simp only [frames, framesUpTo, h]

/-- The frames are the next one and those of what it leaves. -/
theorem frames_of_some (h : nextFrame buffer = (some frame, rest)) :
    frames buffer = (frame :: (frames rest).1, (frames rest).2) := by
  simp only [frames.eq_def buffer, framesUpTo, h, framesUpTo_eq (length_nextFrame h)]

/-- **All whole frames are cut off.** -/
theorem nextFrame_frames (buffer : List UInt8) :
    nextFrame (frames buffer).2 = (none, (frames buffer).2) := by
  induction buffer using nextFrame_induction with
  | wait buffer rest next =>
      rw [frames_of_none next]
      exact nextFrame_of_none next
  | cut buffer frame rest next ih =>
      rw [frames_of_some next]
      exact ih

/-- The frames hold nothing but what came in. -/
theorem frames_subset {frame : List UInt8} (h : frame ∈ (frames buffer).1) : frame ⊆ buffer := by
  induction buffer using nextFrame_induction with
  | wait buffer rest next =>
      rw [frames_of_none next] at h
      cases h
  | cut buffer first rest next ih =>
      have came : (first ++ rest) ⊆ buffer := by
        rw [(nextFrame_eq_iff.mp next).append_eq]
        exact (buffer.dropWhile_sublist isLineEnd).subset
      rw [frames_of_some next] at h
      rcases List.mem_cons.mp h with rfl | h
      · exact List.Subset.trans (List.subset_append_left _ _) came
      · exact List.Subset.trans (ih h) (List.Subset.trans (List.subset_append_right _ _) came)

end Lighting.Packet
