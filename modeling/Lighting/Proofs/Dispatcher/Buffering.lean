import Lighting.Proofs.Dispatcher.Step
import Lighting.Proofs.Packet.Conservation

/-!
# What a dispatcher keeps of its octets

A dispatcher takes octets in chunk by chunk.  It cuts off the frames that are whole, handles them in
order, and keeps the rest for the next chunk.  Handling a frame does not touch what is kept, so that
between two chunks the dispatcher holds what `Packet.feed` says, and nothing that came in is lost on
the way.
-/

namespace Lighting.Dispatcher

variable {d d' : Dispatcher} {now : Instant}

/-! ## Handling a frame -/

theorem buffer_unsettle (d : Dispatcher) (a : Address) : (d.unsettle a).buffer = d.buffer := by
  unfold unsettle
  split <;> rfl

theorem buffer_settleAfter {a : Address} {span : Duration}
    (h : d.settleAfter a now span = .ok d') : d'.buffer = d.buffer := by
  unfold settleAfter at h
  split at h
  · cases h
    rfl
  · cases h

theorem buffer_retryOrFail (d : Dispatcher) (a : Attempt) :
    (d.retryOrFail a).buffer = d.buffer := by
  unfold retryOrFail
  split
  · rfl
  · dsimp only
    split <;> rfl

theorem buffer_onAccepted {a : Attempt} (h : d.onAccepted a now = .ok d') :
    d'.buffer = d.buffer := by
  unfold onAccepted at h
  dsimp only at h
  split at h
  · unfold Except.map at h
    split at h
    · cases h
    · rename_i settled
      cases h
      exact (buffer_settleAfter settled).trans rfl
  · split at h
    · cases h
      rfl
    · cases h
      exact buffer_unsettle _ _

theorem buffer_onConfirmation {c : Packet.Confirmation} (h : d.onConfirmation c now = .ok d') :
    d'.buffer = d.buffer := by
  unfold onConfirmation at h
  split at h
  · cases h
    rfl
  · dsimp only at h
    split at h
    · split at h
      · exact (buffer_onAccepted h).trans rfl
      · cases h
        exact buffer_retryOrFail _ _
    · cases h
      rfl

theorem buffer_onReport {r : Packet.Report} (h : d.onReport now r = .ok d') :
    d'.buffer = d.buffer := by
  unfold onReport at h
  split at h
  · cases h
    rfl
  · dsimp only at h
    split at h
    · cases h
      exact buffer_unsettle _ _
    · exact (buffer_settleAfter h).trans rfl

theorem buffer_onReports {rs : List Packet.Report} (h : onReports now rs d = .ok d') :
    d'.buffer = d.buffer := by
  induction rs generalizing d with
  | nil =>
      cases h
      rfl
  | cons r rs ih =>
      unfold onReports at h
      cases first : d.onReport now r with
      | error stop => rw [first] at h; cases h
      | ok e =>
          rw [first] at h
          exact (ih h).trans (buffer_onReport first)

/-- A frame that is handled does not touch what is kept. -/
theorem buffer_onFrame {frame : List UInt8} (h : d.onFrame now frame = .ok d') :
    d'.buffer = d.buffer := by
  unfold onFrame at h
  split at h
  · exact buffer_onConfirmation h
  · exact buffer_onReports h
  · cases h
    rfl
  · cases h
  · cases h
    rfl

theorem buffer_onFrames {frames : List (List UInt8)} (h : onFrames now frames d = .ok d') :
    d'.buffer = d.buffer := by
  induction frames generalizing d with
  | nil =>
      cases h
      rfl
  | cons frame frames ih =>
      unfold onFrames at h
      cases first : d.onFrame now frame with
      | error stop => rw [first] at h; cases h
      | ok e =>
          rw [first] at h
          exact (ih h).trans (buffer_onFrame first)

/-! ## Chunks -/

/-- **No octet is lost on its way into the frames.**  Chunks of any octets come in, one after the
other.  The frames that are cut off, and what is left at the end, spell the chunks without their line
ends; no frame is empty or holds a line end.  Each chunk is a loop that ends, in one way only and
with no more frames than octets, and what it leaves is no longer than 512 octets, holds no line end
and does not begin with a confirmation.  A dispatcher goes through that loop when the chunk comes in:
it handles the frames of the loop, and keeps what the loop leaves. -/
theorem octets_conserved (chunks : List (List UInt8)) :
    (Packet.feed [] chunks).1.flatten ++ (Packet.feed [] chunks).2 =
      chunks.flatten.filter (fun b => b ≠ 0x0D ∧ b ≠ 0x0A) ∧
    (∀ frame ∈ (Packet.feed [] chunks).1, frame ≠ [] ∧ ∀ b ∈ frame, b ≠ 0x0D ∧ b ≠ 0x0A) ∧
    ∀ front chunk back, chunks = front ++ chunk :: back →
      ∃ cut, (Packet.feed [] (front ++ [chunk])).1 = (Packet.feed [] front).1 ++ cut ∧
        (∀ cut' rest, Packet.Drains ((Packet.feed [] front).2 ++ chunk) cut' rest ↔
          cut' = cut ∧ rest = (Packet.feed [] (front ++ [chunk])).2) ∧
        cut.length ≤ ((Packet.feed [] front).2 ++ chunk).length ∧
        Packet.Unfinished (Packet.feed [] (front ++ [chunk])).2 ∧
        ∀ (d : Dispatcher) (now : Instant), d.buffer = (Packet.feed [] front).2 →
          d.onLink (.data chunk) now =
            onFrames now cut { d with buffer := (Packet.feed [] (front ++ [chunk])).2 } ∧
          ∀ d', d.onLink (.data chunk) now = .ok d' →
            d'.buffer = (Packet.feed [] (front ++ [chunk])).2 := by
  refine ⟨Packet.flatten_feed chunks, fun frame hf => ?_, fun front chunk back _ => ?_⟩
  · obtain ⟨some, free⟩ := Packet.whole_of_mem_feed hf
    exact ⟨some, fun b hb => Packet.isLineEnd_eq_false_iff.mp (free b hb)⟩
  · have last := Packet.feed_concat [] front chunk
    refine ⟨(Packet.frames ((Packet.feed [] front).2 ++ chunk)).1, by rw [last], fun cut' rest => ?_,
      Packet.length_frames_le _, Packet.unfinished_feed _, fun d now kept => ?_⟩
    · rw [Packet.drains_iff, last, Prod.ext_iff, eq_comm, @eq_comm _ _ rest]
    · have handled : d.onLink (.data chunk) now =
          onFrames now (Packet.frames ((Packet.feed [] front).2 ++ chunk)).1
            { d with buffer := (Packet.feed [] (front ++ [chunk])).2 } := by
        rw [last, ← kept]
        rfl
      exact ⟨handled, fun d' h => buffer_onFrames (handled ▸ h)⟩

/-- A chunk ends inside a confirmation, and the next one brings its second octet and a line that
grows too long; the line end after it is dropped, and the first octet of a confirmation is left. -/
theorem octets_conserved_of_overlong :
    let line : List UInt8 := List.replicate 513 0x41
    let chunks : List (List UInt8) := [[0x68], 0x2E :: 0x0D :: line, [0x0A, 0x69]]
    Packet.feed [] chunks = ([[0x68, 0x2E], line], [0x69]) ∧
      [[0x68, 0x2E], line].flatten ++ [0x69] =
        chunks.flatten.filter (fun b => b ≠ 0x0D ∧ b ≠ 0x0A) ∧
      (line ≠ [] ∧ ∀ b ∈ line, b ≠ 0x0D ∧ b ≠ 0x0A) ∧
      Packet.Drains ([0x68] ++ 0x2E :: 0x0D :: line) [[0x68, 0x2E], line] [] ∧
      ∃ d', { create .standard [] with buffer := [0x68] }.onLink
          (.data (0x2E :: 0x0D :: line)) .start = .ok d' ∧ d'.buffer = [] := by
  intro line chunks
  have cut : Packet.feed [] chunks = ([[0x68, 0x2E], line], [0x69]) := by decide +kernel
  have front : Packet.feed [] [[0x68]] = ([], [0x68]) := by decide +kernel
  have next : Packet.feed [] ([[0x68]] ++ [0x2E :: 0x0D :: line]) = ([[0x68, 0x2E], line], []) := by
    decide +kernel
  obtain ⟨spelt, whole, rounds⟩ := octets_conserved chunks
  rw [cut] at spelt whole
  obtain ⟨frames, all, drains, -, -, taken⟩ :=
    rounds [[0x68]] (0x2E :: 0x0D :: line) [[0x0A, 0x69]] rfl
  rw [front, next] at all drains taken
  obtain rfl : [[0x68, 0x2E], line] = frames := all
  obtain ⟨d', handled, -⟩ := exists_ok (f := fun _ => ()) (b := ())
    (x := { create .standard [] with buffer := [0x68] }.onLink
      (.data (0x2E :: 0x0D :: line)) .start) (by decide +kernel)
  exact ⟨cut, spelt, whole line (by simp), (drains _ _).mpr ⟨rfl, rfl⟩, d', handled,
    (taken _ .start rfl).2 d' handled⟩

end Lighting.Dispatcher
