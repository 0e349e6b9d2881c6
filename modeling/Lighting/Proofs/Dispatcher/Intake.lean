import Lighting.Proofs.Dispatcher.BusTime
import Lighting.Proofs.Packet.Framing
import Lighting.Proofs.Packet.Reading

/-!
# Taking in octets

What comes in is cut into frames, and the frames are handled in order.  A frame that cannot be read
is passed over, so that the frames after it are handled as if it had not come.  Only a frame whose
text splits is not passed over: there handling stops, with the frames before it handled and those
after it lost.

### The clock

An answer or a report may enter the end of a ramp on the agenda.  The bus units take no longer for
it than the slowest rate, so there is room on the clock if there is room for that.
-/

namespace Lighting

namespace Packet

/-- Whether a frame can be read. -/
def isWellFormed (frame : List UInt8) : Bool := (decode frame).isOk

/-- A report takes no longer than the slowest rate. -/
theorem transition_le_of_readReports {source : UInt8} {octets : List UInt8} {reports : List Report}
    (h : readReports source octets = some reports) {r : Report} (hr : r ∈ reports) :
    r.transition ≤ Rate.slowest.duration := by
  obtain ⟨entries, row, rfl⟩ := Option.map_eq_some_iff.mp h
  obtain ⟨e, he, shown⟩ := List.mem_filterMap.mp hr
  cases e with
  | on address => cases shown; exact Nat.zero_le _
  | off address => cases shown; exact Nat.zero_le _
  | endRamp address => cases shown
  | ramp rate address level =>
      cases shown
      exact Rate.duration_le_slowest (Entries.isKnown_of_read row _ he)

theorem transition_le_of_decode {frame : List UInt8} {reports : List Report}
    (h : decode frame = .ok (.status reports)) {r : Report} (hr : r ∈ reports) :
    r.transition ≤ Rate.slowest.duration := by
  obtain ⟨source, body, row⟩ := readReports_of_decode h
  exact transition_le_of_readReports row hr

end Packet

namespace Dispatcher

variable {d d' : Dispatcher} {now : Instant}

/-! ## One frame -/

/-- A frame that cannot be read is passed over. -/
theorem onFrame_of_malformed {frame : List UInt8} (bad : Packet.isWellFormed frame = false)
    (whole : Packet.decode frame ≠ .error .splitCharacter) (d : Dispatcher) (now : Instant) :
    d.onFrame now frame = .ok d := by
  unfold Packet.isWellFormed at bad
  unfold onFrame
  cases decoded : Packet.decode frame with
  | ok inbound => rw [decoded] at bad; cases bad
  | error e =>
      rw [decoded] at whole
      cases e <;> first | rfl | exact absurd rfl whole

theorem settleAfter_eq_ok {span : Duration} (room : (now.add? span).isSome) (d : Dispatcher)
    (a : Address) : ∃ d', d.settleAfter a now span = .ok d' := by
  obtain ⟨deadline, reach⟩ := Option.isSome_iff_exists.mp room
  exact ⟨d.settleAt a deadline, by simp only [settleAfter, reach]⟩

theorem onReports_eq_ok {reports : List Packet.Report}
    (short : ∀ r ∈ reports, (now.add? r.transition).isSome) (d : Dispatcher) :
    ∃ d', onReports now reports d = .ok d' := by
  induction reports generalizing d with
  | nil => exact ⟨d, rfl⟩
  | cons r rs ih =>
      obtain ⟨first, short⟩ := List.forall_mem_cons.mp short
      have taken : ∃ e, d.onReport now r = .ok e := by
        unfold onReport
        split
        · exact ⟨d, rfl⟩
        · dsimp only
          split
          · exact ⟨_, rfl⟩
          · exact settleAfter_eq_ok first _ _
      obtain ⟨e, taken⟩ := taken
      obtain ⟨d', rest⟩ := ih short e
      exact ⟨d', by rw [onReports, taken]; exact rest⟩

theorem onAccepted_eq_ok {a : Attempt} (room : (now.add? (busTime a.command.transition)).isSome)
    (d : Dispatcher) : ∃ d', d.onAccepted a now = .ok d' := by
  unfold onAccepted
  dsimp only
  split
  · obtain ⟨e, settled⟩ := settleAfter_eq_ok room
      (d.tell (.resolved a.command.id a.command.address .confirmed)) a.command.address
    exact ⟨_, by rw [settled]; rfl⟩
  · split
    · exact ⟨_, rfl⟩
    · exact ⟨_, rfl⟩

/-- A frame that does not split is handled to its end. -/
theorem onFrame_eq_ok (covered : d.Covered) (room : (now.add? Rate.slowest.duration).isSome)
    {frame : List UInt8} (whole : Packet.decode frame ≠ .error .splitCharacter) :
    ∃ d', d.onFrame now frame = .ok d' := by
  unfold onFrame
  cases decoded : Packet.decode frame with
  | error e => cases e <;> first | exact ⟨d, rfl⟩ | exact absurd decoded whole
  | ok inbound =>
      cases inbound with
      | unrecognized => exact ⟨d, rfl⟩
      | status reports =>
          exact onReports_eq_ok (fun r hr =>
            Instant.isSome_add?_of_le (Packet.transition_le_of_decode decoded hr) room) d
      | confirmation c =>
          dsimp only
          unfold onConfirmation
          cases flight : d.inFlight with
          | none => exact ⟨d, rfl⟩
          | some a =>
              have mine : a.command ∈ d.line := line_of_inFlight flight ▸ List.mem_cons_self
              have short := Instant.isSome_add?_of_le (busTime_le (covered.line _ mine)) room
              dsimp only
              split
              · split
                · exact onAccepted_eq_ok short _
                · exact ⟨_, rfl⟩
              · exact ⟨d, rfl⟩

/-! ## Many frames -/

/-- **Frames that cannot be read are as good as not sent.** -/
theorem onFrames_filter {frames : List (List UInt8)}
    (whole : ∀ f ∈ frames, Packet.decode f ≠ .error .splitCharacter) (now : Instant)
    (d : Dispatcher) :
    onFrames now frames d = onFrames now (frames.filter Packet.isWellFormed) d := by
  induction frames generalizing d with
  | nil => rfl
  | cons f fs ih =>
      obtain ⟨first, whole⟩ := List.forall_mem_cons.mp whole
      cases good : Packet.isWellFormed f with
      | false =>
          rw [List.filter_cons_of_neg (by simp [good]), onFrames, onFrame_of_malformed good first]
          exact ih whole d
      | true =>
          rw [List.filter_cons_of_pos good, onFrames, onFrames]
          exact congrArg _ (funext fun e => ih whole e)

theorem onFrames_append (now : Instant) (front back : List (List UInt8)) (d : Dispatcher) :
    onFrames now (front ++ back) d = (onFrames now front d).bind (onFrames now back) := by
  induction front generalizing d with
  | nil => rfl
  | cons f fs ih =>
      rw [List.cons_append, onFrames, onFrames]
      cases d.onFrame now f with
      | error stop => rfl
      | ok e => exact ih e

/-- Frames that do not split are handled to the last one. -/
theorem onFrames_eq_ok (orderly : d.Orderly) (covered : d.Covered)
    (room : (now.add? Rate.slowest.duration).isSome) {frames : List (List UInt8)}
    (whole : ∀ f ∈ frames, Packet.decode f ≠ .error .splitCharacter) :
    ∃ d', onFrames now frames d = .ok d' := by
  induction frames generalizing d with
  | nil => exact ⟨d, rfl⟩
  | cons f fs ih =>
      obtain ⟨first, whole⟩ := List.forall_mem_cons.mp whole
      obtain ⟨e, handled⟩ := onFrame_eq_ok covered room first
      have step : d.step (.frame f now) = .ok (none, e) := by rw [Dispatcher.step, handled]; rfl
      obtain ⟨d', rest⟩ := ih (orderly.step step) ((turn orderly.timely step).covered orderly covered)
        whole
      exact ⟨d', by rw [onFrames, handled]; exact rest⟩

/-! ## Data -/

/-- The frames that are whole once octets have come in. -/
def arrivals (d : Dispatcher) (octets : List UInt8) : List (List UInt8) :=
  (Packet.frames (d.buffer ++ octets)).1

/-- The dispatcher that keeps what is left after the whole frames. -/
def retain (d : Dispatcher) (octets : List UInt8) : Dispatcher :=
  { d with buffer := (Packet.frames (d.buffer ++ octets)).2 }

/-- **Data is handled up to the first frame that splits.**  If none of its frames does, data is
handled to its end, and every frame that can be read is handled as if the others had not come.  The
first one that does stops the dispatcher, when the frames before it are handled.  Decoding breaks off
at a frame exactly if its text splits, and never if its octets lie below 128. -/
theorem data_intake {settings : Settings} {excluded : List Address} {steps : List Step}
    {lines : List (List UInt8)}
    (reached : (create settings excluded).run steps = .ok (lines, d))
    (room : (now.add? Rate.slowest.duration).isSome) (octets : List UInt8) :
    (∀ frame, Packet.decode frame = .error .splitCharacter ↔ Packet.confirmation? frame = none ∧
      ∃ cs, Text.Utf8.decode frame = some cs ∧ Text.Utf8.size (Text.trim cs) % 2 = 0 ∧
        Packet.Splits (Text.trim cs)) ∧
    ((∀ b ∈ d.buffer ++ octets, b.toNat < 0x80) →
      ∀ f ∈ d.arrivals octets, Packet.decode f ≠ .error .splitCharacter) ∧
    ((∀ f ∈ d.arrivals octets, Packet.decode f ≠ .error .splitCharacter) →
      ∃ d', d.onLink (.data octets) now = .ok d' ∧
        onFrames now ((d.arrivals octets).filter Packet.isWellFormed) (d.retain octets) = .ok d') ∧
    (∀ front f back, d.arrivals octets = front ++ f :: back →
      (∀ g ∈ front, Packet.decode g ≠ .error .splitCharacter) →
      Packet.decode f = .error .splitCharacter →
        ∃ d', d.onLink (.data octets) now = .error ⟨.splitCharacter, d'⟩ ∧
          onFrames now (front.filter Packet.isWellFormed) (d.retain octets) = .ok d') ∧
    Packet.nextFrame (d.retain octets).buffer = (none, (d.retain octets).buffer) := by
  have orderly := (orderly_create settings excluded).run reached
  have covered := (covered_create settings excluded).run (orderly_create settings excluded) reached
  have kept : d.step (.buffer (d.retain octets).buffer) = .ok (none, d.retain octets) := rfl
  have orderly' := orderly.step kept
  have covered' := (turn orderly.timely kept).covered orderly covered
  have data : d.onLink (.data octets) now = onFrames now (d.arrivals octets) (d.retain octets) := rfl
  refine ⟨fun frame => Packet.decode_eq_split_iff, fun low f hf => ?_, fun whole => ?_, ?_,
    Packet.nextFrame_frames _⟩
  · exact Packet.decode_ne_split_of_low fun b hb => low b (Packet.frames_subset hf hb)
  · obtain ⟨d', handled⟩ := onFrames_eq_ok orderly' covered' room whole
    exact ⟨d', data.trans handled, onFrames_filter whole now _ ▸ handled⟩
  · intro front f back cut whole splits
    obtain ⟨d', handled⟩ := onFrames_eq_ok orderly' covered' room whole
    refine ⟨d', ?_, onFrames_filter whole now _ ▸ handled⟩
    rw [data, cut, onFrames_append, handled]
    show (d'.onFrame now f).bind _ = _
    simp only [onFrame, splits]
    rfl

/-- A line that cannot be read comes in before an answer, and the answer is taken. -/
theorem data_intake_of_answer :
    ∃ lines d, (create .standard []).run
        [.linkUp, .issue, .enqueue ⟨⟨1⟩, ⟨6⟩, .setLevel ⟨40⟩, .start⟩ .start, .poll .start] =
          .ok (lines, d) ∧
      (Instant.start.add? Rate.slowest.duration).isSome = true ∧
      d.arrivals [0x7A, 0x7A, 0x0D, 0x68, 0x2E] = [[0x7A, 0x7A], [0x68, 0x2E]] ∧
      ∃ d', d.onLink (.data [0x7A, 0x7A, 0x0D, 0x68, 0x2E]) .start = .ok d' ∧
        onFrames .start [[0x68, 0x2E]] (d.retain [0x7A, 0x7A, 0x0D, 0x68, 0x2E]) = .ok d' := by
  obtain ⟨⟨lines, d⟩, reached, seen⟩ := exists_ok
    (x := (create .standard []).run
      [.linkUp, .issue, .enqueue ⟨⟨1⟩, ⟨6⟩, .setLevel ⟨40⟩, .start⟩ .start, .poll .start])
    (f := fun r => (r.2.arrivals [0x7A, 0x7A, 0x0D, 0x68, 0x2E], r.2.buffer))
    (b := ([[0x7A, 0x7A], [0x68, 0x2E]], [])) (by decide +kernel)
  obtain ⟨cut, buffer⟩ := Prod.mk.inj seen
  have cut : d.arrivals [0x7A, 0x7A, 0x0D, 0x68, 0x2E] = [[0x7A, 0x7A], [0x68, 0x2E]] := cut
  have room : (Instant.start.add? Rate.slowest.duration).isSome = true := by decide +kernel
  obtain ⟨-, low, handled, -⟩ := data_intake reached room [0x7A, 0x7A, 0x0D, 0x68, 0x2E]
  obtain ⟨d', taken, read⟩ := handled (low (by rw [buffer]; decide +kernel))
  rw [cut, show [[0x7A, 0x7A], [0x68, 0x2E]].filter Packet.isWellFormed = [[0x68, 0x2E]] by
    decide +kernel] at read
  exact ⟨lines, d, reached, room, cut, d', taken, read⟩

/-- Two digits on either side of a character of two octets stop the dispatcher, and the answer that
comes after them is lost. -/
theorem answer_lost :
    Packet.decode [0x30, 0xC3, 0xA9, 0x30] = .error .splitCharacter ∧
    ∃ lines d stop, (create .standard []).run
        [.linkUp, .issue, .enqueue ⟨⟨1⟩, ⟨6⟩, .setLevel ⟨40⟩, .start⟩ .start, .poll .start] =
          .ok (lines, d) ∧
      d.onLink (.data [0x30, 0xC3, 0xA9, 0x30, 0x0D, 0x68, 0x2E]) .start = .error stop ∧
      stop.cause = .splitCharacter ∧ stop.dispatcher.inFlight.isSome = true := by
  obtain ⟨⟨lines, d⟩, reached, seen⟩ := exists_ok
    (x := (create .standard []).run
      [.linkUp, .issue, .enqueue ⟨⟨1⟩, ⟨6⟩, .setLevel ⟨40⟩, .start⟩ .start, .poll .start])
    (f := fun r =>
      (r.2.arrivals [0x30, 0xC3, 0xA9, 0x30, 0x0D, 0x68, 0x2E], r.2.inFlight.isSome))
    (b := ([[0x30, 0xC3, 0xA9, 0x30], [0x68, 0x2E]], true)) (by decide +kernel)
  obtain ⟨cut, flight⟩ := Prod.mk.inj seen
  have cut : d.arrivals [0x30, 0xC3, 0xA9, 0x30, 0x0D, 0x68, 0x2E] =
    [[0x30, 0xC3, 0xA9, 0x30], [0x68, 0x2E]] := cut
  have splits : Packet.decode [0x30, 0xC3, 0xA9, 0x30] = .error .splitCharacter := by
    decide +kernel
  refine ⟨splits, lines, d,
    ⟨.splitCharacter, d.retain [0x30, 0xC3, 0xA9, 0x30, 0x0D, 0x68, 0x2E]⟩, reached, ?_, rfl, flight⟩
  show onFrames .start (d.arrivals _) (d.retain _) = _
  rw [cut, onFrames, onFrame, splits]
  rfl

end Dispatcher

end Lighting
