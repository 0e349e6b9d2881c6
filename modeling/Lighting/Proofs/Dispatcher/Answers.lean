import Lighting.Proofs.Dispatcher.Numbering

/-!
# Answers

The interface answers a line with the line's confirmation character and a status character.  An
answer names neither the command nor the attempt, so that all rests on the character: an answer is
taken for one to the attempt in flight exactly if it bears the character of the line that was sent
last, and otherwise it is passed over.

### Where the character comes from

A line carries its character in the octet before its end, the attempt in flight keeps it in its key,
and the answer brings it back.  That the three agree is a matter of the numbering of the lines: the
attempt in flight was made by the last line, and its key and its line were made from the same number.
Characters are used again after nineteen lines, so that none of the eighteen lines before the last
one bears the character of the last one.
-/

namespace Lighting

namespace Packet

/-- The confirmation character that a line carries: the octet before its end. -/
def lineToken (line : List UInt8) : Option UInt8 := line.dropLast.getLast?

@[simp] theorem lineToken_encode (c : Command) (nonce : UInt64) :
    lineToken (encode c nonce) = some (token nonce) := by
  have split : encode c nonce =
      ([0x5C] ++ octets (Text.hexUpper (packet c)) ++ [token nonce]) ++ [0x0D] := by
    simp [encode]
  rw [lineToken, split, List.dropLast_concat, List.getLast?_concat]

/-- No command line bears the character of the lines that set the interface up. -/
theorem token_ne_setupToken (nonce : UInt64) : token nonce ≠ setupToken := by
  have differ : ∀ i < 19, tokens.getD i setupToken ≠ setupToken := by decide
  exact differ _ (Nat.mod_lt _ (by decide))

/-- Two octets that look like an answer are one. -/
theorem decode_answer {code status : UInt8} {accepted : Bool} (character : isToken code = true)
    (meaning : accepted? status = some accepted) :
    decode [code, status] = .ok (.confirmation ⟨code, none, none, accepted⟩) := by
  simp [decode, confirmation?, character, meaning]

/-- Only a full stop accepts a line. -/
theorem eq_fullStop_iff {status : UInt8} {accepted : Bool} (meaning : accepted? status = some accepted) :
    accepted = true ↔ status = 0x2E := by
  unfold accepted? at meaning
  split at meaning
  · rename_i stop
    simp [stop, ← Option.some.inj meaning]
  · rename_i other
    split at meaning
    · simp [other, ← Option.some.inj meaning]
    · cases meaning

end Packet

namespace Dispatcher

/-- The attempt in flight has ended and the end of its command was told; what waits has stayed. -/
structure Concludes (d : Dispatcher) (a : Attempt) (outcome : Outcome) (d' : Dispatcher) : Prop where
  /-- Nothing is in flight. -/
  flight : d'.inFlight = none
  /-- The line behind the attempt is as it was. -/
  waiting : d'.waiting = d.waiting
  /-- One end was told, that of the attempt's command. -/
  told : d'.resolutions = ⟨a.command.id, a.command.address, outcome⟩ :: d.resolutions
  /-- The deadline of the attempt is gone. -/
  deadline : a.entry ∉ d'.agenda.entries

/-- The attempt in flight has ended and its command waits in front, with the attempt counted. -/
structure Repeats (d : Dispatcher) (a : Attempt) (d' : Dispatcher) : Prop where
  /-- Nothing is in flight. -/
  flight : d'.inFlight = none
  /-- The command stands in front. -/
  waiting : d'.waiting = ⟨a.command, a.origin, a.number⟩ :: d.waiting
  /-- No end was told. -/
  told : d'.resolutions = d.resolutions
  /-- The deadline of the attempt is gone. -/
  deadline : a.entry ∉ d'.agenda.entries

variable {d d' : Dispatcher}

/-- While nothing is in flight no deadline runs. -/
theorem Timely.no_deadline (h : d.Timely) (idle : d.inFlight = none) (a : Attempt) :
    a.entry ∉ d.agenda.entries := by
  intro there
  obtain ⟨b, flight, -⟩ := h.awaits.owned _ there _ _ rfl
  rw [idle] at flight
  cases flight

theorem Beside.concludes {a : Attempt} {outcome : Outcome} (rest : Beside (d.finish a outcome) d')
    (orderly : d.Orderly) (flight : d.inFlight = some a) : d.Concludes a outcome d' where
  flight := rest.inFlight
  waiting := rest.waiting
  told := rest.resolutions
  deadline := (rest.timely (orderly.finish flight outcome).timely).no_deadline rest.inFlight a

theorem repeats_putBack (orderly : d.Orderly) {a : Attempt} (flight : d.inFlight = some a) :
    d.Repeats a (d.putBack a a.number) :=
  ⟨rfl, rfl, rfl, (orderly.putBack flight a.number).timely.no_deadline rfl a⟩

/-- An attempt that was rejected is repeated, or it was the last one. -/
theorem onConfirmation_rejected (orderly : d.Orderly) {a : Attempt} (flight : d.inFlight = some a)
    {c : Packet.Confirmation} (answer : a.key.matches c = true) (rejected : c.accepted = false)
    (now : Instant) :
    ∃ d', d.onConfirmation c now = .ok d' ∧
      if d.settings.retry.retries a.number then d.Repeats a d'
      else d.Concludes a (.failed a.number) d' := by
  refine ⟨(d.land a).retryOrFail a, ?_, ?_⟩
  · simp only [onConfirmation, flight, answer, rejected, if_true, Bool.false_eq_true, if_false]
    rfl
  · rcases d.beside_retryOrFail a with ⟨more, eq⟩ | ⟨last, rest⟩
    · rw [if_pos more, eq]
      exact repeats_putBack orderly flight
    · rw [last]
      exact rest.concludes orderly flight

/-- An attempt that was accepted is confirmed, even if the end of its ramp lies beyond the clock. -/
theorem onConfirmation_accepted (orderly : d.Orderly) {a : Attempt} (flight : d.inFlight = some a)
    {c : Packet.Confirmation} (answer : a.key.matches c = true) (accepted : c.accepted = true)
    (now : Instant) :
    ∃ d', d.Concludes a .confirmed d' ∧
      (d.onConfirmation c now = .ok d' ∨
        d.onConfirmation c now = .error ⟨.endOfClock, d'⟩ ∧
          now.add? (busTime a.command.transition) = none) := by
  have eq : d.onConfirmation c now = (d.land a).onAccepted a now := by
    simp only [onConfirmation, flight, answer, accepted, if_true]
    rfl
  rw [eq]
  cases outcome : (d.land a).onAccepted a now with
  | ok d' => exact ⟨d', (beside_onAccepted outcome).concludes orderly flight, Or.inl rfl⟩
  | error stop =>
      -- only the entry of the ramp's end can fail, after the end of the command was told
      unfold onAccepted at outcome
      dsimp only at outcome
      split at outcome
      · unfold settleAfter at outcome
        split at outcome
        · cases outcome
        · rename_i beyond
          cases outcome
          exact ⟨d.finish a .confirmed, (Beside.refl _).concludes orderly flight, Or.inr ⟨rfl, beyond⟩⟩
      · split at outcome <;> cases outcome

end Dispatcher

namespace World

/-- The confirmation character of the line that was sent last. -/
def lastToken (w : World) : Option UInt8 :=
  w.history.lines.getLast?.bind fun t => Packet.lineToken t.frame

/-- The attempt in flight is recognised by the character of the line that was sent last. -/
theorem Numbered.key_matches {w : World} (h : w.Numbered) {a : Attempt}
    (flight : w.dispatcher.inFlight = some a) (code : UInt8) (accepted : Bool) :
    a.key.matches ⟨code, none, none, accepted⟩ = true ↔ w.lastToken = some code := by
  obtain ⟨t, last, rfl⟩ := Option.map_eq_some_iff.mp (h.flight a flight)
  obtain ⟨frame, key⟩ := h.line _ t (by rw [← List.getLast?_eq_getElem?, last])
  rw [lastToken, last, Option.bind_some, frame, key, Packet.lineToken_encode]
  simp only [Packet.MatchKey.matches, Packet.matchKey, Option.all_none, Bool.and_true, beq_iff_eq,
    Option.some.injEq]
  exact eq_comm

/-- The last character is that of a command line. -/
theorem Numbered.lastToken_ne_setupToken {w : World} (h : w.Numbered) :
    w.lastToken ≠ some Packet.setupToken := by
  unfold lastToken
  cases last : w.history.lines.getLast? with
  | none => nofun
  | some t =>
      obtain ⟨frame, -⟩ := h.line _ t (by rw [← List.getLast?_eq_getElem?, last])
      rw [Option.bind_some, frame, Packet.lineToken_encode, ne_eq, Option.some.injEq]
      exact Packet.token_ne_setupToken _

/-- None of the eighteen lines before the last one bears its character. -/
theorem Numbered.lastToken_ne {w : World} (h : w.Numbered)
    (few : w.history.lines.length < UInt64.size) {i : Nat} {t : Transmission}
    (there : w.history.lines[i]? = some t) (before : i + 1 < w.history.lines.length)
    (near : w.history.lines.length ≤ i + 19) : w.lastToken ≠ Packet.lineToken t.frame := by
  obtain ⟨last, eq⟩ : ∃ last, w.history.lines[w.history.lines.length - 1]? = some last :=
    ⟨_, List.getElem?_eq_getElem (by omega)⟩
  have apart := Packet.token_ne (i := i) (j := w.history.lines.length - 1) (by omega)
    (fun multiple => by have := Nat.le_of_dvd (by omega) multiple; omega) (by omega)
  rw [lastToken, List.getLast?_eq_getElem?, eq, Option.bind_some, (h.line _ last eq).1,
    (h.line i t there).1, Packet.lineToken_encode, Packet.lineToken_encode, ne_eq, Option.some.injEq]
  exact Ne.symm apart

/-- **An answer is matched exactly.**  It takes effect if and only if an attempt is in flight and it
bears the character of the line that was sent last.  Then it ends the attempt of that line: a full
stop confirms the command, any other status repeats it, or fails it if that was the last attempt.
Otherwise the dispatcher stays as it is, and tells nothing; so it is with the characters of the
eighteen lines before the last one, and with that of the lines that set the interface up. -/
theorem answer_exact {settings : Settings} {excluded : List Address} {steps : List Dispatcher.Step}
    {w : World} (run : (start settings excluded).run steps = .ok w)
    (few : w.history.lines.length < UInt64.size) {code status : UInt8}
    (character : Packet.isToken code = true) (recognised : (Packet.accepted? status).isSome = true)
    (now : Instant) :
    (w.dispatcher.onFrame now [code, status] ≠ .ok w.dispatcher ↔
      w.dispatcher.inFlight.isSome = true ∧ w.lastToken = some code) ∧
    (∀ a, w.dispatcher.inFlight = some a → w.lastToken = some code →
      w.history.lines.getLast?.map Transmission.attempt = some a ∧
      (status = 0x2E → ∃ d', w.dispatcher.Concludes a .confirmed d' ∧
        (w.dispatcher.onFrame now [code, status] = .ok d' ∨
          w.dispatcher.onFrame now [code, status] = .error ⟨.endOfClock, d'⟩ ∧
            now.add? (Dispatcher.busTime a.command.transition) = none)) ∧
      (status ≠ 0x2E → ∃ d', w.dispatcher.onFrame now [code, status] = .ok d' ∧
        if w.dispatcher.settings.retry.retries a.number then w.dispatcher.Repeats a d'
        else w.dispatcher.Concludes a (.failed a.number) d')) ∧
    (∀ i t, w.history.lines[i]? = some t → i + 1 < w.history.lines.length →
      w.history.lines.length ≤ i + 19 → Packet.lineToken t.frame = some code →
        w.dispatcher.onFrame now [code, status] = .ok w.dispatcher) ∧
    (code = Packet.setupToken → w.dispatcher.onFrame now [code, status] = .ok w.dispatcher) := by
  obtain ⟨numbered, orderly⟩ := (numbered_start settings excluded).run
    (Dispatcher.orderly_create settings excluded) run
  obtain ⟨accepted, meaning⟩ := Option.isSome_iff_exists.mp recognised
  have frame : w.dispatcher.onFrame now [code, status] =
      w.dispatcher.onConfirmation ⟨code, none, none, accepted⟩ now := by
    simp only [Dispatcher.onFrame, Packet.decode_answer character meaning]
  have stop := Packet.eq_fullStop_iff meaning
  -- an answer with another character, or to nothing, is passed over
  have unmatched (other : ¬ (w.dispatcher.inFlight.isSome = true ∧ w.lastToken = some code)) :
      w.dispatcher.onFrame now [code, status] = .ok w.dispatcher := by
    rw [frame, Dispatcher.onConfirmation]
    cases flight : w.dispatcher.inFlight with
    | none => rfl
    | some a =>
        have apart : ¬ a.key.matches ⟨code, none, none, accepted⟩ = true := fun same =>
          other ⟨by rw [flight]; rfl, (numbered.key_matches flight code accepted).mp same⟩
        simp [apart]
  have confirmed (a : Attempt) (flight : w.dispatcher.inFlight = some a)
      (last : w.lastToken = some code) (full : status = 0x2E) :=
    Dispatcher.onConfirmation_accepted orderly flight
      ((numbered.key_matches flight code accepted).mpr last) (stop.mpr full) now
  have refused (a : Attempt) (flight : w.dispatcher.inFlight = some a)
      (last : w.lastToken = some code) (other : status ≠ 0x2E) :=
    Dispatcher.onConfirmation_rejected orderly flight
      ((numbered.key_matches flight code accepted).mpr last)
      (Bool.eq_false_iff.mpr fun h => other (stop.mp h)) now
  refine ⟨⟨fun effect => ?_, ?_⟩, ?_, ?_, ?_⟩
  · by_contra other
    exact effect (unmatched other)
  · rintro ⟨some, last⟩ same
    obtain ⟨a, flight⟩ := Option.isSome_iff_exists.mp some
    -- after an answer that is taken nothing is in flight
    have idle : w.dispatcher.inFlight = none := by
      by_cases full : status = 0x2E
      · obtain ⟨d', ends, ok | ⟨error, -⟩⟩ := confirmed a flight last full
        · rw [← frame, same] at ok
          exact (Except.ok.inj ok) ▸ ends.flight
        · rw [← frame, same] at error
          cases error
      · obtain ⟨d', ok, ends⟩ := refused a flight last full
        rw [← frame, same] at ok
        rw [Except.ok.inj ok]
        split at ends
        · exact ends.flight
        · exact ends.flight
    rw [flight] at idle
    cases idle
  · intro a flight last
    rw [frame]
    exact ⟨numbered.flight a flight, confirmed a flight last, refused a flight last⟩
  · intro i t there before near same
    refine unmatched fun taken => ?_
    exact numbered.lastToken_ne few there before near (taken.2.trans same.symm)
  · rintro rfl
    exact unmatched fun taken => numbered.lastToken_ne_setupToken taken.2

/-- Two lines are sent, the first one for a command that was rejected.  An answer with the character
of the first line changes nothing, and an answer with that of the second one confirms its command. -/
theorem answer_exact_of_two :
    ∃ w, (start .standard []).run
        [.linkUp, .issue, .enqueue ⟨⟨1⟩, ⟨6⟩, .setLevel ⟨40⟩, .start⟩ .start, .poll .start,
          .frame [0x68, 0x23] .start, .poll (.ofMillis 1000)] = .ok w ∧
      w.history.lines.length = 2 ∧ w.dispatcher.inFlight.isSome = true ∧
      w.dispatcher.onFrame (.ofMillis 1000) [0x68, 0x2E] = .ok w.dispatcher ∧
      ∃ a d', w.dispatcher.inFlight = some a ∧ w.dispatcher.Concludes a .confirmed d' := by
  obtain ⟨w, run, seen⟩ := Dispatcher.exists_ok
    (x := (start .standard []).run
      [.linkUp, .issue, .enqueue ⟨⟨1⟩, ⟨6⟩, .setLevel ⟨40⟩, .start⟩ .start, .poll .start,
        .frame [0x68, 0x23] .start, .poll (.ofMillis 1000)])
    (f := fun w => (w.history.lines.length, w.dispatcher.inFlight.isSome, w.lastToken,
      (w.history.lines[0]?).bind fun t => Packet.lineToken t.frame))
    (b := (2, true, some 0x69, some 0x68)) (by decide +kernel)
  obtain ⟨two, rest⟩ := Prod.mk.inj seen
  obtain ⟨some, rest⟩ := Prod.mk.inj rest
  obtain ⟨last, first⟩ := Prod.mk.inj rest
  obtain ⟨t, there, character⟩ := Option.bind_eq_some_iff.mp first
  have few : w.history.lines.length < UInt64.size := by rw [two]; decide
  have accepts : (Packet.accepted? 0x2E).isSome = true := rfl
  obtain ⟨-, -, before, -⟩ :=
    answer_exact run few (show Packet.isToken 0x68 = true from rfl) accepts (.ofMillis 1000)
  obtain ⟨-, ends, -, -⟩ :=
    answer_exact run few (show Packet.isToken 0x69 = true from rfl) accepts (.ofMillis 1000)
  obtain ⟨a, flight⟩ := Option.isSome_iff_exists.mp some
  obtain ⟨d', concludes, -⟩ := (ends a flight last).2.1 rfl
  exact ⟨w, run, two, some, before 0 t there (by omega) (by omega) character, a, d', flight,
    concludes⟩

end World

end Lighting
