import Lighting.Proofs.Dispatcher.Ledger

/-!
# The lines are numbered

A dispatcher counts the lines it sends, and the number of a line decides its confirmation character.
The history of a world holds the lines in order, so that the number of a line is its position there.

An attempt in flight is the one the last line made.  Whatever the interface answers is held against
that line and no other.  There are nineteen confirmation characters, taken in turn, so that two lines
bear the same one only if they are a multiple of nineteen lines apart.
-/

namespace Lighting

namespace Packet

/-- The confirmation characters differ. -/
theorem tokens_inj : ∀ i < 19, ∀ j < 19,
    tokens.getD i setupToken = tokens.getD j setupToken → i = j := by
  decide

/-- Two lines bear the same confirmation character only if they are a multiple of nineteen apart. -/
theorem token_ne {i j : Nat} (le : i ≤ j) (apart : ¬ 19 ∣ j - i) (bound : j < UInt64.size) :
    token (UInt64.ofNat i) ≠ token (UInt64.ofNat j) := by
  intro same
  have number {n : Nat} (h : n < UInt64.size) : (UInt64.ofNat n).toNat = n := by
    rw [UInt64.toNat_ofNat', Nat.mod_eq_of_lt h]
  unfold token at same
  rw [number (Nat.lt_of_le_of_lt le bound), number bound, show tokens.length = 19 from rfl] at same
  have := tokens_inj _ (Nat.mod_lt i (by omega)) _ (Nat.mod_lt j (by omega)) same
  omega

end Packet

namespace Dispatcher

variable {d d' : Dispatcher}

/-- The attempt in flight is one of `e`, if there is one, and as many lines were sent. -/
structure Keeps (e d : Dispatcher) : Prop where
  nonce : d.nonce = e.nonce
  inFlight : ∀ a, d.inFlight = some a → e.inFlight = some a

theorem Keeps.refl (d : Dispatcher) : Keeps d d := ⟨rfl, fun _ flight => flight⟩

theorem Keeps.trans {e : Dispatcher} (h : Keeps d e) (h' : Keeps e d') : Keeps d d' :=
  ⟨h'.nonce.trans h.nonce, fun a flight => h.inFlight a (h'.inFlight a flight)⟩

theorem Beside.keeps (h : Beside d d') : Keeps d d' :=
  ⟨h.nonce, fun _ flight => h.inFlight.symm.trans flight⟩

theorem keeps_submit (d : Dispatcher) (c : Command) (origin : Origin) :
    Keeps d (d.submit c origin) := by
  rcases d.submit_cases c origin with ⟨_, _, _, -, -, -, eq⟩ | ⟨a, -, -, eq⟩ | ⟨-, eq⟩
  · rw [eq]
    exact ⟨rfl, fun _ flight => flight⟩
  · rw [eq]
    exact ⟨rfl, fun _ flight => by cases flight⟩
  · rw [eq]
    exact ⟨rfl, fun _ flight => flight⟩

theorem keeps_submitAll (d : Dispatcher) (ps : List Part) : Keeps d (d.submitAll ps) := by
  induction ps generalizing d with
  | nil => exact Keeps.refl d
  | cons p ps ih => exact (keeps_submit d p.command p.origin).trans (ih _)

theorem keeps_lay (d : Dispatcher) (c : Command) (now : Instant) : Keeps d (d.lay c now) := by
  obtain ⟨inFlight, -, -, nonce⟩ := lay_frame d c now
  exact ⟨nonce, fun _ flight => inFlight.symm.trans flight⟩

theorem keeps_accept (d : Dispatcher) (c : Command) (now : Instant) : Keeps d (d.accept c now) := by
  rw [accept_eq]
  exact (keeps_lay d c now).trans (keeps_submitAll _ _)

/-- A step that sends nothing keeps the number of lines, and brings nothing into flight. -/
theorem Turn.keeps {s : Step} (turn : d.Turn s none d') : Keeps d d' := by
  cases turn with
  | idle intent submits rest => exact rest.keeps
  | take open? => exact keeps_accept d _ _
  | @release now e g number c last due task =>
      have withdrawn : Keeps d (d.withdraw e c.address last) := ⟨rfl, fun _ flight => flight⟩
      exact withdrawn.trans (keeps_submit _ _ _)
  | @finish _ a outcome _ flight ending rest =>
      have finished : Keeps d (d.finish a outcome) := ⟨rfl, nofun⟩
      exact finished.trans rest.keeps
  | @putBack _ a attempts _ flight return? rest =>
      have back : Keeps d (d.putBack a attempts) := ⟨rfl, nofun⟩
      exact back.trans rest.keeps

end Dispatcher

namespace World

/-- A step sends nothing and brings nothing into flight, or it sends one line, and the attempt of this
line is in flight. -/
theorem lines_step {w w' : World} {s : Dispatcher.Step} (orderly : w.dispatcher.Orderly)
    (step : w.step s = .ok w') :
    (w'.history.lines = w.history.lines ∧ w.dispatcher.Keeps w'.dispatcher) ∨
      ∃ t, w'.history.lines = w.history.lines ++ [t] ∧
        w'.dispatcher.inFlight = some t.attempt ∧
        w'.dispatcher.nonce = w.dispatcher.nonce + 1 ∧
        t.frame = Packet.encode t.attempt.command w.dispatcher.nonce ∧
        t.attempt.key = Packet.matchKey t.attempt.command w.dispatcher.nonce := by
  obtain ⟨frame, stepped, note⟩ := step_eq_ok step
  have turn := Dispatcher.turn orderly.timely stepped
  cases frame with
  | none =>
      refine Or.inl ⟨?_, turn.keeps⟩
      rw [note]
      exact List.append_nil _
  | some frame =>
      obtain ⟨d', history⟩ := w'
      cases turn with
      | send up free head =>
          rw [show history = _ from note]
          exact Or.inr ⟨_, rfl, rfl, rfl, rfl, rfl⟩

/-- The lines are numbered in order. -/
structure Numbered (w : World) : Prop where
  /-- The number of the next line. -/
  nonce : w.dispatcher.nonce = UInt64.ofNat w.history.lines.length
  /-- A line carries the command of its attempt under its number, and its answer is recognised by
  the two. -/
  line : ∀ i t, w.history.lines[i]? = some t →
    t.frame = Packet.encode t.attempt.command (UInt64.ofNat i) ∧
      t.attempt.key = Packet.matchKey t.attempt.command (UInt64.ofNat i)
  /-- The attempt in flight was made by the last line. -/
  flight : ∀ a, w.dispatcher.inFlight = some a →
    w.history.lines.getLast?.map Transmission.attempt = some a

theorem numbered_start (settings : Settings) (excluded : List Address) :
    (start settings excluded).Numbered :=
  ⟨rfl, nofun, nofun⟩

/-- **Every step keeps the lines numbered.** -/
theorem Numbered.step {w w' : World} {s : Dispatcher.Step} (h : w.Numbered)
    (orderly : w.dispatcher.Orderly) (step : w.step s = .ok w') : w'.Numbered := by
  rcases lines_step orderly step with ⟨lines, keeps⟩ | ⟨t, lines, flight, nonce, frame, key⟩
  · refine ⟨?_, ?_, ?_⟩
    · rw [keeps.nonce, lines]
      exact h.nonce
    · rw [lines]
      exact h.line
    · intro a flight
      rw [lines]
      exact h.flight a (keeps.inFlight a flight)
  · rw [h.nonce] at nonce frame key
    refine ⟨?_, ?_, ?_⟩
    · rw [nonce, lines, List.length_append, List.length_singleton, UInt64.ofNat_add]
      rfl
    · intro i u there
      rw [lines] at there
      rcases Nat.lt_trichotomy i w.history.lines.length with old | rfl | none
      · exact h.line i u (by rwa [List.getElem?_append_left old] at there)
      · rw [List.getElem?_concat_length] at there
        cases there
        exact ⟨frame, key⟩
      · rw [List.getElem?_eq_none (by rwa [List.length_append, List.length_singleton])] at there
        cases there
    · intro a flight'
      rw [lines, List.getLast?_concat]
      exact flight.symm.trans flight'

theorem Numbered.run {w w' : World} {steps : List Dispatcher.Step} (h : w.Numbered)
    (orderly : w.dispatcher.Orderly) (run : w.run steps = .ok w') :
    w'.Numbered ∧ w'.dispatcher.Orderly :=
  orderly_induction (fun orderly h step => h.step orderly step) orderly h run

/-- A line that was sent carries its command. -/
theorem Numbered.frame_of_mem {w : World} (h : w.Numbered) {t : Transmission}
    (ht : t ∈ w.history.lines) : ∃ n, t.frame = Packet.encode t.attempt.command n := by
  obtain ⟨i, there⟩ := List.mem_iff_getElem?.mp ht
  exact ⟨_, (h.line i t there).1⟩

end World

end Lighting
