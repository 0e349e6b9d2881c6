import Lighting.Dispatcher.Inbound
import Lighting.Dispatcher.Transmit

/-!
# Steps of a dispatcher

What can happen to a dispatcher from outside is a `Call`.  Two of the calls are loops: the moment
that has come may make many tasks due, and the octets that have come in may hold many frames.  A
`Step` is one round of such a loop, or a whole call that has none, so that between two steps nothing
is half done.

`run_steps` is the bridge: a call gives exactly what its row of steps gives, the same lines, the
same dispatcher and the same stop.  What is proved of every row of steps therefore holds after every
row of calls, and at every moment in between as well.
-/

namespace Lighting.Dispatcher

/-- The smallest things that can happen to a dispatcher. -/
inductive Step where
  /-- An identifier is given out. -/
  | issue
  /-- A command comes in. -/
  | enqueue (c : Command) (now : Instant)
  /-- The link comes up. -/
  | linkUp
  /-- The link goes down. -/
  | linkDown
  /-- Octets come in, and these are what is left after the whole frames among them. -/
  | buffer (rest : List UInt8)
  /-- A frame comes in. -/
  | frame (octets : List UInt8) (now : Instant)
  /-- The first task of the agenda is done, if its moment has come. -/
  | fire (now : Instant)
  /-- The next line is asked for. -/
  | poll (now : Instant)

/-- Does the first task of the agenda, if its moment has come. -/
def fireNext (d : Dispatcher) (now : Instant) : Dispatcher :=
  match d.agenda.popDue now with
  | none => d
  | some (e, agenda) => { d with agenda }.fire e

/-- One step: the line it sends, if it sends one, and the dispatcher afterwards. -/
def step (d : Dispatcher) : Step → Except Stop (Option (List UInt8) × Dispatcher)
  | .issue => .ok (none, d.issueId.2)
  | .enqueue c now => .ok (none, d.enqueue c now)
  | .linkUp => .ok (none, d.onLinkUp)
  | .linkDown => .ok (none, d.onLinkDown)
  | .buffer rest => .ok (none, { d with buffer := rest })
  | .frame octets now => (d.onFrame now octets).map fun d => (none, d)
  | .fire now => .ok (none, d.fireNext now)
  | .poll now => d.pollTransmit now

/-- A row of steps: the lines sent on the way, and the dispatcher at the end. -/
def run (d : Dispatcher) : List Step → Except Stop (List (List UInt8) × Dispatcher)
  | [] => .ok ([], d)
  | s :: rest =>
    (d.step s).bind fun r => (r.2.run rest).map fun q => (r.1.toList ++ q.1, q.2)

@[simp] theorem run_nil (d : Dispatcher) : d.run [] = .ok ([], d) := rfl

theorem run_cons (d : Dispatcher) (s : Step) (rest : List Step) :
    d.run (s :: rest) =
      (d.step s).bind fun r => (r.2.run rest).map fun q => (r.1.toList ++ q.1, q.2) := rfl

theorem run_cons_eq_ok {d d' : Dispatcher} {s : Step} {rest : List Step}
    {frames : List (List UInt8)} (h : d.run (s :: rest) = .ok (frames, d')) :
    ∃ frame e frames', d.step s = .ok (frame, e) ∧ e.run rest = .ok (frames', d') := by
  rw [run_cons] at h
  cases first : d.step s with
  | error stop => rw [first] at h; cases h
  | ok r =>
      simp only [first, Except.bind] at h
      cases tail : r.2.run rest with
      | error stop => rw [tail] at h; cases h
      | ok q =>
          rw [tail] at h
          cases h
          exact ⟨r.1, r.2, q.1, rfl, tail⟩

/-- What every step keeps, every run keeps. -/
theorem run_induction {P : Dispatcher → Prop}
    (step : ∀ {d s frame d'}, P d → d.step s = .ok (frame, d') → P d')
    {d d' : Dispatcher} {steps : List Step} {frames : List (List UInt8)} (start : P d)
    (run : d.run steps = .ok (frames, d')) : P d' := by
  induction steps generalizing d frames with
  | nil => cases run; exact start
  | cons s rest ih =>
      obtain ⟨frame, e, frames', first, tail⟩ := run_cons_eq_ok run
      exact ih (step start first) tail

/-- What is read off the result of a run that does not stop is read off its end. -/
theorem exists_ok {α β : Type} {x : Except Stop α} {f : α → β} {b : β}
    (h : x.toOption.map f = some b) : ∃ a, x = .ok a ∧ f a = b := by
  cases x with
  | error stop => cases h
  | ok a => exact ⟨a, rfl, Option.some.inj h⟩

/-! ## Sending -/

theorem transmit_eq_ok {d d' : Dispatcher} {now : Instant} {q : Queued} {rest : List Queued}
    {frame : List UInt8} (h : d.transmit now q rest = .ok (frame, d')) :
    frame = Packet.encode q.command d.nonce ∧
      ∃ deadline, now.add? (d.settings.retry.timeoutFor (q.attempts + 1)) = some deadline ∧
        d' = d.launch now deadline q rest := by
  unfold transmit at h
  cases reach : now.add? (d.settings.retry.timeoutFor (q.attempts + 1)) with
  | none => rw [reach] at h; cases h
  | some deadline =>
      rw [reach] at h
      cases h
      exact ⟨rfl, deadline, rfl, rfl⟩

/-- Asking for the next line sends nothing and changes nothing, or it sends the head of the line. -/
theorem pollTransmit_eq_ok {d d' : Dispatcher} {now : Instant} {frame : Option (List UInt8)}
    (h : d.pollTransmit now = .ok (frame, d')) :
    (frame = none ∧ d' = d) ∨
      ∃ line q rest, frame = some line ∧ d.linkUp = true ∧ d.inFlight = none ∧
        d.waiting = q :: rest ∧ d.transmit now q rest = .ok (line, d') := by
  have idle {f : Option (List UInt8)} (h : (Except.ok (none, d) : Except Stop _) = .ok (f, d')) :
      f = none ∧ d' = d := by
    cases h
    exact ⟨rfl, rfl⟩
  unfold pollTransmit at h
  split at h
  · exact Or.inl (idle h)
  · rename_i open?
    cases paced : d.pacedUntil with
    | error stop => rw [paced] at h; cases h
    | ok until? =>
        simp only [paced] at h
        split at h
        · exact Or.inl (idle h)
        · cases queue : d.waiting with
          | nil => rw [queue] at h; exact Or.inl (idle h)
          | cons q rest =>
              simp only [queue] at h
              cases sent : d.transmit now q rest with
              | error stop => rw [sent] at h; cases h
              | ok r =>
                  rw [sent] at h
                  cases h
                  simp only [Bool.not_eq_true, Bool.or_eq_false_iff, Bool.not_eq_false',
                    Option.isSome_eq_false_iff, Option.isNone_iff_eq_none] at open?
                  exact Or.inr ⟨r.1, q, rest, rfl, open?.1, open?.2, rfl, sent⟩

/-- A step that sends a line leaves it in flight, so that there is an attempt to point to. -/
theorem inFlight_of_step {d d' : Dispatcher} {s : Step} {line : List UInt8}
    (h : d.step s = .ok (some line, d')) : ∃ a, d'.inFlight = some a := by
  cases s with
  | poll now =>
      rcases pollTransmit_eq_ok h with ⟨none, -⟩ | ⟨_, _, _, -, -, -, -, sent⟩
      · cases none
      · obtain ⟨-, _, -, rfl⟩ := transmit_eq_ok sent
        exact ⟨_, rfl⟩
  | frame octets now =>
      simp only [step] at h
      cases frame : d.onFrame now octets with
      | error stop => rw [frame] at h; cases h
      | ok d => rw [frame] at h; cases h
  | _ => cases h

/-- To try again or to give up concerns the line that waits and what is known of the device only. -/
theorem retryOrFail_apart (d : Dispatcher) (a : Attempt) :
    (d.retryOrFail a).inFlight = d.inFlight ∧ (d.retryOrFail a).agenda = d.agenda := by
  unfold retryOrFail
  split
  · exact ⟨rfl, rfl⟩
  · dsimp only
    split <;> exact ⟨rfl, rfl⟩

/-! ## Calls -/

/-- What can be asked of a dispatcher from outside. -/
inductive Call where
  /-- Give out an identifier. -/
  | issue
  /-- Take a command. -/
  | enqueue (c : Command) (now : Instant)
  /-- Take news from the link. -/
  | link (event : LinkEvent) (now : Instant)
  /-- Take a frame. -/
  | frame (octets : List UInt8) (now : Instant)
  /-- Do what is due. -/
  | expire (now : Instant)
  /-- Send the next line, if one may go out. -/
  | poll (now : Instant)

/-- One call: the line it sends, if it sends one, and the dispatcher afterwards. -/
def perform (d : Dispatcher) : Call → Except Stop (Option (List UInt8) × Dispatcher)
  | .issue => .ok (none, d.issueId.2)
  | .enqueue c now => .ok (none, d.enqueue c now)
  | .link event now => (d.onLink event now).map fun d => (none, d)
  | .frame octets now => (d.onFrame now octets).map fun d => (none, d)
  | .expire now => .ok (none, d.expire now)
  | .poll now => d.pollTransmit now

/-- The steps of a call. -/
def Call.steps (d : Dispatcher) : Call → List Step
  | .issue => [.issue]
  | .enqueue c now => [.enqueue c now]
  | .link .connected _ => [.linkUp]
  | .link .disconnected _ => [.linkDown]
  | .link (.data octets) now =>
    let cut := Packet.frames (d.buffer ++ octets)
    .buffer cut.2 :: cut.1.map fun frame => .frame frame now
  | .frame octets now => [.frame octets now]
  | .expire now => List.replicate d.agenda.size (.fire now)
  | .poll now => [.poll now]

/-- A row of one step. -/
theorem run_singleton (d : Dispatcher) (s : Step) :
    d.run [s] = (d.step s).map fun r => (r.1.toList, r.2) := by
  rw [run_cons]
  cases h : d.step s with
  | error stop => rfl
  | ok r => simp [Except.bind, Except.map]

/-- Doing tasks one at a time is doing them all. -/
theorem run_fires (now : Instant) (n : Nat) (d : Dispatcher) :
    d.run (List.replicate n (.fire now)) = .ok ([], expireUpTo n d now) := by
  induction n generalizing d with
  | zero => rfl
  | succ n ih =>
      rw [List.replicate_succ, run_cons]
      show ((d.fireNext now).run _).map _ = _
      rw [ih]
      cases pop : d.agenda.popDue now with
      | none =>
          -- nothing is due, and the rounds that are left find that again
          have idle : expireUpTo n d now = d := by
            cases n <;> simp [expireUpTo, pop]
          simp [fireNext, expireUpTo, pop, idle, Except.map]
      | some p => simp [fireNext, expireUpTo, pop, Except.map]

/-- Taking frames one at a time is taking them all. -/
theorem run_frames (now : Instant) (frames : List (List UInt8)) (d : Dispatcher) :
    d.run (frames.map fun frame => .frame frame now) =
      (onFrames now frames d).map fun d => ([], d) := by
  induction frames generalizing d with
  | nil => rfl
  | cons frame frames ih =>
      rw [List.map_cons, run_cons, onFrames]
      show ((d.onFrame now frame).map _).bind _ = _
      cases d.onFrame now frame with
      | error stop => rfl
      | ok d =>
          show (d.run _).map _ = (onFrames now frames d).map _
          rw [ih]
          cases onFrames now frames d <;> rfl

/-- **A call is the row of its steps.** -/
theorem run_steps (d : Dispatcher) (call : Call) :
    d.run (call.steps d) = (d.perform call).map fun r => (r.1.toList, r.2) := by
  cases call with
  | issue => rfl
  | enqueue c now => rfl
  | frame octets now => exact run_singleton d (.frame octets now)
  | expire now => exact run_fires now d.agenda.size d
  | poll now => exact run_singleton d (.poll now)
  | link event now =>
      cases event with
      | connected => rfl
      | disconnected => rfl
      | data octets =>
          simp only [Call.steps, perform, onLink, onData, run_cons, step, Except.bind, run_frames]
          cases onFrames now (Packet.frames (d.buffer ++ octets)).1
            { d with buffer := (Packet.frames (d.buffer ++ octets)).2 } <;> rfl

end Lighting.Dispatcher
