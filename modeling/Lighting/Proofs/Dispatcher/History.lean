import Lighting.Proofs.Dispatcher.Parts
import Lighting.Proofs.Dispatcher.Step

/-!
# What has happened to a dispatcher

A dispatcher forgets: of a command that has ended nothing is left but the event that tells of it, and
of a line that was sent only the attempt, while it is in flight.  A `World` is a dispatcher together
with its `History`, which forgets nothing.

### The history only watches

A step of a world is a step of its dispatcher, and the history notes what that step shows: which
command was taken and the row it came down to, which steps of a ramp went on the line, which line
went out.  Nothing the dispatcher does depends on it, so every run of a dispatcher is the run of a
world (`run_dispatcher`), and what is said of the history of a world is said of the dispatcher.

### The outbox

A world never takes events out of its dispatcher's outbox, so the outbox holds all that was ever
told.
-/

namespace Lighting

/-- A command that was taken, and the row of commands it came down to. -/
structure Intent where
  /-- The command as it came in. -/
  command : Command
  /-- The command itself, or the steps of its ramp; the last one bears its identifier. -/
  row : List Command

/-- A line that was sent, and the attempt it made. -/
structure Transmission where
  /-- The line. -/
  frame : List UInt8
  /-- The attempt. -/
  attempt : Attempt

/-- All that has happened to a dispatcher, the oldest first. -/
structure History where
  /-- The commands that were taken. -/
  intents : List Intent
  /-- The steps before the last of a ramp that have gone on the line. -/
  stepped : List Command
  /-- The lines that were sent. -/
  lines : List Transmission

namespace History

/-- The history before anything has happened. -/
def empty : History := ⟨[], [], []⟩

/-- All commands that ever were to be sent, in the order in which they are meant: by the command
they belong to, and the steps of a ramp in order. -/
def rows (h : History) : List Command := h.intents.flatMap Intent.row

end History

namespace Dispatcher

/-! ## What a step shows -/

/-- The command a step makes the dispatcher take. -/
def intent? (d : Dispatcher) : Step → Option Intent
  | .enqueue c now =>
    if d.excluded.get c.address then none
    else some ⟨c, (d.parts c now).map Part.command⟩
  | _ => none

/-- What an agenda entry puts on the line: its step, if its ramp is still the running one. -/
def due (d : Dispatcher) (e : Agenda.Entry Task) : List Part :=
  match e.task with
  | .rampStep plan c last =>
    if (d.plans.get c.address).any (·.id == plan) then [⟨c, .rampStep plan last, none⟩] else []
  | _ => []

/-- What a step puts on the line, in order. -/
def submits (d : Dispatcher) : Step → List Part
  | .enqueue c now =>
    if d.excluded.get c.address then [] else (d.parts c now).filter Part.isAtOnce
  | .fire now =>
    match d.agenda.popDue now with
    | some (e, _) => d.due e
    | none => []
  | _ => []

/-- The line a step has sent. -/
def transmission? (d : Dispatcher) (frame : Option (List UInt8)) : Option Transmission :=
  frame.bind fun frame => d.inFlight.map (Transmission.mk frame)

end Dispatcher

/-- The history after a step of a dispatcher, which gave `frame` and left the dispatcher as
`after`. -/
def History.note (h : History) (d : Dispatcher) (s : Dispatcher.Step)
    (frame : Option (List UInt8)) (after : Dispatcher) : History where
  intents := h.intents ++ (d.intent? s).toList
  stepped := h.stepped ++ ((d.submits s).filter (·.origin.isIntermediate)).map Part.command
  lines := h.lines ++ (after.transmission? frame).toList

/-- A dispatcher and its history. -/
structure World where
  /-- The dispatcher. -/
  dispatcher : Dispatcher
  /-- What has happened to it. -/
  history : History

namespace World

/-- A dispatcher before anything has happened. -/
def start (settings : Settings) (excluded : List Address) : World :=
  ⟨.create settings excluded, .empty⟩

/-- One step. -/
def step (w : World) (s : Dispatcher.Step) : Except Stop World :=
  (w.dispatcher.step s).map fun r => ⟨r.2, w.history.note w.dispatcher s r.1 r.2⟩

/-- A row of steps. -/
def run (w : World) : List Dispatcher.Step → Except Stop World
  | [] => .ok w
  | s :: rest => (w.step s).bind fun w => w.run rest

@[simp] theorem run_nil (w : World) : w.run [] = .ok w := rfl

theorem run_cons (w : World) (s : Dispatcher.Step) (rest : List Dispatcher.Step) :
    w.run (s :: rest) = (w.step s).bind fun w => w.run rest := rfl

theorem run_cons_eq_ok {w w' : World} {s : Dispatcher.Step} {rest : List Dispatcher.Step} :
    w.run (s :: rest) = .ok w' ↔ ∃ v, w.step s = .ok v ∧ v.run rest = .ok w' := by
  rw [run_cons]
  cases w.step s with
  | error stop => simp [Except.bind]
  | ok v => simp [Except.bind]

/-- A run goes on where its front part has come to. -/
theorem run_append_eq_ok {w w' : World} {xs ys : List Dispatcher.Step} :
    w.run (xs ++ ys) = .ok w' ↔ ∃ v, w.run xs = .ok v ∧ v.run ys = .ok w' := by
  induction xs generalizing w with
  | nil => simp
  | cons s xs ih =>
      simp only [List.cons_append, run_cons_eq_ok, ih]
      constructor
      · rintro ⟨e, first, v, front, back⟩
        exact ⟨v, ⟨e, first, front⟩, back⟩
      · rintro ⟨v, ⟨e, first, front⟩, back⟩
        exact ⟨e, first, v, front, back⟩

theorem step_eq_ok {w w' : World} {s : Dispatcher.Step} (h : w.step s = .ok w') :
    ∃ frame, w.dispatcher.step s = .ok (frame, w'.dispatcher) ∧
      w'.history = w.history.note w.dispatcher s frame w'.dispatcher := by
  unfold step at h
  cases step : w.dispatcher.step s with
  | error stop => rw [step] at h; cases h
  | ok r => rw [step] at h; cases h; exact ⟨r.1, rfl, rfl⟩

/-- What every step keeps, every run keeps. -/
theorem run_induction {P : World → Prop} (step : ∀ {w s w'}, P w → w.step s = .ok w' → P w')
    {w w' : World} {steps : List Dispatcher.Step} (start : P w) (run : w.run steps = .ok w') :
    P w' := by
  induction steps generalizing w with
  | nil => cases run; exact start
  | cons s rest ih =>
      obtain ⟨v, first, rest⟩ := run_cons_eq_ok.mp run
      exact ih (step start first) rest

/-! ## A run of a world is a run of its dispatcher -/

/-- **A run of a world is a run of its dispatcher**, and the lines it notes are the lines that were
sent. -/
theorem run_dispatcher (w : World) (steps : List Dispatcher.Step) :
    w.dispatcher.run steps = (w.run steps).map fun w' =>
      ((w'.history.lines.drop w.history.lines.length).map Transmission.frame, w'.dispatcher) := by
  have frames : ∀ (w : World) (s : Dispatcher.Step) (frame : Option (List UInt8))
      (d : Dispatcher), w.dispatcher.step s = .ok (frame, d) →
      ((d.transmission? frame).toList).map Transmission.frame = frame.toList := by
    intro w s frame d h
    cases frame with
    | none => rfl
    | some line =>
        obtain ⟨a, flight⟩ := Dispatcher.inFlight_of_step h
        simp [Dispatcher.transmission?, flight]
  -- the lines noted so far stay where they are
  have grows : ∀ (steps : List Dispatcher.Step) (w w' : World), w.run steps = .ok w' →
      ∃ more, w'.history.lines = w.history.lines ++ more := by
    intro steps w w' run
    refine run_induction (P := fun v => ∃ more, v.history.lines = w.history.lines ++ more)
      (fun {v s v'} ⟨more, eq⟩ h => ?_) ⟨[], (List.append_nil _).symm⟩ run
    obtain ⟨frame, -, note⟩ := step_eq_ok h
    exact ⟨_, by rw [note, History.note, eq, List.append_assoc]⟩
  induction steps generalizing w with
  | nil => simp [Except.map]
  | cons s rest ih =>
      rw [Dispatcher.run_cons, run_cons]
      unfold step
      cases first : w.dispatcher.step s with
      | error stop => rfl
      | ok r =>
          have ih := ih ⟨r.2, w.history.note w.dispatcher s r.1 r.2⟩
          show (r.2.run rest).map _ = _
          rw [ih]
          show _ = (run ⟨r.2, w.history.note w.dispatcher s r.1 r.2⟩ rest).map _
          cases run : (World.run ⟨r.2, w.history.note w.dispatcher s r.1 r.2⟩ rest) with
          | error stop => rfl
          | ok w' =>
              obtain ⟨more, eq⟩ := grows _ _ _ run
              have sent := frames w s r.1 r.2 first
              simp only [Except.map, eq, History.note, List.append_assoc, List.drop_left,
                List.map_append, sent]
              rw [← List.append_assoc, List.drop_left]

end World

end Lighting
