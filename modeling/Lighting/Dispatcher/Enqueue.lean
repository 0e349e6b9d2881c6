import Lighting.Dispatcher.Basic

/-!
# Taking commands

A command that comes in takes the place of whatever its address still has to do: the stepped ramp
that is running, the command that waits, the attempt that is in flight.  What it replaces is told to
be superseded at once.  A ramp that the bus units cannot run is laid out on the agenda step by step;
if it ends beyond the clock, only its target is sent.
-/

namespace Lighting

namespace Queued

/-- Replaces the command that waits for the same address, and gives the one that was there. -/
def replace (q : Queued) : List Queued → Option (Queued × List Queued)
  | [] => none
  | x :: xs =>
    if x.command.address = q.command.address then some (x, q :: xs)
    else (replace q xs).map fun (old, xs) => (old, x :: xs)

end Queued

namespace Dispatcher

/-- Puts a command on the line: in the place of the one that waits for its address, in front if an
attempt for its address is in flight, at the end otherwise. -/
def submit (d : Dispatcher) (c : Command) (origin : Origin) : Dispatcher :=
  let q : Queued := ⟨c, origin, 0⟩
  match q.replace d.waiting with
  | some (old, waiting) => { d with waiting }.supersede old.command c.id
  | none =>
    match d.inFlight with
    | some a =>
      if a.command.address = c.address then
        ({ d with inFlight := none, waiting := q :: d.waiting }.strike a.timer).supersede
          a.command c.id
      else { d with waiting := d.waiting ++ [q] }
    | none => { d with waiting := d.waiting ++ [q] }

/-- Ends the stepped ramp of an address, if one is running: none of its steps will be sent. -/
def cancelPlan (d : Dispatcher) (a : Address) (successor : CommandId) : Dispatcher :=
  match d.plans.get a with
  | none => d
  | some plan =>
    { d with
      plans := d.plans.set a none
      agenda := d.agenda.eraseAll plan.timers }.tell
        (.resolved plan.final a (.superseded successor))

/-- A stepped ramp that is being laid out. -/
structure Layout where
  /-- The dispatcher with the entries made so far. -/
  dispatcher : Dispatcher
  /-- The entries made so far. -/
  timers : List Agenda.Token
  /-- The steps to be sent at once, and whether each is the last one. -/
  atOnce : List (Command × Bool)

/-- Lays out one step of a ramp: on the agenda, or to be sent at once if it has no offset or its
moment lies beyond the clock.  The last step carries the ramp's own identifier, the others get new
ones. -/
def layStep (plan : Nat) (c : Command) (now : Instant) (layout : Layout) (step : Ramp.Step)
    (last : Bool) : Layout :=
  let (id, d) := if last then (c.id, layout.dispatcher) else layout.dispatcher.issueId
  let command : Command := ⟨id, c.address, .setLevel step.level, c.madeAt⟩
  match now.add? step.offset with
  | some deadline =>
    if step.offset.isZero then
      { layout with dispatcher := d, atOnce := layout.atOnce ++ [(command, last)] }
    else
      let (token, agenda) := d.agenda.schedule deadline (.rampStep plan command last)
      { layout with dispatcher := { d with agenda }, timers := layout.timers ++ [token] }
  | none => { layout with dispatcher := d, atOnce := layout.atOnce ++ [(command, last)] }

/-- Lays out the steps of a ramp in order. -/
def laySteps (plan : Nat) (c : Command) (now : Instant) : List Ramp.Step → Layout → Layout
  | [], layout => layout
  | step :: rest, layout =>
    laySteps plan c now rest (layStep plan c now layout step rest.isEmpty)

/-- The steps of a ramp that fit on the clock: all of them, or the last one alone if it does not.
Offsets only grow, so the last one decides. -/
def fitting (now : Instant) (steps : List Ramp.Step) : List Ramp.Step :=
  if steps.getLast?.any fun step => (now.add? step.offset).isSome then steps
  else steps.getLast?.toList

/-- Starts a stepped ramp. -/
def startPlan (d : Dispatcher) (c : Command) (steps : List Ramp.Step) (now : Instant) :
    Dispatcher :=
  let plan := d.nextPlan
  let layout := laySteps plan c now (fitting now steps) ⟨{ d with nextPlan := plan + 1 }, [], []⟩
  let d := layout.dispatcher
  let d := if layout.timers.isEmpty then d
    else { d with plans := d.plans.set c.address (some ⟨plan, c.id, layout.timers⟩) }
  layout.atOnce.foldl (fun d (command, last) => d.submit command (.rampStep plan last)) d

/-- Takes a command for an address that is not to be left alone. -/
def accept (d : Dispatcher) (c : Command) (now : Instant) : Dispatcher :=
  let d := d.cancelPlan c.address c.id
  let current := (d.registry.query c.address).best
  let d := d.record (d.registry.aim c.address c.target c.transition)
  let native := d.settings.nativeRamps && Packet.supportsRamp c.transition
  match Ramp.plan d.settings.rampSteps c.action current native with
  | .immediate action => d.submit (c.withAction action) .direct
  | .native action => d.submit (c.withAction action) .direct
  | .stepped steps => d.startPlan c steps now

/-- Takes a command; one for an address to leave alone is dropped. -/
def enqueue (d : Dispatcher) (c : Command) (now : Instant) : Dispatcher :=
  if d.excluded.get c.address then d else d.accept c now

/-- Makes a command under a new identifier and takes it. -/
def request (d : Dispatcher) (a : Address) (action : Action) (now : Instant) :
    CommandId × Dispatcher :=
  let (id, d) := d.issueId
  (id, d.enqueue ⟨id, a, action, now⟩ now)

end Dispatcher

end Lighting
