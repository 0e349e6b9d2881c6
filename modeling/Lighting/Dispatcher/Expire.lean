import Lighting.Dispatcher.Enqueue

/-!
# What falls due

`expire` does every task whose moment has come: an attempt that was not confirmed is repeated or
fails, a step of a ramp goes on the line, a ramp of the bus units ends.  No task makes a new agenda
entry, so there are at most as many as the agenda holds.
-/

namespace Lighting.Dispatcher

/-- An attempt has failed: the command goes back to the head of the line, or has failed for good
and its level is assumed. -/
def retryOrFail (d : Dispatcher) (a : Attempt) : Dispatcher :=
  if d.settings.retry.retries a.number then
    { d with waiting := ⟨a.command, a.origin, a.number⟩ :: d.waiting }
  else
    let d := d.tell (.resolved a.command.id a.command.address (.failed a.number))
    let d := d.record (d.registry.assume a.command.address a.command.target)
    if a.origin.isIntermediate then d
    else d.record (d.registry.setRamp a.command.address false)

/-- The confirmation of an attempt did not come in time. -/
def onTimeout (d : Dispatcher) (id : CommandId) (attempt : Nat) : Dispatcher :=
  match d.inFlight with
  | none => d
  | some a =>
    if a.command.id = id ∧ a.number = attempt then { d with inFlight := none }.retryOrFail a else d

/-- A step of a ramp falls due. -/
def onRampStep (d : Dispatcher) (plan : Nat) (c : Command) (last : Bool) : Dispatcher :=
  match d.plans.get c.address with
  | none => d
  | some active =>
    if active.id = plan then
      let d := if last then { d with plans := d.plans.set c.address none } else d
      d.submit c (.rampStep plan last)
    else d

/-- A ramp of the bus units has come to its end. -/
def onSettled (d : Dispatcher) (t : Agenda.Token) (a : Address) : Dispatcher :=
  if d.settling.get a = some t then
    let d := { d with settling := d.settling.set a none }
    d.record (d.registry.setRamp a false)
  else d

/-- Does a task that was taken off the agenda. -/
def fire (d : Dispatcher) (e : Agenda.Entry Task) : Dispatcher :=
  match e.task with
  | .confirmation id attempt => d.onTimeout id attempt
  | .rampStep plan c last => d.onRampStep plan c last
  | .settled a => d.onSettled e.token a

/-- Does at most `fuel` of the tasks whose moment has come. -/
def expireUpTo : (fuel : Nat) → Dispatcher → Instant → Dispatcher
  | 0, d, _ => d
  | fuel + 1, d, now =>
    match d.agenda.popDue now with
    | none => d
    | some (e, agenda) => expireUpTo fuel ({ d with agenda }.fire e) now

/-- Does every task whose moment has come. -/
def expire (d : Dispatcher) (now : Instant) : Dispatcher := expireUpTo d.agenda.size d now

end Lighting.Dispatcher
