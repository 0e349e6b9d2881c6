import Lighting.Dispatcher.Expire
import Lighting.Dispatcher.Transmit

/-!
# Serving

`serve` lets the dispatcher work on its own up to a moment: it does what is due, sends what may go
out, and moves on to the next moment there is something to do.
-/

namespace Lighting.Dispatcher

/-- A line and when it was sent. -/
structure Sent where
  /-- When the line was sent. -/
  moment : Instant
  /-- The line. -/
  frame : List UInt8

/-- How a stretch of serving ended: the lines sent, the last first, the moment it came to, and the
dispatcher, or why it stopped. -/
structure Served where
  /-- The lines sent, the last first. -/
  sent : List Sent
  /-- The moment it came to. -/
  now : Instant
  /-- The dispatcher, or why it stopped. -/
  outcome : Except Stop Dispatcher

/-- Does what is due at a moment and sends at most one line. -/
def serveOnce (d : Dispatcher) (now : Instant) : Except Stop (Option (List UInt8) × Dispatcher) :=
  (d.expire now).pollTransmit now

/-- The conditions under which a dispatcher is served. -/
structure Terms where
  /-- When the dispatcher is woken for a moment it waits for. -/
  wake : Instant → Instant
  /-- The moment up to which it is served. -/
  limit : Instant
  /-- Whether someone takes the lines; if nobody does, serving ends with the first one. -/
  taken : Bool

/-- Serves for at most `rounds` rounds. -/
def serve (terms : Terms) :
    (rounds : Nat) → List Sent → (now : Instant) → Dispatcher → Served
  | 0, sent, now, d => ⟨sent, now, .ok d⟩
  | rounds + 1, sent, now, d =>
    match d.serveOnce now with
    | .error stop => ⟨sent, now, .error stop⟩
    | .ok (frame, d) =>
      let sent := (frame.map (Sent.mk now)).toList ++ sent
      if frame.isSome && !terms.taken then ⟨sent, now, .ok d⟩
      else match d.nextWakeup with
        | .error stop => ⟨sent, now, .error stop⟩
        | .ok none => ⟨sent, now, .ok d⟩
        | .ok (some w) =>
          if terms.wake w ≤ terms.limit then
            serve terms rounds sent (now.max (terms.wake w)) d
          else ⟨sent, now, .ok d⟩

/-- A bound on the rounds the dispatcher works on its own: each of them does a task or sends a line,
a line makes one task, and a command on the line, in flight or planned is sent at most as often as
the settings allow. -/
def workBound (d : Dispatcher) : Nat :=
  let commands := d.waiting.length + d.agenda.size + 1
  d.agenda.size + 2 * commands * (d.settings.retry.maxRetries + 1) + 2

end Lighting.Dispatcher
