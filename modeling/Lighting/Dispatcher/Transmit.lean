import Lighting.Dispatcher.Basic

/-!
# Sending

A line goes out only while the link is up, nothing is in flight and the least time since the last
line has passed.  `pollTransmit` sends the next one if it may; `nextWakeup` says when there will be
something to do without any news from outside.
-/

namespace Lighting.Dispatcher

/-- The first moment the pacing allows another line; none if no line was sent yet. -/
def pacedUntil (d : Dispatcher) : Except Stop (Option Instant) :=
  match d.lastSend with
  | none => .ok none
  | some last =>
    match last.add? d.settings.sendInterval with
    | some t => .ok (some t)
    | none => .error ⟨.endOfClock, d⟩

/-- Takes the command at the head of the line into flight until `deadline`. -/
def launch (d : Dispatcher) (now deadline : Instant) (q : Queued) (rest : List Queued) :
    Dispatcher :=
  let number := q.attempts + 1
  let (timer, agenda) := d.agenda.schedule deadline (.confirmation q.command.id number)
  let attempt : Attempt :=
    { command := q.command
      origin := q.origin
      number
      sentAt := now
      deadline
      key := Packet.matchKey q.command d.nonce
      timer }
  { d with
    waiting := rest
    nonce := d.nonce + 1
    agenda
    inFlight := some attempt
    lastSend := some now }

/-- Sends the command at the head of the line, if the clock holds the moment it is given up. -/
def sendBy (d : Dispatcher) (now : Instant) (q : Queued) (rest : List Queued) :
    (deadline : Option Instant) → Except Stop (List UInt8 × Dispatcher)
  | none => .error ⟨.endOfClock, { d with waiting := rest, nonce := d.nonce + 1 }⟩
  | some deadline => .ok (Packet.encode q.command d.nonce, d.launch now deadline q rest)

/-- Sends the command at the head of the line. -/
def transmit (d : Dispatcher) (now : Instant) (q : Queued) (rest : List Queued) :
    Except Stop (List UInt8 × Dispatcher) :=
  d.sendBy now q rest (now.add? (d.settings.retry.timeoutFor (q.attempts + 1)))

/-- Sends the next line, if one may go out now. -/
def pollTransmit (d : Dispatcher) (now : Instant) :
    Except Stop (Option (List UInt8) × Dispatcher) :=
  if !d.linkUp || d.inFlight.isSome then .ok (none, d)
  else match d.pacedUntil with
    | .error stop => .error stop
    | .ok paced =>
      if paced.any (now < ·) then .ok (none, d)
      else match d.waiting with
        | [] => .ok (none, d)
        | q :: rest => (d.transmit now q rest).map fun (frame, d) => (some frame, d)

/-- The moment the dispatcher has something to do next, if nothing comes from outside. -/
def nextWakeup (d : Dispatcher) : Except Stop (Option Instant) :=
  let timer := d.agenda.nextDeadline
  if d.linkUp && d.inFlight.isNone && !d.waiting.isEmpty then
    d.pacedUntil.map fun paced =>
      match timer, paced with
      | some a, some b => some (a.min b)
      | some a, none => some a
      | none, b => b
  else .ok timer

end Lighting.Dispatcher
