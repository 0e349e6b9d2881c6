import Lighting.Dispatcher.Expire

/-!
# What comes in

The link comes up, goes down or brings octets.  A confirmation that answers the attempt in flight
ends it; a report from the bus is taken over as it is; everything else is passed over.  While the
link is down nothing is in flight: the attempt that was goes back to the head of the line and is not
counted.
-/

namespace Lighting

/-- News from the link. -/
inductive LinkEvent where
  /-- The link is up. -/
  | connected
  /-- The link is down. -/
  | disconnected
  /-- Octets have come in. -/
  | data (octets : List UInt8)

namespace Dispatcher

/-- Enters the end of a ramp that the bus units run, in the place of an earlier one. -/
def settleAt (d : Dispatcher) (a : Address) (deadline : Instant) : Dispatcher :=
  let (token, agenda) := d.agenda.schedule deadline (.settled a)
  let agenda := match d.settling.get a with
    | some previous => agenda.erase previous
    | none => agenda
  { d with agenda, settling := d.settling.set a (some token) }

/-- Strikes the end of a ramp that the bus units run. -/
def unsettle (d : Dispatcher) (a : Address) : Dispatcher :=
  match d.settling.get a with
  | some token => { d with settling := d.settling.set a none }.strike token
  | none => d

/-- Enters the end of a ramp that lasts `span` from now on. -/
def settleAfter (d : Dispatcher) (a : Address) (now : Instant) (span : Duration) :
    Except Stop Dispatcher :=
  match now.add? span with
  | some deadline => .ok (d.settleAt a deadline)
  | none => .error ⟨.endOfClock, d⟩

/-- How long the bus units take for a ramp: as long as the rate that covers it, not as long as was
asked for. -/
def busTime (d : Duration) : Duration := ((Rate.covering? d).map Rate.duration).getD d

/-- The interface has accepted an attempt, which is no longer in flight. -/
def onAccepted (d : Dispatcher) (a : Attempt) (now : Instant) : Except Stop Dispatcher :=
  let c := a.command
  let d := d.tell (.resolved c.id c.address .confirmed)
  if !c.transition.isZero then
    (d.settleAfter c.address now (busTime c.transition)).map fun d =>
      d.record (d.registry.confirmRamp c.address c.target true)
  else if a.origin.isIntermediate then
    .ok (d.record (d.registry.confirmRamp c.address c.target true))
  else
    let d := d.unsettle c.address
    .ok (d.record (d.registry.confirmRamp c.address c.target false))

/-- A confirmation has come in. -/
def onConfirmation (d : Dispatcher) (c : Packet.Confirmation) (now : Instant) :
    Except Stop Dispatcher :=
  match d.inFlight with
  | none => .ok d
  | some a =>
    if a.key.matches c then
      let d := { d with inFlight := none }.strike a.timer
      if c.accepted then d.onAccepted a now else .ok (d.retryOrFail a)
    else .ok d

/-- A report has come in from the bus. -/
def onReport (d : Dispatcher) (now : Instant) (r : Packet.Report) : Except Stop Dispatcher :=
  if d.excluded.get r.address then .ok d
  else
    let d := d.record (d.registry.report r.address r.level r.transition r.source)
    if r.transition.isZero then .ok (d.unsettle r.address)
    else d.settleAfter r.address now r.transition

/-- Several reports have come in. -/
def onReports (now : Instant) : List Packet.Report → Dispatcher → Except Stop Dispatcher
  | [], d => .ok d
  | r :: rs, d => (d.onReport now r).bind (onReports now rs)

/-- A frame has come in. -/
def onFrame (d : Dispatcher) (now : Instant) (frame : List UInt8) : Except Stop Dispatcher :=
  match Packet.decode frame with
  | .ok (.confirmation c) => d.onConfirmation c now
  | .ok (.status reports) => onReports now reports d
  | .ok .unrecognized => .ok d
  | .error .splitCharacter => .error ⟨.splitCharacter, d⟩
  | .error _ => .ok d

/-- Several frames have come in. -/
def onFrames (now : Instant) : List (List UInt8) → Dispatcher → Except Stop Dispatcher
  | [], d => .ok d
  | frame :: frames, d => (d.onFrame now frame).bind (onFrames now frames)

/-- The link has gone down: the attempt in flight goes back to the head of the line, uncounted. -/
def onLinkDown (d : Dispatcher) : Dispatcher :=
  if d.linkUp then
    let d := { d with linkUp := false, buffer := [] }
    let d := match d.inFlight with
      | some a =>
        { d with
          inFlight := none
          waiting := ⟨a.command, a.origin, a.number - 1⟩ :: d.waiting }.strike a.timer
      | none => d
    d.tell (.linkChanged false)
  else d

/-- The link has come up. -/
def onLinkUp (d : Dispatcher) : Dispatcher :=
  if d.linkUp then d else { d with linkUp := true }.tell (.linkChanged true)

/-- Octets have come in. -/
def onData (d : Dispatcher) (octets : List UInt8) (now : Instant) : Except Stop Dispatcher :=
  let (frames, buffer) := Packet.frames (d.buffer ++ octets)
  onFrames now frames { d with buffer }

/-- News has come from the link. -/
def onLink (d : Dispatcher) (event : LinkEvent) (now : Instant) : Except Stop Dispatcher :=
  match event with
  | .connected => .ok d.onLinkUp
  | .disconnected => .ok d.onLinkDown
  | .data octets => d.onData octets now

end Dispatcher

end Lighting
