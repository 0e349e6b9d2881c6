import Lighting.Dispatcher.Inbound
import Lighting.Dispatcher.Serve

/-!
# The engine

An `Engine` is a dispatcher with a clock.  Between two pieces of news it has done all it can at the
present moment, and `sleep` lets the clock run: the engine wakes on whole milliseconds whenever the
dispatcher has something to do.  It stops for good when it is told to, when the link will bring no
more news, when a line it wants to send has nobody to take it, or when the dispatcher stops halfway.
-/

namespace Lighting

/-- A dispatcher with a clock. -/
structure Engine where
  /-- The dispatcher; after a stop, what it had become. -/
  dispatcher : Dispatcher
  /-- The present moment. -/
  now : Instant
  /-- Whether the engine still runs. -/
  running : Bool
  /-- Whether someone takes the lines. -/
  outputOpen : Bool
  /-- Whether the link may bring news. -/
  linkOpen : Bool
  /-- The lines sent and not yet taken, the last first. -/
  sent : List (List UInt8)

namespace Engine

/-- The first whole millisecond at or after a moment. -/
def wholeMillis (t : Instant) : Instant := .ofMillis ((t.nanos + nanosPerMilli - 1) / nanosPerMilli)

/-- Takes over what serving has come to. -/
def resume (e : Engine) (served : Dispatcher.Served) : Engine :=
  let sent := if e.outputOpen then served.sent.map (·.frame) ++ e.sent else e.sent
  match served.outcome with
  | .error stop => { e with dispatcher := stop.dispatcher, running := false, sent }
  | .ok d => { e with dispatcher := d, running := e.outputOpen || served.sent.isEmpty, sent }

/-- Lets the dispatcher work up to a moment that is not past. -/
def workUntil (e : Engine) (limit : Instant) : Engine :=
  let limit := e.now.max limit
  if e.running then
    let terms : Dispatcher.Terms := ⟨wholeMillis, limit, e.outputOpen⟩
    let served := Dispatcher.serve terms e.dispatcher.workBound [] e.now e.dispatcher
    { e with now := limit }.resume served
  else { e with now := limit }

/-- Lets the dispatcher do all it can at the present moment. -/
def work (e : Engine) : Engine := e.workUntil e.now

/-- An engine that has just started. -/
def start (d : Dispatcher) : Engine :=
  { dispatcher := d
    now := .start
    running := true
    outputOpen := true
    linkOpen := true
    sent := [] : Engine }.work

/-- Asks an address for an action; the identifier of the command, or nothing if the engine has
stopped. -/
def request (e : Engine) (a : Address) (action : Action) : Option CommandId × Engine :=
  let (id, d) := e.dispatcher.issueId
  let e := { e with dispatcher := d }
  if e.running then
    (some id, { e with dispatcher := d.enqueue ⟨id, a, action, e.now⟩ e.now }.work)
  else (none, e)

/-- The state of a device, or nothing if the engine has stopped. -/
def query? (e : Engine) (a : Address) : Option DeviceState :=
  if e.running then some (e.dispatcher.query a) else none

/-- The states of all devices heard of, or nothing if the engine has stopped. -/
def snapshot? (e : Engine) : Option (List DeviceState) :=
  if e.running then some e.dispatcher.snapshot else none

/-- News from the link: whether anyone listens, or nothing if the link was closed. -/
def link (e : Engine) (event : LinkEvent) : Option Bool × Engine :=
  if !e.linkOpen then (none, e)
  else if e.running then
    match e.dispatcher.onLink event e.now with
    | .ok d => (some true, { e with dispatcher := d }.work)
    | .error stop => (some true, { e with dispatcher := stop.dispatcher, running := false })
  else (some false, e)

/-- Lets the clock run. -/
def sleep (e : Engine) (millis : Nat) : Engine :=
  e.workUntil (.ofMillis (e.now.nanos / nanosPerMilli + millis))

/-- Tells the engine to stop. -/
def shutdown (e : Engine) : Engine := { e with running := false }

/-- The link will bring no more news; the engine stops. -/
def closeLink (e : Engine) : Engine := { e with linkOpen := false, running := false }

/-- Nobody takes lines any more; the engine stops when it wants to send one. -/
def closeOutput (e : Engine) : Engine := { e with outputOpen := false }

/-- The message for a request that a stopped engine cannot take. -/
def closedMessage : String := "command queue is not running"

/-- The lines sent and the events told since they were last taken, the oldest first. -/
def take (e : Engine) : List (List UInt8) × List Event × Engine :=
  let (events, d) := e.dispatcher.takeEvents
  (e.sent.reverse, events, { e with dispatcher := d, sent := [] })

end Engine

end Lighting
