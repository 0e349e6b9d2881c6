import Lighting.Agenda
import Lighting.Packet.Codec
import Lighting.Packet.Line
import Lighting.Registry
import Lighting.Settings

/-!
# The dispatcher: its parts

The `Dispatcher` owns the commands that wait for the link, the one attempt that is in flight, the
agenda, the running ramps and the registry of states.  At most one attempt is in flight, and at most
one command of an address waits or is in flight.

### Three design decisions

**Time and events are data.**  The dispatcher never reads a clock and never waits: every operation
takes the current moment and gives the dispatcher as it is afterwards.  What it has to tell piles up
in the outbox, the latest first, until someone takes it; a run in which nobody does therefore carries
its whole history of events with it.

**Stopping halfway.**  Two operations can find themselves without an answer: a deadline may lie
beyond the end of the clock, and a line may have to be cut inside a character.  They then stop, and a
`Stop` carries what the dispatcher had become, because what it told before it stopped has been told.

**One line, in order.**  What waits is a list with the next command first.  A command that takes the
place of another stands where that one stood, and an attempt that comes back stands in front, so the
order of the addresses on the line is the order in which they came.
-/

namespace Lighting

/-- Where a command on the line came from. -/
inductive Origin where
  /-- From outside. -/
  | direct
  /-- From a stepped ramp, as its last step or an earlier one. -/
  | rampStep (plan : Nat) (last : Bool)
deriving DecidableEq

/-- Whether the command is a step of a ramp that goes on. -/
def Origin.isIntermediate : Origin → Bool
  | .rampStep _ last => !last
  | .direct => false

/-- A command that waits to be sent. -/
structure Queued where
  /-- The command. -/
  command : Command
  /-- Where it came from. -/
  origin : Origin
  /-- How many attempts it has had. -/
  attempts : Nat
deriving DecidableEq

/-- A line that was sent and waits for its confirmation. -/
structure Attempt where
  /-- The command. -/
  command : Command
  /-- Where it came from. -/
  origin : Origin
  /-- The number of the attempt, from one. -/
  number : Nat
  /-- When the line was sent. -/
  sentAt : Instant
  /-- When it is given up. -/
  deadline : Instant
  /-- What its confirmation is recognised by. -/
  key : Packet.MatchKey
  /-- The agenda entry of the deadline. -/
  timer : Agenda.Token
deriving DecidableEq

/-- What the dispatcher has to do later. -/
inductive Task where
  /-- Give up an attempt that was not confirmed. -/
  | confirmation (id : CommandId) (attempt : Nat)
  /-- Send a step of a ramp. -/
  | rampStep (plan : Nat) (command : Command) (last : Bool)
  /-- A ramp of the bus units has come to its end. -/
  | settled (address : Address)
deriving DecidableEq

/-- A stepped ramp whose last step is still to come. -/
structure ActivePlan where
  /-- The number of the plan. -/
  id : Nat
  /-- The command the ramp was asked for with; the last step carries its identifier. -/
  final : CommandId
  /-- The agenda entries of the steps. -/
  timers : List Agenda.Token
deriving DecidableEq

/-- The state of dispatching. -/
structure Dispatcher where
  /-- How commands are paced, repeated and ramped. -/
  settings : Settings
  /-- The addresses to leave alone. -/
  excluded : Address.Table Bool
  /-- The identifier given out next. -/
  nextId : CommandId
  /-- What is known of the devices. -/
  registry : Registry
  /-- The commands that wait, the next one first. -/
  waiting : List Queued
  /-- The attempt that waits for its confirmation. -/
  inFlight : Option Attempt
  /-- What is to be done later. -/
  agenda : Agenda Task
  /-- The stepped ramp of each address, if one is running. -/
  plans : Address.Table (Option ActivePlan)
  /-- The number of the plan made next.  Plans are counted one by one in 64 bits; 2^64 plans are out of
  reach, so the number is not bounded here. -/
  nextPlan : Nat
  /-- The agenda entry of the end of the ramp that the bus units run for an address. -/
  settling : Address.Table (Option Agenda.Token)
  /-- Whether the link is up. -/
  linkUp : Bool
  /-- The running number of the line sent next; after 2^64 lines it starts again. -/
  nonce : UInt64
  /-- When the last line was sent. -/
  lastSend : Option Instant
  /-- What has come in and is not yet a whole frame. -/
  buffer : List UInt8
  /-- What there is to tell, the latest first. -/
  outbox : List Event

/-- Why an operation stopped halfway. -/
inductive Halt where
  /-- A deadline lies beyond the end of the clock. -/
  | endOfClock
  /-- A line would have to be cut inside a character. -/
  | splitCharacter
deriving DecidableEq

/-- An operation that stopped halfway. -/
structure Stop where
  /-- Why it stopped. -/
  cause : Halt
  /-- What the dispatcher had become. -/
  dispatcher : Dispatcher

namespace Dispatcher

/-- A dispatcher before anything has happened; the link is down. -/
def create (settings : Settings) (excluded : List Address) : Dispatcher :=
  { settings
    excluded := (Address.Table.fill false).setAll excluded true
    nextId := .first
    registry := .empty
    waiting := []
    inFlight := none
    agenda := .empty
    plans := .fill none
    nextPlan := 0
    settling := .fill none
    linkUp := false
    nonce := 0
    lastSend := none
    buffer := []
    outbox := [] }

/-- Tells an event. -/
def tell (d : Dispatcher) (e : Event) : Dispatcher := { d with outbox := e :: d.outbox }

/-- Takes over a change of the registry and tells of it. -/
def record (d : Dispatcher) (change : Registry × Option Event) : Dispatcher :=
  { d with registry := change.1, outbox := change.2.toList ++ d.outbox }

/-- Strikes an agenda entry. -/
def strike (d : Dispatcher) (t : Agenda.Token) : Dispatcher :=
  { d with agenda := d.agenda.erase t }

/-- Tells that a command gave way to a later one. -/
def supersede (d : Dispatcher) (old : Command) (successor : CommandId) : Dispatcher :=
  d.tell (.resolved old.id old.address (.superseded successor))

/-- What there is to tell, the oldest first, and the dispatcher after it was told. -/
def takeEvents (d : Dispatcher) : List Event × Dispatcher :=
  (d.outbox.reverse, { d with outbox := [] })

/-- Gives out an identifier. -/
def issueId (d : Dispatcher) : CommandId × Dispatcher :=
  (d.nextId, { d with nextId := d.nextId.next })

/-- The state of a device. -/
def query (d : Dispatcher) (a : Address) : DeviceState := d.registry.query a

/-- The states of all devices heard of, in address order. -/
def snapshot (d : Dispatcher) : List DeviceState := d.registry.snapshot

end Dispatcher

end Lighting
