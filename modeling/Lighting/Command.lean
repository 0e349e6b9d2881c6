import Lighting.Address
import Lighting.Clock
import Lighting.Level

/-!
# Actions and commands

An `Action` says what a group is to do; a `Command` asks one address for an action, under an
identifier by which its outcome is reported.
-/

namespace Lighting

/-- What a group is asked to do. -/
inductive Action where
  /-- Go to full brightness. -/
  | on
  /-- Go dark. -/
  | off
  /-- Go to a level at once. -/
  | setLevel (level : Level)
  /-- Go to a level within a span of time. -/
  | ramp (level : Level) (duration : Duration)
deriving DecidableEq

/-- The two families of actions. -/
inductive Action.Class where
  /-- On and off. -/
  | switch
  /-- Everything that names a level. -/
  | level
deriving DecidableEq

namespace Action

/-- The level the action ends with. -/
def target : Action → Level
  | on => .full
  | off => .off
  | setLevel level => level
  | ramp level _ => level

/-- How long the action takes. -/
def transition : Action → Duration
  | ramp _ duration => duration
  | _ => .zero

/-- The family of the action. -/
def kind : Action → Class
  | on => .switch
  | off => .switch
  | setLevel _ => .level
  | ramp _ _ => .level

/-- The name of the action. -/
def name : Action → String
  | on => "on"
  | off => "off"
  | setLevel _ => "set_level"
  | ramp _ _ => "ramp"

end Action

/-- The identifier of a command. -/
structure CommandId where
  /-- The number of the command.  Commands are numbered one by one in 64 bits; 2^64 commands are out
  of reach, so the number is not bounded here. -/
  number : Nat
deriving DecidableEq

namespace CommandId

/-- The identifier that is given out first. -/
def first : CommandId := ⟨1⟩

/-- The identifier that is given out after this one. -/
def next (id : CommandId) : CommandId := ⟨id.number + 1⟩

instance : ToString CommandId := ⟨fun id => "#" ++ Text.decimal id.number⟩

end CommandId

/-- A request that one address performs an action. -/
structure Command where
  /-- The identifier under which the outcome is reported. -/
  id : CommandId
  /-- The address that is to act. -/
  address : Address
  /-- What it is to do. -/
  action : Action
  /-- When the command was made. -/
  madeAt : Instant
deriving DecidableEq

namespace Command

/-- The level the command ends with. -/
def target (c : Command) : Level := c.action.target

/-- How long the command takes. -/
def transition (c : Command) : Duration := c.action.transition

/-- The same command with another action. -/
def withAction (c : Command) (action : Action) : Command := { c with action }

end Command

end Lighting
