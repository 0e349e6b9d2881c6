import Lighting.Command
import Lighting.Device.State

/-!
# Events

Everything the dispatcher has to tell: a state that changed, how a command ended, the link going up
or down.
-/

namespace Lighting

/-- How a command ended. -/
inductive Outcome where
  /-- The interface accepted it. -/
  | confirmed
  /-- A later command for the same address took its place. -/
  | superseded (successor : CommandId)
  /-- All its attempts failed. -/
  | failed (attempts : Nat)
deriving DecidableEq

/-- Something the dispatcher has to tell. -/
inductive Event where
  /-- What is known of a device has changed. -/
  | stateChanged (state : DeviceState)
  /-- A command has ended. -/
  | resolved (id : CommandId) (address : Address) (outcome : Outcome)
  /-- The link has gone up or down. -/
  | linkChanged (up : Bool)
deriving DecidableEq

namespace Event

/-- The address an event is about. -/
def address? : Event → Option Address
  | stateChanged state => some state.address
  | resolved _ address _ => some address
  | linkChanged _ => none

/-- Whether the event is about a state. -/
def isStateChange : Event → Bool
  | stateChanged _ => true
  | _ => false

/-- Whether the event tells of a command whose attempts all failed. -/
def isFailure : Event → Bool
  | resolved _ _ (.failed _) => true
  | _ => false

/-- Whether the event is about the link. -/
def isLink : Event → Bool
  | linkChanged _ => true
  | _ => false

end Event

end Lighting
