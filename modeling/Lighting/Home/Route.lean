import Lighting.Device.Map
import Lighting.Home.Payload
import Lighting.Home.Topic

/-!
# Routing commands

A command that comes from the home names an address by its topic and an action by its payload.  One
for a device that takes no commands is passed over before its payload is looked at.
-/

namespace Lighting.Home

/-- What is wrong with a command from the home. -/
inductive RouteError where
  /-- Its topic. -/
  | topic (e : TopicError)
  /-- Its payload. -/
  | payload (e : PayloadError)
deriving DecidableEq

/-- The message of a routing error, if it has one. -/
def RouteError.message? : RouteError → Option String
  | topic e => some ("parse error: " ++ e.message)
  | payload e => e.message?

/-- The address and the action that a command from the home asks for; nothing if the device takes no
commands. -/
def route (topic : String) (payload : List UInt8) (kinds : DeviceMap) :
    Except RouteError (Option (Address × Action)) :=
  match readSetTopic topic with
  | .error e => .error (.topic e)
  | .ok a =>
    if (kinds.get a).acceptsCommands then
      match readCommand payload (kinds.get a) with
      | .error e => .error (.payload e)
      | .ok action => .ok (some (a, action))
    else .ok none

end Lighting.Home
