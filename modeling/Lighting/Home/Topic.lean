import Lighting.Address
import Lighting.Device.Kind

/-!
# Topics

Each address has a set of topics below the one of its entity: `set` takes commands, `state` shows the
state, `config` announces the entity.  The component that stands in front is what the home takes the
device for.  `readSetTopic` finds the address in a topic that commands came in on.
-/

namespace Lighting.Home

/-- What the home takes a device for. -/
inductive Component where
  /-- A light. -/
  | light
  /-- A switch. -/
  | switch
  /-- A sensor that is on or off. -/
  | binarySensor
deriving DecidableEq

/-- What stands in front of every topic. -/
def discoveryRoot : String := "homeassistant"

/-- What stands in front of the address in an entity's name. -/
def entityStem : String := "cbus_"

/-- The topic of the bridge itself. -/
def bridgeTopic : String := "homeassistant/binary_sensor/cbus_bridge"

/-- The topics that commands come in on. -/
def commandFilters : List String := ["homeassistant/light/+/set", "homeassistant/switch/+/set"]

namespace Component

/-- All components. -/
def all : List Component := [light, switch, binarySensor]

/-- The name of the component. -/
def name : Component → String
  | light => "light"
  | switch => "switch"
  | binarySensor => "binary_sensor"

/-- What the home takes a kind of device for; nothing for one to leave alone. -/
def ofKind? : DeviceKind → Option Component
  | .light => some light
  | .lightNonDimmable => some light
  | .switch => some switch
  | .binarySensor => some binarySensor
  | .ignore => none

/-- The topic of an entity. -/
def topic (c : Component) (a : Address) : String :=
  discoveryRoot ++ "/" ++ c.name ++ "/" ++ entityStem ++ toString a

/-- The topic an entity takes commands on. -/
def setTopic (c : Component) (a : Address) : String := c.topic a ++ "/set"

/-- The topic that shows an entity's state. -/
def stateTopic (c : Component) (a : Address) : String := c.topic a ++ "/state"

/-- The topic that announces an entity. -/
def configTopic (c : Component) (a : Address) : String := c.topic a ++ "/config"

end Component

/-- A topic that commands do not come in on. -/
structure TopicError where
  /-- The topic. -/
  topic : String
deriving DecidableEq

/-- The message of a topic error. -/
def TopicError.message (e : TopicError) : String := "invalid topic: " ++ e.topic

/-- What follows a text at the front. -/
def after? (front : String) (cs : List Char) : Option (List Char) :=
  if front.toList.isPrefixOf cs then some (cs.drop front.length) else none

/-- What stands before a text at the end. -/
def before? (back : String) (cs : List Char) : Option (List Char) :=
  (after? (String.ofList back.toList.reverse) cs.reverse).map List.reverse

/-- What stands before the first slash, and what follows it. -/
def splitSlash? (cs : List Char) : Option (List Char × List Char) :=
  match cs.dropWhile (· != '/') with
  | _ :: rest => some (cs.takeWhile (· != '/'), rest)
  | [] => none

/-- The address in a topic that commands come in on, if it is one. -/
def setTopicAddress? (topic : String) : Option Address := do
  let rest ← after? discoveryRoot topic.toList
  let rest ← after? "/" rest
  let (component, rest) ← splitSlash? rest
  if Component.all.any fun c => c.name.toList == component then
    let rest ← after? entityStem rest
    let address ← before? "/set" rest
    (Address.ofText? address).toOption
  else none

/-- The address in a topic that commands come in on. -/
def readSetTopic (topic : String) : Except TopicError Address :=
  match setTopicAddress? topic with
  | some a => .ok a
  | none => .error ⟨topic⟩

end Lighting.Home
