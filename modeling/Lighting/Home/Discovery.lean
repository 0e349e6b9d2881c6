import Lighting.Device.Map
import Lighting.Home.Topic
import Lighting.Json.Document

/-!
# Discovery

The home learns of the bridge and of every entity by a message each, a JSON document on the entity's
`config` topic.  The fields of a document stand in alphabetical order.
-/

namespace Lighting.Home

open Json (Document)

/-- A message to the home. -/
structure Message where
  /-- The topic. -/
  topic : String
  /-- What it says. -/
  payload : Document

/-- The identifier of the bridge. -/
def bridgeId : String := "cbus_bridge"

/-- The name of the bridge. -/
def bridgeName : String := "C-Bus bridge"

/-- Who makes the devices. -/
def manufacturer : String := "Clipsal"

/-- The model shown for every device. -/
def model : String := "cbus-bridge"

/-- The version shown for every device. -/
def version : String := "cbus-bridge 0.1.0"

/-- The message that announces the bridge. -/
def bridgeConfig : Message :=
  { topic := bridgeTopic ++ "/config"
    payload := .object
      [("device", .object
          [("identifiers", .array [.string bridgeId]),
           ("manufacturer", .string manufacturer),
           ("model", .string model),
           ("name", .string bridgeName),
           ("sw_version", .string version)]),
       ("device_class", .string "connectivity"),
       ("name", .string bridgeName),
       ("stat_t", .string "~/state"),
       ("unique_id", .string bridgeId),
       ("~", .string bridgeTopic)] }

/-- The unique identifier of an entity. -/
def uniqueId (c : Component) (a : Address) : String := entityStem ++ c.name ++ "_" ++ toString a

/-- The name of an entity for people. -/
def entityName (a : Address) (k : DeviceKind) : String :=
  "C-Bus " ++ k.title ++ " " ++ Text.padded 3 a.toNat

/-- The colour mode of a light. -/
def colourMode (k : DeviceKind) : String := if k.isDimmable then "brightness" else "onoff"

/-- The device an entity belongs to. -/
def device (c : Component) (a : Address) (k : DeviceKind) : Document :=
  .object
    [("connections", .array [.array [.string "cbus_group_address", .string (toString a)]]),
     ("identifiers", .array [.string (uniqueId c a)]),
     ("manufacturer", .string manufacturer),
     ("model", .string model),
     ("name", .string (entityName a k)),
     ("sw_version", .string version),
     ("via_device", .string bridgeId)]

/-- The fields of an entity's announcement, in alphabetical order. -/
def entityFields (c : Component) (a : Address) (k : DeviceKind) : List (String × Document) :=
  (if k.isLight then [("brightness", .bool k.isDimmable)] else []) ++
  (if k.acceptsCommands then [("cmd_t", .string (c.setTopic a))] else []) ++
  [("device", device c a k), ("name", .string (entityName a k))] ++
  (if k.isLight then [("schema", .string "json")] else []) ++
  [("stat_t", .string (c.stateTopic a))] ++
  (if k.isLight then [("supported_color_modes", .array [.string (colourMode k)])] else []) ++
  [("unique_id", .string (uniqueId c a))]

/-- The message that announces an entity; none for a device to leave alone. -/
def entityConfig (a : Address) (k : DeviceKind) : Option Message :=
  (Component.ofKind? k).map fun c => ⟨c.configTopic a, .object (entityFields c a k)⟩

/-- All announcements: the bridge, then every entity in address order. -/
def discovery (m : DeviceMap) : List Message :=
  bridgeConfig :: m.exposed.filterMap fun (a, k) => entityConfig a k

end Lighting.Home
