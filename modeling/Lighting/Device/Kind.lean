/-!
# Kinds of devices

What stands behind a group address: a light that dims, a light that only switches, a relay, a sensor
that only reports, or something to leave alone.
-/

namespace Lighting

/-- What stands behind a group address. -/
inductive DeviceKind where
  /-- A light that dims. -/
  | light
  /-- A light that only switches. -/
  | lightNonDimmable
  /-- A relay. -/
  | switch
  /-- A sensor that reports and takes no commands. -/
  | binarySensor
  /-- A device to leave alone. -/
  | ignore
deriving DecidableEq

namespace DeviceKind

/-- All kinds. -/
def all : List DeviceKind := [light, lightNonDimmable, switch, binarySensor, ignore]

/-- The words of the kind's name. -/
def words : DeviceKind → List String
  | light => ["light"]
  | lightNonDimmable => ["light", "non", "dimmable"]
  | switch => ["switch"]
  | binarySensor => ["binary", "sensor"]
  | ignore => ["ignore"]

/-- The name of the kind in settings. -/
def name (k : DeviceKind) : String := String.intercalate "_" k.words

/-- The name of the kind for people. -/
def title (k : DeviceKind) : String := String.intercalate " " (k.words.map String.capitalize)

/-- Whether the device takes levels between off and full. -/
def isDimmable : DeviceKind → Bool
  | light => true
  | _ => false

/-- Whether the device is a light. -/
def isLight : DeviceKind → Bool
  | light => true
  | lightNonDimmable => true
  | _ => false

/-- Whether the device takes commands. -/
def acceptsCommands : DeviceKind → Bool
  | light => true
  | lightNonDimmable => true
  | switch => true
  | _ => false

/-- A text that names no kind. -/
structure ReadError where
  /-- The text as it was given. -/
  text : String
deriving DecidableEq

/-- The message of a reading error. -/
def ReadError.message (e : ReadError) : String := "invalid device kind: " ++ e.text

/-- Reads the name of a kind, taking upper-case letters for lower-case ones. -/
def ofName? (text : String) : Except ReadError DeviceKind :=
  match all.find? fun k => k.name == text.map Char.toLower with
  | some k => .ok k
  | none => .error ⟨text⟩

end DeviceKind

end Lighting
