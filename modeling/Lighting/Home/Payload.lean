import Lighting.Command
import Lighting.Device.Kind
import Lighting.Device.State
import Lighting.Json.Document
import Lighting.Json.Meaning
import Lighting.Json.Record
import Lighting.Text.Blank
import Lighting.Text.Utf8

/-!
# Payloads

A command payload is a JSON record with a state and, for a light that dims, a brightness and a
transition; whatever is no such record is taken as plain text, the name of a state.  A state payload
is written in the form the home expects of the kind of device.

How JSON is read is a matter of its own: a command is read by any `JsonReader`, and `readCommand` takes
the one of this library.
-/

namespace Lighting.Home

open Binary (Value double)
open Json (Scalar Record Document)

/-- What a command payload asks for. -/
structure Wish where
  /-- The name of a state, as it was given. -/
  state : List Char
  /-- The brightness, before it is brought into range. -/
  brightness : Option Int
  /-- The seconds to take. -/
  transition : Option (Value double)
deriving DecidableEq

/-- What a scalar says of a field that must be a text. -/
def textField? : Scalar → Option (List Char)
  | .string body => Json.stringChars? body
  | _ => none

/-- What a scalar says of a field that may be an integer. -/
def integerField? : Scalar → Option (Option Int)
  | .null => some none
  | .number n => n.int64?.map some
  | _ => none

/-- What a scalar says of a field that may be a number. -/
def numberField? : Scalar → Option (Option (Value double))
  | .null => some none
  | .number n => n.value?.map some
  | _ => none

/-- A reader of JSON texts: what one of the right form asks for, and nothing for any other text. -/
abbrev JsonReader := List UInt8 → Option Wish

namespace Wish

/-- A wish of which some fields are still open. -/
structure Draft where
  /-- The name of a state. -/
  state : Option (List Char)
  /-- The brightness, once the field was met. -/
  brightness : Option (Option Int)
  /-- The transition, once the field was met. -/
  transition : Option (Option (Value double))

/-- Takes one field of an object; a field that is met twice or has the wrong form spoils the
object, a field of another name is passed over. -/
def Draft.take (d : Draft) (key : List Char) (value : Scalar) : Option Draft :=
  if key = "state".toList then
    if d.state.isSome then none
    else (textField? value).map fun x => { d with state := some x }
  else if key = "brightness".toList then
    if d.brightness.isSome then none
    else (integerField? value).map fun x => { d with brightness := some x }
  else if key = "transition".toList then
    if d.transition.isSome then none
    else (numberField? value).map fun x => { d with transition := some x }
  else some d

/-- Takes the fields of an object in order. -/
def Draft.takeAll (d : Draft) : List (List UInt8 × Scalar) → Option Draft
  | [] => some d
  | (key, value) :: rest =>
    (Json.stringChars? key).bind fun key => (d.take key value).bind (·.takeAll rest)

/-- The wish of an object. -/
def ofFields? (members : List (List UInt8 × Scalar)) : Option Wish :=
  (Draft.takeAll ⟨none, none, none⟩ members).bind fun d =>
    d.state.map fun state => ⟨state, d.brightness.join, d.transition.join⟩

/-- The wish of an array: state, brightness and transition, of which the last ones may be missing. -/
def ofItems? : List Scalar → Option Wish
  | [state] => (textField? state).map fun state => ⟨state, none, none⟩
  | [state, brightness] => do
    let state ← textField? state
    let brightness ← integerField? brightness
    some ⟨state, brightness, none⟩
  | [state, brightness, transition] => do
    let state ← textField? state
    let brightness ← integerField? brightness
    let transition ← numberField? transition
    some ⟨state, brightness, transition⟩
  | _ => none

/-- The wish of a record. -/
def ofRecord? : Record → Option Wish
  | .fields members => ofFields? members
  | .items values => ofItems? values

/-- The wish of a JSON text of the right form, as this library reads JSON. -/
def ofJson? (payload : List UInt8) : Option Wish := (Record.read payload).bind ofRecord?

/-- Whether a character is a quotation mark that is dropped around a plain text. -/
def isQuote (c : Char) : Bool := c == '"' || c == '\''

/-- The wish of a plain text. -/
def ofText? (payload : List UInt8) : Option Wish :=
  (Text.Utf8.decode payload).map fun cs =>
    ⟨Text.trimBoth isQuote (Text.trim cs), none, none⟩

/-- The wish of a payload: of a JSON text if it is one, otherwise of a plain text. -/
def read? (json? : JsonReader) (payload : List UInt8) : Option Wish :=
  (json? payload).or (ofText? payload)

/-- Whether the state asked for is on or off; blanks around it and the case of its letters do not
matter. -/
def isOn? (w : Wish) : Option Bool :=
  let word := String.ofList ((Text.trim w.state).map Char.toUpper)
  if word = "ON" then some true else if word = "OFF" then some false else none

end Wish

/-- What is wrong with a command payload. -/
inductive PayloadError where
  /-- It is neither a JSON record of the right form nor a text. -/
  | unreadable
  /-- It names a state other than on and off. -/
  | invalidState (state : List Char)
  /-- Its transition is no span of time. -/
  | invalidTransition
deriving DecidableEq

/-- The message of a payload error; what a reader would say of an unreadable one is not fixed. -/
def PayloadError.message? : PayloadError → Option String
  | unreadable => none
  | invalidState state => some ("value error: invalid switch state: " ++ String.ofList state)
  | invalidTransition => some "parse error: failed to parse transition: out of range"

/-- The longest transition, in seconds. -/
def maxTransition : Nat := 24 * 60 * 60

/-- The span of a transition: nothing below zero, at most the longest one, to the nanosecond. -/
def transitionSpan? (transition : Option (Value double)) : Option Duration :=
  match transition with
  | none => some .zero
  | some x =>
    if (Value.finite 0).lt x then
      let most : Value double := .ofNat maxTransition
      (if most.lt x then most else x).seconds?
    else some .zero

/-- What a light that dims is to do. -/
def dimmedAction (on : Bool) (level : Level) (transition : Duration) : Action :=
  if on then
    if transition.isZero ∧ level = .full then .on else .ramp level transition
  else if transition.isZero then .off
  else .ramp .off transition

/-- The action that a command payload asks of a kind of device, by a reader of JSON texts. -/
def readCommandBy (json? : JsonReader) (payload : List UInt8) (kind : DeviceKind) :
    Except PayloadError Action :=
  match Wish.read? json? payload with
  | none => .error .unreadable
  | some w =>
    match w.isOn? with
    | none => .error (.invalidState w.state)
    | some on =>
      if kind.isDimmable then
        match transitionSpan? w.transition with
        | none => .error .invalidTransition
        | some transition =>
          .ok (dimmedAction on ((w.brightness.map Level.clamped).getD .full) transition)
      else .ok (if on then .on else .off)

/-- The action that a command payload asks of a kind of device. -/
def readCommand (payload : List UInt8) (kind : DeviceKind) : Except PayloadError Action :=
  readCommandBy Wish.ofJson? payload kind

/-- The name of a state for the home. -/
def stateName (s : DeviceState) : String := if s.isOn then "ON" else "OFF"

/-- The document that shows the state of a light. -/
def lightState (s : DeviceState) (kind : DeviceKind) : Document :=
  .object
    [("state", .string (stateName s)),
     ("brightness", .number s.best.toNat),
     ("transition", .number s.transition.seconds),
     ("color_mode", .string (if kind.isDimmable then "brightness" else "onoff")),
     ("cbus_certainty", .string s.certainty.name),
     ("cbus_source_addr", (s.source.map fun u => Document.number u.toNat).getD .null)]

/-- The payload that shows the state of a device; none for one to leave alone. -/
def statePayload (s : DeviceState) (kind : DeviceKind) : Option String :=
  match kind with
  | .ignore => none
  | .switch => some (stateName s)
  | .binarySensor => some (stateName s)
  | .light => some (lightState s kind).toText
  | .lightNonDimmable => some (lightState s kind).toText

end Lighting.Home
