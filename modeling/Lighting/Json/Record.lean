import Lighting.Json.Scan

/-!
# JSON records

A `Record` is a JSON text that is one object or one array, taken apart into members one level deep.
-/

namespace Lighting.Json

/-- An object or an array, one level deep. -/
inductive Record where
  /-- The keys of an object, escapes and all, with their values, in the order of the text. -/
  | fields (members : List (List UInt8 × Scalar))
  /-- The values of an array. -/
  | items (values : List Scalar)
deriving DecidableEq

/-- What stands between one member and the next: whether another one follows, and what is left. -/
def scanComma (bracket : Bracket) (bs : List UInt8) : Option (Bool × List UInt8) :=
  match skipSpace bs with
  | b :: rest =>
    if b = 0x2C then some (true, rest)
    else if b = bracket.close then some (false, rest)
    else none
  | [] => none

/-- At most `fuel` members of an object, and what follows its closing bracket. -/
def scanFields : (fuel : Nat) → List UInt8 → Option (List (List UInt8 × Scalar) × List UInt8)
  | 0, _ => none
  | fuel + 1, bs =>
    (scanKey bs).bind fun (key, rest) =>
      (scanValue rest).bind fun (value, rest) =>
        (scanComma .object rest).bind fun (more, rest) =>
          if more then
            (scanFields fuel rest).map fun (members, rest) => ((key, value) :: members, rest)
          else some ([(key, value)], rest)

/-- At most `fuel` members of an array, and what follows its closing bracket. -/
def scanItems : (fuel : Nat) → List UInt8 → Option (List Scalar × List UInt8)
  | 0, _ => none
  | fuel + 1, bs =>
    (scanValue bs).bind fun (value, rest) =>
      (scanComma .array rest).bind fun (more, rest) =>
        if more then (scanItems fuel rest).map fun (values, rest) => (value :: values, rest)
        else some ([value], rest)

/-- What follows the closing bracket, if that comes first. -/
def scanEmpty (bracket : Bracket) (bs : List UInt8) : Option (List UInt8) :=
  match skipSpace bs with
  | b :: rest => if b = bracket.close then some rest else none
  | [] => none

/-- An object or an array, and what follows it.  Each member takes an octet, so there are no more
members than octets. -/
def scanRecord (bs : List UInt8) : Option (Record × List UInt8) :=
  match skipSpace bs with
  | [] => none
  | b :: rest =>
    (Bracket.ofOpen? b).bind fun
      | .object =>
        match scanEmpty .object rest with
        | some rest => some (.fields [], rest)
        | none => (scanFields rest.length rest).map fun (members, rest) => (.fields members, rest)
      | .array =>
        match scanEmpty .array rest with
        | some rest => some (.items [], rest)
        | none => (scanItems rest.length rest).map fun (values, rest) => (.items values, rest)

/-- Reads a text that is one object or one array, with nothing but blanks around it. -/
def Record.read (bs : List UInt8) : Option Record :=
  (scanRecord bs).bind fun (record, rest) => if (skipSpace rest).isEmpty then some record else none

end Lighting.Json
