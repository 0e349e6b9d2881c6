import Lighting.Text.Hex
import Lighting.Text.Numeral

/-!
# JSON documents

A `Document` is a JSON value to be written: without blanks, the fields of an object in the order
given.
-/

namespace Lighting.Json

/-- A JSON value to be written. -/
inductive Document where
  /-- The word for no value. -/
  | null
  /-- A truth value. -/
  | bool (b : Bool)
  /-- A number without sign and point. -/
  | number (n : Nat)
  /-- A text. -/
  | string (text : String)
  /-- A row of values. -/
  | array (items : List Document)
  /-- Named values. -/
  | object (fields : List (String × Document))

/-- One character of a text: a quote and a backslash carry a backslash, control characters are
escaped, everything else stands for itself. -/
def escapeChar (c : Char) : List Char :=
  if c = '"' then ['\\', '"']
  else if c = '\\' then ['\\', '\\']
  else if c.toNat = 0x08 then ['\\', 'b']
  else if c.toNat = 0x0C then ['\\', 'f']
  else if c = '\n' then ['\\', 'n']
  else if c = '\r' then ['\\', 'r']
  else if c = '\t' then ['\\', 't']
  else if c.toNat < 0x20 then ['\\', 'u', '0', '0'] ++ Text.octetLower (UInt8.ofNat c.toNat)
  else [c]

/-- A text between quotes. -/
def writeString (text : String) : List Char :=
  '"' :: text.toList.flatMap escapeChar ++ ['"']

namespace Document

mutual

/-- The characters of a value. -/
def write : Document → List Char
  | null => ['n', 'u', 'l', 'l']
  | bool true => ['t', 'r', 'u', 'e']
  | bool false => ['f', 'a', 'l', 's', 'e']
  | number n => (Text.decimal n).toList
  | string text => writeString text
  | array items => '[' :: writeItems items ++ [']']
  | object fields => '\x7b' :: writeFields fields ++ ['\x7d']

/-- The characters of a row of values, with commas between them. -/
def writeItems : List Document → List Char
  | [] => []
  | [item] => item.write
  | item :: items => item.write ++ ',' :: writeItems items

/-- The characters of named values, with commas between them. -/
def writeFields : List (String × Document) → List Char
  | [] => []
  | [(key, value)] => writeString key ++ ':' :: value.write
  | (key, value) :: fields => writeString key ++ ':' :: value.write ++ ',' :: writeFields fields

end

/-- The text of a value. -/
def toText (d : Document) : String := String.ofList d.write

end Document

end Lighting.Json
