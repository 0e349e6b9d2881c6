import Lighting.Text.Hex
import Lighting.Text.Unprintable

/-!
# Quoted text

Messages show text that came from outside in double quotes.  A quote and a backslash carry a
backslash, the usual controls have their letters, and every other unprintable character is written
by its code point, so that the reader of a log sees each character that was there.
-/

namespace Lighting.Text

/-- One character of a quoted text. -/
def quoteChar (c : Char) : List Char :=
  if c = '"' then ['\\', '"']
  else if c = '\\' then ['\\', '\\']
  else if c = '\t' then ['\\', 't']
  else if c = '\n' then ['\\', 'n']
  else if c = '\r' then ['\\', 'r']
  else if c.toNat = 0 then ['\\', '0']
  else if isUnprintable c then
    ['\\', 'u', '\x7b'] ++ (lowerNumeral c.toNat).toList ++ ['\x7d']
  else [c]

/-- The text in double quotes. -/
def quoted (cs : List Char) : String :=
  String.ofList ('"' :: cs.flatMap quoteChar ++ ['"'])

end Lighting.Text
