import Lighting.Binary
import Lighting.Text.Numeral

/-!
# Binary values from decimal text

`Value.ofDecimal` gives the value nearest to a decimal number, however long or extreme the number
is.  `Value.read?` reads the usual notations: an optional sign, digits with an optional point, an
optional exponent, or the words `inf`, `infinity` and `nan` in any case.
-/

namespace Lighting.Binary.Value

open Lighting.Text

variable {f : Format}

/-- The value nearest to `digits * 10 ^ exponent`.  A number with `top` digits or more before its
point lies beyond the range, and one with more than `scale` zeros behind it lies below half a unit,
so no power of ten larger than the format is ever computed. -/
def ofDecimal (negative : Bool) (digits : Nat) (exponent : Int) : Value f :=
  let magnitude := (Nat.toDigits 10 digits).length + exponent
  if digits = 0 then .finite 0
  else if (f.top : Int) < magnitude then .infinite negative
  else if magnitude < -(f.scale : Int) then .finite 0
  else if 0 ≤ exponent then ofRatio negative (digits * Nat.pow 10 exponent.toNat) 1
  else ofRatio negative digits (Nat.pow 10 (-exponent).toNat)

/-- A decimal numeral taken apart: its digits without the point, and the power of ten they stand
for. -/
structure Scientific where
  /-- All digits, read as one number. -/
  digits : Nat
  /-- The power of ten. -/
  exponent : Int

/-- Reads digits with an optional point and an optional exponent; one digit must stand before the
exponent. -/
def scientific? (cs : List Char) : Option Scientific :=
  let whole := cs.takeWhile Char.isDigit
  let afterWhole := cs.dropWhile Char.isDigit
  let (fraction, rest) := match afterWhole with
    | '.' :: more => (more.takeWhile Char.isDigit, more.dropWhile Char.isDigit)
    | _ => ([], afterWhole)
  let digits := digitsValue (whole ++ fraction)
  if (whole ++ fraction).isEmpty then none
  else match rest with
    | [] => some ⟨digits, -(fraction.length : Int)⟩
    | c :: more =>
      if c = 'e' || c = 'E' then
        (signed? more).map fun e => ⟨digits, e - fraction.length⟩
      else none

/-- Reads an unsigned number or one of the words. -/
def readMagnitude? (negative : Bool) (cs : List Char) : Option (Value f) :=
  let word := String.ofList (cs.map Char.toLower)
  if word = "inf" || word = "infinity" then some (.infinite negative)
  else if word = "nan" then some .undefined
  else (scientific? cs).map fun s => ofDecimal negative s.digits s.exponent

/-- Reads a number. -/
def read? : List Char → Option (Value f)
  | '-' :: cs => readMagnitude? true cs
  | '+' :: cs => readMagnitude? false cs
  | cs => readMagnitude? false cs

end Lighting.Binary.Value
