import Lighting.Binary
import Lighting.Json.Scan
import Lighting.Text.Numeral
import Lighting.Text.Utf8

/-!
# What JSON strings and numbers mean

A string stands for the characters its octets and escapes give, and for nothing if those are no
Unicode text.  A number without point and exponent is an integer, save minus zero; and every number
stands for a binary value: its digits are gathered in 64 bits, the ones that no longer fit only
counted, and the result is multiplied or divided by a power of ten, rounding each time.
-/

namespace Lighting.Json

open Lighting.Binary (Value double)

/-- The value of four hexadecimal digits. -/
def hexUnit (digits : List UInt8) : Nat :=
  digits.foldl (fun n b => 16 * n + (Text.hexValue? (Char.ofNat b.toNat)).getD 0) 0

/-- The octet that a backslash and a letter stand for. -/
def escaped (b : UInt8) : UInt8 :=
  if b = 0x62 then 0x08
  else if b = 0x66 then 0x0C
  else if b = 0x6E then 0x0A
  else if b = 0x72 then 0x0D
  else if b = 0x74 then 0x09
  else b

/-- The first half of a surrogate pair that waits for the second. -/
abbrev Pending := Option Nat

/-- The octets that what stands between the quotes gives.  `high` is the first half of a pair just
read; only the escape of a second half may follow it. -/
def unescape : (high : Pending) → List UInt8 → Option (List UInt8)
  | high, [] => if high.isSome then none else some []
  | high, b :: rest =>
    if b = 0x5C then
      match rest with
      | [] => none
      | e :: rest =>
        if e = 0x75 then
          match rest with
          | h₁ :: h₂ :: h₃ :: h₄ :: rest =>
            let unit := hexUnit [h₁, h₂, h₃, h₄]
            match high with
            | some first =>
              if 0xDC00 ≤ unit ∧ unit < 0xE000 then
                let c := Char.ofNat (0x10000 + (first - 0xD800) * 0x400 + (unit - 0xDC00))
                (unescape none rest).map (String.utf8EncodeChar c ++ ·)
              else none
            | none =>
              if 0xD800 ≤ unit ∧ unit < 0xDC00 then unescape (some unit) rest
              else if 0xDC00 ≤ unit ∧ unit < 0xE000 then none
              else (unescape none rest).map (String.utf8EncodeChar (Char.ofNat unit) ++ ·)
          | _ => none
        else if high.isSome then none
        else (unescape none rest).map (escaped e :: ·)
    else if high.isSome then none
    else (unescape none rest).map (b :: ·)

/-- The characters that what stands between the quotes gives. -/
def stringChars? (body : List UInt8) : Option (List Char) :=
  (unescape none body).bind Text.Utf8.decode

namespace Numeral

/-- The value of a digit. -/
def digitValue (b : UInt8) : Nat := b.toNat - 0x30

/-- The value of a row of digits. -/
def digitsValue (digits : List UInt8) : Nat := digits.foldl (fun n b => 10 * n + digitValue b) 0

/-- The integer that a number is; none if it has a point or an exponent, is minus zero, or needs
more than 64 bits. -/
def int64? (n : Numeral) : Option Int :=
  if n.fraction.isSome || n.exponent.isSome then none
  else
    let m := digitsValue n.whole
    if n.negative then (if 0 < m ∧ m ≤ Text.signedLimit then some (-(m : Int)) else none)
    else if m < Text.signedLimit then some m else none

/-- Gathers digits as long as they fit in 64 bits; gives the number and the digits left over. -/
def gather : Nat → List UInt8 → Nat × List UInt8
  | n, [] => (n, [])
  | n, b :: rest =>
    if 10 * n + digitValue b < Text.wordLimit then gather (10 * n + digitValue b) rest else (n, b :: rest)

/-- The digits gathered, and the power of ten that goes with them. -/
def parts (n : Numeral) : Nat × Int :=
  let (m, overlong) := gather 0 n.whole
  let fraction := n.fraction.getD []
  let (m, ignored) := gather m fraction
  let exponent : Int := match n.exponent with
    | none => 0
    | some (negative, digits) =>
      if negative then -(digitsValue digits : Int) else digitsValue digits
  (m, overlong.length - (fraction.length - ignored.length : Nat) + exponent)

/-- The largest power of ten that is multiplied or divided by at once. -/
def maxPower : Nat := 308

/-- A power of ten as a binary value. -/
def powerOfTen (k : Nat) : Value double := .ofNat (Nat.pow 10 k)

/-- Divides by `10 ^ k`, by the largest power at a time, in at most `rounds` rounds before the last
division; zero stays zero. -/
def divideDown : (rounds : Nat) → Value double → (k : Nat) → Value double
  | 0, x, k => x.div (powerOfTen k)
  | rounds + 1, x, k =>
    if x.isZero then x
    else if k ≤ maxPower then x.div (powerOfTen k)
    else divideDown rounds (x.div (powerOfTen maxPower)) (k - maxPower)

/-- A number times a power of ten; none if it is beyond the range of binary values. -/
def scaled? (m : Nat) (exponent : Int) : Option (Value double) :=
  let x : Value double := .ofNat m
  if exponent < 0 then
    let k := (-exponent).toNat
    some (divideDown (k / maxPower) x k)
  else if exponent ≤ maxPower then
    match x.mul (powerOfTen exponent.toNat) with
    | .finite n => some (.finite n)
    | _ => none
  else if m = 0 then some (.finite 0)
  else none

/-- The binary value of a number; none if it is beyond the range. -/
def value? (n : Numeral) : Option (Value double) :=
  let (m, exponent) := n.parts
  (scaled? m exponent).map fun x => if n.negative then x.neg else x

end Numeral

end Lighting.Json
