/-!
# Hexadecimal digits

Upper-case digits carry packets, lower-case digits appear in messages, and both are read.
-/

namespace Lighting.Text

/-- The value of a hexadecimal digit of either case. -/
def hexValue? (c : Char) : Option Nat :=
  if '0' ≤ c && c ≤ '9' then some (c.toNat - '0'.toNat)
  else if 'a' ≤ c && c ≤ 'f' then some (c.toNat - 'a'.toNat + 10)
  else if 'A' ≤ c && c ≤ 'F' then some (c.toNat - 'A'.toNat + 10)
  else none

/-- The upper-case digit of a value below sixteen. -/
def upperHex (n : Nat) : Char := n.digitChar.toUpper

/-- The two upper-case digits of an octet. -/
def octetUpper (b : UInt8) : List Char := [upperHex (b.toNat / 16), upperHex (b.toNat % 16)]

/-- The two lower-case digits of an octet. -/
def octetLower (b : UInt8) : List Char := [(b.toNat / 16).digitChar, (b.toNat % 16).digitChar]

/-- The upper-case digits of a row of octets. -/
def hexUpper (bytes : List UInt8) : List Char := bytes.flatMap octetUpper

/-- The lower-case digits of a row of octets. -/
def hexLower (bytes : List UInt8) : List Char := bytes.flatMap octetLower

/-- The lower-case digits of a number, without leading zeros. -/
def lowerNumeral (n : Nat) : String := String.ofList (Nat.toDigits 16 n)

/-- A digit that is written reads back. -/
theorem hexValue?_upperHex {n : Nat} (h : n < 16) : hexValue? (upperHex n) = some n := by
  have : ∀ n < 16, hexValue? (upperHex n) = some n := by decide
  exact this n h

end Lighting.Text
