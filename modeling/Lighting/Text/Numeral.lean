/-!
# Decimal numerals

A numeral is one or more of the digits `0` to `9`.  `digits?` reads one, `signed?` and `unsigned?`
allow a sign before it, and `decimal` writes a number in its shortest form.  Reading takes more than
writing gives, as zeros may lead, but what is written reads back: `digits?_toDigits`.
-/

namespace Lighting.Text

/-- The value of a decimal digit. -/
def digitValue (c : Char) : Nat := c.toNat - '0'.toNat

/-- The value of a row of decimal digits. -/
def digitsValue (cs : List Char) : Nat := cs.foldl (fun n c => 10 * n + digitValue c) 0

/-- Reads a numeral without a sign. -/
def digits? (cs : List Char) : Option Nat :=
  if cs.isEmpty || !cs.all Char.isDigit then none else some (digitsValue cs)

/-- Reads a numeral that may carry a plus sign. -/
def unsigned? : List Char → Option Nat
  | '+' :: cs => digits? cs
  | cs => digits? cs

/-- Reads a numeral that may carry either sign. -/
def signed? : List Char → Option Int
  | '+' :: cs => (digits? cs).map Int.ofNat
  | '-' :: cs => (digits? cs).map fun n => -(n : Int)
  | cs => (digits? cs).map Int.ofNat

/-- The first number that no longer fits in 64 bits. -/
def wordLimit : Nat := 0x10000000000000000

/-- The first number that no longer fits in 64 bits beside a sign. -/
def signedLimit : Nat := 0x8000000000000000

/-- Reads a signed numeral of 64 bits. -/
def int64? (cs : List Char) : Option Int :=
  (signed? cs).filter fun i => -(signedLimit : Int) ≤ i && i < signedLimit

/-- Reads an unsigned numeral below `bound`. -/
def below? (bound : Nat) (cs : List Char) : Option Nat :=
  (unsigned? cs).filter (· < bound)

/-- Writes a number without leading zeros. -/
def decimal (n : Nat) : String := String.ofList (Nat.toDigits 10 n)

/-- Writes an integer, with a minus sign if it is negative. -/
def integer (i : Int) : String :=
  if i < 0 then "-" ++ decimal i.natAbs else decimal i.natAbs

/-- Writes `n` with leading zeros up to `width` digits. -/
def padded (width n : Nat) : String :=
  let digits := Nat.toDigits 10 n
  String.ofList (List.replicate (width - digits.length) '0' ++ digits)

theorem digitsValue_concat (cs : List Char) (c : Char) :
    digitsValue (cs ++ [c]) = 10 * digitsValue cs + digitValue c := by
  simp [digitsValue]

theorem digitValue_digitChar {n : Nat} (h : n < 10) : digitValue n.digitChar = n :=
  Nat.toNat_digitChar_sub_48_of_lt_ten h

theorem digitsValue_toDigits (n : Nat) : digitsValue (Nat.toDigits 10 n) = n := by
  induction n using Nat.strongRecOn with
  | ind n ih =>
    by_cases h : n < 10
    · rw [Nat.toDigits_of_lt_base h]
      show 10 * 0 + digitValue n.digitChar = n
      rw [digitValue_digitChar h]
      omega
    · rw [Nat.toDigits_of_base_le (by decide) (by omega), digitsValue_concat,
        ih (n / 10) (by omega), digitValue_digitChar (by omega)]
      omega

/-- What is written without a sign reads back. -/
theorem digits?_toDigits (n : Nat) : digits? (Nat.toDigits 10 n) = some n := by
  have hne : (Nat.toDigits 10 n).isEmpty = false := by simp
  have hall : (Nat.toDigits 10 n).all Char.isDigit = true :=
    List.all_eq_true.mpr fun _ hc => Nat.isDigit_of_mem_toDigits (by decide) (by decide) hc
  simp [digits?, hne, hall, digitsValue_toDigits]

end Lighting.Text
