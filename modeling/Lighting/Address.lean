import Lighting.Text.Blank
import Lighting.Text.Numeral
import Lighting.Text.Quoted

/-!
# Group addresses

A lighting network has 256 group addresses.  `Address.ofText?` reads one from a numeral, telling a
text that is no number from a number that is no address; `Address.ofList` reads a list of them
separated by commas.
-/

namespace Lighting

/-- A group address. -/
structure Address where
  /-- The octet that stands for the address on the bus. -/
  octet : UInt8
deriving DecidableEq

namespace Address

/-- The number of the address. -/
def toNat (a : Address) : Nat := a.octet.toNat

/-- The address with the number given, counted round past 255. -/
def ofNat (n : Nat) : Address := ⟨UInt8.ofNat n⟩

/-- All addresses in ascending order. -/
def all : List Address := (List.range 256).map ofNat

instance : ToString Address := ⟨fun a => Text.decimal a.toNat⟩

theorem toNat_lt (a : Address) : a.toNat < 256 := a.octet.toNat_lt

@[ext] theorem ext {a b : Address} (h : a.toNat = b.toNat) : a = b := by
  cases a; cases b; congr; exact UInt8.toNat_inj.mp h

@[simp] theorem ofNat_toNat (a : Address) : ofNat a.toNat = a := by
  apply ext
  simp [ofNat, toNat]

theorem toNat_ofNat {n : Nat} (h : n < 256) : (ofNat n).toNat = n := by
  simp [ofNat, toNat]; omega

/-- Why a text is no address. -/
inductive ReadError where
  /-- The text, without the blanks around it, is no integer of 64 bits. -/
  | notANumber (text : List Char)
  /-- The number is no address. -/
  | outOfRange (number : Int)
deriving DecidableEq

/-- The message of a reading error. -/
def ReadError.message : ReadError → String
  | .notANumber text => "not a number: " ++ Text.quoted text
  | .outOfRange number => "value " ++ Text.integer number ++ " is out of range [0, 255]"

/-- Reads an address from a numeral that may carry a sign and blanks around it. -/
def ofText? (cs : List Char) : Except ReadError Address :=
  match Text.int64? (Text.trim cs) with
  | none => .error (.notANumber (Text.trim cs))
  | some i => if 0 ≤ i ∧ i ≤ 255 then .ok (ofNat i.toNat) else .error (.outOfRange i)

/-- The entries of a list separated by commas, without the blanks around them and without those
that are blank altogether. -/
def entries (cs : List Char) : List (List Char) :=
  ((cs.splitOn ',').map Text.trim).filter (!·.isEmpty)

/-- Reads a list of addresses: those that could be read and what was wrong with the others, each in
the order of the list. -/
def ofList (cs : List Char) : List Address × List ReadError :=
  let read := (entries cs).map ofText?
  (read.filterMap Except.toOption, read.filterMap fun
    | .ok _ => none
    | .error e => some e)

end Address

end Lighting
