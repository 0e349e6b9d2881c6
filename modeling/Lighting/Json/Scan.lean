import Lighting.Text.Hex

/-!
# Scanning JSON

These functions cut one piece of JSON off a row of octets and give what follows it.  They check the
grammar and nothing more: a string keeps its escapes, a number its digits, and an array or an object
is passed over however deep it is nested.  What a piece means is decided where it is used.
-/

namespace Lighting.Json

/-- Whether an octet is blank between the pieces of a text. -/
def isSpace (b : UInt8) : Bool := b == 0x20 || b == 0x09 || b == 0x0A || b == 0x0D

/-- What follows the blanks at the front. -/
def skipSpace (bs : List UInt8) : List UInt8 := bs.dropWhile isSpace

/-- Whether an octet is a decimal digit. -/
def isDigit (b : UInt8) : Bool := 0x30 ≤ b && b ≤ 0x39

/-- Whether an octet is a hexadecimal digit. -/
def isHexDigit (b : UInt8) : Bool := (Text.hexValue? (Char.ofNat b.toNat)).isSome

/-- Whether an octet may follow a backslash by itself. -/
def isEscape (b : UInt8) : Bool :=
  b == 0x22 || b == 0x5C || b == 0x2F || b == 0x62 || b == 0x66 || b == 0x6E || b == 0x72 ||
    b == 0x74

/-- The rest of a string after its opening quote: what stands between the quotes, escapes and all,
and what follows the closing quote. -/
def scanString : List UInt8 → Option (List UInt8 × List UInt8)
  | [] => none
  | b :: rest =>
    if b = 0x22 then some ([], rest)
    else if b < 0x20 then none
    else if b = 0x5C then
      match rest with
      | [] => none
      | e :: rest =>
        if e = 0x75 then
          match rest with
          | h₁ :: h₂ :: h₃ :: h₄ :: rest =>
            if [h₁, h₂, h₃, h₄].all isHexDigit then
              (scanString rest).map fun (body, rest) => (b :: e :: h₁ :: h₂ :: h₃ :: h₄ :: body, rest)
            else none
          | _ => none
        else if isEscape e then (scanString rest).map fun (body, rest) => (b :: e :: body, rest)
        else none
    else (scanString rest).map fun (body, rest) => (b :: body, rest)

/-- A number as it is written. -/
structure Numeral where
  /-- Whether there is a minus sign. -/
  negative : Bool
  /-- The digits before the point. -/
  whole : List UInt8
  /-- The digits after the point, if there is one. -/
  fraction : Option (List UInt8)
  /-- Whether the exponent is negative, and its digits, if there is one. -/
  exponent : Option (Bool × List UInt8)
deriving DecidableEq

/-- Digits, at least one, and what follows them. -/
def scanDigits (bs : List UInt8) : Option (List UInt8 × List UInt8) :=
  if bs.head?.any isDigit then some (bs.takeWhile isDigit, bs.dropWhile isDigit) else none

/-- The digits before the point: a zero stands alone. -/
def scanWhole (bs : List UInt8) : Option (List UInt8 × List UInt8) :=
  (scanDigits bs).filter fun (digits, _) => digits.head? != some 0x30 || digits.length == 1

/-- The point and the digits after it, if there is a point. -/
def scanFraction (bs : List UInt8) : Option (Option (List UInt8) × List UInt8) :=
  match bs with
  | b :: rest =>
    if b = 0x2E then (scanDigits rest).map fun (digits, rest) => (some digits, rest)
    else some (none, bs)
  | [] => some (none, bs)

/-- The sign of an exponent: whether it is negative, and what follows. -/
def scanSign (bs : List UInt8) : Bool × List UInt8 :=
  match bs with
  | b :: rest => if b = 0x2D then (true, rest) else if b = 0x2B then (false, rest) else (false, bs)
  | [] => (false, bs)

/-- The exponent, if there is one. -/
def scanExponent (bs : List UInt8) : Option (Option (Bool × List UInt8) × List UInt8) :=
  match bs with
  | b :: rest =>
    if b = 0x65 ∨ b = 0x45 then
      let (negative, rest) := scanSign rest
      (scanDigits rest).map fun (digits, rest) => (some (negative, digits), rest)
    else some (none, bs)
  | [] => some (none, bs)

/-- A number. -/
def scanNumber (bs : List UInt8) : Option (Numeral × List UInt8) :=
  let (negative, rest) := match bs with
    | b :: rest => if b = 0x2D then (true, rest) else (false, bs)
    | [] => (false, bs)
  (scanWhole rest).bind fun (whole, rest) =>
    (scanFraction rest).bind fun (fraction, rest) =>
      (scanExponent rest).map fun (exponent, rest) => (⟨negative, whole, fraction, exponent⟩, rest)

/-- A value of which only what is simple is kept. -/
inductive Scalar where
  /-- The word for no value. -/
  | null
  /-- A truth value. -/
  | bool (b : Bool)
  /-- A number as it is written. -/
  | number (n : Numeral)
  /-- What stands between the quotes of a string, escapes and all. -/
  | string (body : List UInt8)
  /-- An array or an object. -/
  | nested
deriving DecidableEq

/-- What follows a word. -/
def scanWord (word : List UInt8) (bs : List UInt8) : Option (List UInt8) :=
  if word.isPrefixOf bs then some (bs.drop word.length) else none

/-- A value that is neither an array nor an object, with no blanks before it. -/
def scanSimple (bs : List UInt8) : Option (Scalar × List UInt8) :=
  match bs with
  | [] => none
  | b :: rest =>
    if b = 0x22 then (scanString rest).map fun (body, rest) => (.string body, rest)
    else if b = 0x6E then
      (scanWord [0x75, 0x6C, 0x6C] rest).map fun rest => (.null, rest)
    else if b = 0x74 then
      (scanWord [0x72, 0x75, 0x65] rest).map fun rest => (.bool true, rest)
    else if b = 0x66 then
      (scanWord [0x61, 0x6C, 0x73, 0x65] rest).map fun rest => (.bool false, rest)
    else (scanNumber bs).map fun (n, rest) => (.number n, rest)

/-- A bracket that is open. -/
inductive Bracket where
  /-- Of an array. -/
  | array
  /-- Of an object. -/
  | object
deriving DecidableEq

/-- What may stand next inside brackets. -/
inductive Expected where
  /-- The first member, or the closing bracket. -/
  | firstOrClose
  /-- A member. -/
  | member
  /-- A comma, or the closing bracket. -/
  | commaOrClose
deriving DecidableEq

/-- The key of an object member and the colon after it. -/
def scanKey (bs : List UInt8) : Option (List UInt8 × List UInt8) :=
  match skipSpace bs with
  | b :: rest =>
    if b = 0x22 then
      (scanString rest).bind fun (key, rest) =>
        match skipSpace rest with
        | c :: rest => if c = 0x3A then some (key, rest) else none
        | [] => none
    else none
  | [] => none

/-- The octet that closes a bracket. -/
def Bracket.close : Bracket → UInt8
  | array => 0x5D
  | object => 0x7D

/-- The bracket that an octet opens. -/
def Bracket.ofOpen? (b : UInt8) : Option Bracket :=
  if b = 0x5B then some array else if b = 0x7B then some object else none

/-- Where a member's value starts: after its key, in an object. -/
def Bracket.scanMember (bracket : Bracket) (bs : List UInt8) : Option (List UInt8) :=
  match bracket with
  | array => some bs
  | object => (scanKey bs).map (·.2)

/-- Passes over what is left of nested brackets, the innermost first, in at most `fuel` steps, and
gives what follows the outermost one. -/
def skipBrackets : (fuel : Nat) → List Bracket → Expected → List UInt8 → Option (List UInt8)
  | 0, _, _, _ => none
  | _ + 1, [], _, bs => some bs
  | fuel + 1, bracket :: outer, expected, bs =>
    match skipSpace bs with
    | [] => none
    | b :: rest =>
      if b = bracket.close && expected != .member then
        skipBrackets fuel outer .commaOrClose rest
      else if expected = .commaOrClose then
        if b = 0x2C then skipBrackets fuel (bracket :: outer) .member rest else none
      else
        (bracket.scanMember (b :: rest)).bind fun bs =>
          match skipSpace bs with
          | [] => none
          | v :: rest =>
            match Bracket.ofOpen? v with
            | some inner => skipBrackets fuel (inner :: bracket :: outer) .firstOrClose rest
            | none =>
              (scanSimple (v :: rest)).bind fun (_, rest) =>
                skipBrackets fuel (bracket :: outer) .commaOrClose rest

/-- A value.  Each step through brackets takes an octet, so there are no more steps than octets. -/
def scanValue (bs : List UInt8) : Option (Scalar × List UInt8) :=
  match skipSpace bs with
  | [] => none
  | b :: rest =>
    match Bracket.ofOpen? b with
    | some bracket =>
      (skipBrackets (rest.length + 1) [bracket] .firstOrClose rest).map fun rest => (.nested, rest)
    | none => scanSimple (b :: rest)

end Lighting.Json
