import Lighting.Clock

/-!
# Rounded binary arithmetic

Growing delays are computed in binary floating point, and their last digit matters: a delay is
truncated to milliseconds or rounded to nanoseconds afterwards.  A `Format` has a precision and a
smallest unit `2 ^ -scale`; every finite `Value` of it is a whole number of units, so each operation
is one exact operation on integers followed by one rounding, to the nearest value and on a tie to
the even one.  Zero has no sign here, since no rule of the library looks at it.
-/

namespace Lighting.Binary

/-- A binary format: the significant bits of a value, its smallest unit and its range. -/
structure Format where
  /-- The number of significant bits. -/
  precision : Nat
  /-- The smallest unit is `2 ^ -scale`. -/
  scale : Nat
  /-- Finite values lie below `2 ^ top`. -/
  top : Nat
deriving DecidableEq

/-- The format of 32 bits. -/
def single : Format := ⟨24, 149, 128⟩

/-- The format of 64 bits. -/
def double : Format := ⟨53, 1074, 1024⟩

/-- How many units make one. -/
def Format.units (f : Format) : Nat := Nat.pow 2 f.scale

/-- The first number of units that is too large for a finite value. -/
def Format.limit (f : Format) : Nat := Nat.pow 2 (f.top + f.scale)

/-- The quotient rounded to the nearest whole number, a half going to the even neighbour. -/
def roundHalfEven (num den : Nat) : Nat :=
  let q := num / den
  let r := num % den
  if 2 * r < den then q else if den < 2 * r then q + 1 else q + q % 2

/-- The number of binary digits of a number. -/
def bitLength (n : Nat) : Nat := if n = 0 then 0 else n.log2 + 1

/-- The number of units nearest to `num / den` units that has at most `precision` significant
bits. -/
def Format.round (f : Format) (num den : Nat) : Nat :=
  let drop := bitLength (num / den) - f.precision
  roundHalfEven num (den * Nat.pow 2 drop) * Nat.pow 2 drop

/-- A value of a format. -/
inductive Value (f : Format) where
  /-- The number of units given. -/
  | finite (units : Int)
  /-- Beyond the range of the format. -/
  | infinite (negative : Bool)
  /-- The outcome of an operation that has none, as zero times infinity. -/
  | undefined
deriving DecidableEq

namespace Value

variable {f : Format}

/-- The value nearest to `num / den` units, with the sign given. -/
def ofUnits (negative : Bool) (num den : Nat) : Value f :=
  let n := f.round num den
  if n < f.limit then .finite (if negative then -(n : Int) else n)
  else .infinite negative

/-- The value nearest to a ratio. -/
def ofRatio (negative : Bool) (num den : Nat) : Value f :=
  ofUnits negative (num * f.units) den

/-- The value nearest to a whole number. -/
def ofNat (n : Nat) : Value f := ofRatio false n 1

/-- One. -/
def one : Value f := .finite f.units

/-- Whether a value lies below zero. -/
def isNegative : Value f → Bool
  | .finite n => n < 0
  | .infinite negative => negative
  | .undefined => false

/-- Whether a value is zero. -/
def isZero : Value f → Bool
  | .finite n => n == 0
  | _ => false

/-- The value with the other sign. -/
def neg : Value f → Value f
  | .finite n => .finite (-n)
  | .infinite negative => .infinite !negative
  | .undefined => .undefined

/-- The sum of two values. -/
def add : Value f → Value f → Value f
  | .finite a, .finite b => ofUnits (a + b < 0) (a + b).natAbs 1
  | .infinite p, .infinite q => if p = q then .infinite p else .undefined
  | .infinite p, .finite _ => .infinite p
  | .finite _, .infinite q => .infinite q
  | _, _ => .undefined

/-- The product of two values. -/
def mul : Value f → Value f → Value f
  | .finite a, .finite b => ofUnits ((a < 0) != (b < 0)) (a.natAbs * b.natAbs) f.units
  | .undefined, _ => .undefined
  | _, .undefined => .undefined
  | a, b => if a.isZero || b.isZero then .undefined else .infinite (a.isNegative != b.isNegative)

/-- The quotient of two values. -/
def div : Value f → Value f → Value f
  | .undefined, _ => .undefined
  | _, .undefined => .undefined
  | .finite a, .finite b =>
    if b = 0 then (if a = 0 then .undefined else .infinite (a < 0))
    else ofUnits ((a < 0) != (b < 0)) (a.natAbs * f.units) b.natAbs
  | .infinite _, .infinite _ => .undefined
  | .infinite negative, b => .infinite (negative != b.isNegative)
  | .finite _, .infinite _ => .finite 0

/-- Whether the first value lies below the second; nothing is above or below an undefined value. -/
def lt : Value f → Value f → Bool
  | .finite a, .finite b => a < b
  | .infinite p, .infinite q => p && !q
  | .infinite p, .finite _ => p
  | .finite _, .infinite q => !q
  | _, _ => false

/-- The value itself if it is at least one, otherwise one. -/
def atLeastOne (a : Value f) : Value f :=
  if a = .undefined || a.lt one then one else a

/-- Repeated squaring, with as many rounds as `fuel` allows: the product of `r` and the power
`n` of `a`. -/
def powLoop : (fuel : Nat) → (r a : Value f) → (n : Nat) → Value f
  | 0, r, _, _ => r
  | fuel + 1, r, a, n =>
    let r := if n % 2 = 1 then r.mul a else r
    if n / 2 = 0 then r else powLoop fuel r (a.mul a) (n / 2)

/-- The power of a value by repeated squaring, each product rounded. -/
def pow (a : Value f) (n : Nat) : Value f := powLoop (bitLength n + 1) one a n

/-- The same number in another format. -/
def convert {g : Format} : Value f → Value g
  | .finite n => ofRatio (n < 0) n.natAbs f.units
  | .infinite negative => .infinite negative
  | .undefined => .undefined

/-- The whole part of a value, kept between zero and `bound - 1`; an undefined value gives zero. -/
def truncate (bound : Nat) : Value f → Nat
  | .finite n => Nat.min (n.toNat / f.units) (bound - 1)
  | .infinite negative => if negative then 0 else bound - 1
  | .undefined => 0

/-- The span of a number of seconds, to the nearest nanosecond and on a tie to the even one; none
for a number that is negative, undefined or too large. -/
def seconds? : Value f → Option Duration
  | .finite n =>
    if n < 0 then none
    else
      let nanos := roundHalfEven (n.toNat * nanosPerSecond) f.units
      if h : nanos < Duration.limit then some ⟨nanos, h⟩ else none
  | _ => none

/-- The seconds of a span: the whole ones plus the rounded rest. -/
def ofDuration (d : Duration) : Value f :=
  add (ofNat d.seconds) (div (ofNat d.subsecondNanos) (ofNat nanosPerSecond))

end Value

end Lighting.Binary
