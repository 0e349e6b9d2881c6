import Lighting.Text.Numeral

/-!
# Levels

A level is a brightness from 0 to 255.  `Level.interpolate` gives the levels on the way from one
level to another: the difference is divided toward the start, so that the target is reached only
with the last step.
-/

namespace Lighting

/-- A brightness from 0 to 255. -/
structure Level where
  /-- The octet that stands for the level on the bus. -/
  octet : UInt8
deriving DecidableEq

namespace Level

/-- The number of the level. -/
def toNat (l : Level) : Nat := l.octet.toNat

/-- Dark. -/
def off : Level := ⟨0⟩

/-- Full brightness. -/
def full : Level := ⟨255⟩

/-- Whether the level is dark. -/
def isOff (l : Level) : Bool := l.octet == 0

/-- The level nearest to an integer. -/
def clamped (i : Int) : Level := ⟨UInt8.ofNat (min i.toNat 255)⟩

/-- The level after `step` of `steps` equal steps from one level to another, rounded toward the
start; past the last step, and if there are no steps at all, the target. -/
def interpolate (start target : Level) (step steps : Nat) : Level :=
  if steps = 0 ∨ steps ≤ step then target
  else
    let delta : Int := target.toNat - start.toNat
    clamped (start.toNat + (delta * step).tdiv steps)

instance : ToString Level := ⟨fun l => Text.decimal l.toNat⟩

theorem toNat_lt (l : Level) : l.toNat < 256 := l.octet.toNat_lt

@[ext] theorem ext {a b : Level} (h : a.toNat = b.toNat) : a = b := by
  cases a; cases b; congr; exact UInt8.toNat_inj.mp h

/-- The last step reaches the target. -/
theorem interpolate_of_le {steps step : Nat} (h : steps ≤ step) (start target : Level) :
    start.interpolate target step steps = target := by
  simp [interpolate, h]

theorem isOff_iff {l : Level} : l.isOff = true ↔ l = off := by
  cases l; simp [isOff, off]

end Level

end Lighting
