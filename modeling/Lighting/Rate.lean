import Lighting.Clock

/-!
# Native ramp rates

The bus units run a ramp by themselves at one of sixteen rates.  A rate is named by its command code
and lasts a fixed number of seconds; the fastest is instantaneous.  `Rate.covering?` picks the
shortest rate that lasts at least as long as wanted.
-/

namespace Lighting

/-- A rate at which bus units ramp by themselves. -/
structure Rate where
  /-- The command code of the rate. -/
  code : UInt8
  /-- How many seconds a ramp at this rate takes. -/
  seconds : Nat
deriving DecidableEq

namespace Rate

/-- The rate at which a level is set at once. -/
def instant : Rate := ⟨0x02, 0⟩

/-- The longest ramp. -/
def slowest : Rate := ⟨0x7A, 1020⟩

/-- All rates, from the shortest to the longest. -/
def all : List Rate :=
  [instant, ⟨0x0A, 4⟩, ⟨0x12, 8⟩, ⟨0x1A, 12⟩, ⟨0x22, 20⟩, ⟨0x2A, 30⟩, ⟨0x32, 40⟩, ⟨0x3A, 60⟩,
   ⟨0x42, 90⟩, ⟨0x4A, 120⟩, ⟨0x52, 180⟩, ⟨0x5A, 300⟩, ⟨0x62, 420⟩, ⟨0x6A, 600⟩, ⟨0x72, 900⟩,
   slowest]

/-- How long a ramp at this rate takes. -/
def duration (r : Rate) : Duration := .ofSeconds r.seconds

/-- Whether the level is set at once. -/
def isInstant (r : Rate) : Bool := r.seconds == 0

/-- The shortest rate that lasts at least `d`; none if even the slowest is too short. -/
def covering? (d : Duration) : Option Rate := all.find? fun r => d ≤ r.duration

/-- The rate with a command code. -/
def ofCode? (code : UInt8) : Option Rate := all.find? fun r => r.code == code

end Rate

end Lighting
