import Lighting.Policy.Retry

/-!
# Reconnect policies

How long to wait before the link is tried again, and when to give up.  The delay grows by a factor
with every failure, in double precision, up to a ceiling.
-/

namespace Lighting

/-- How long to wait before the link is tried again, and when to give up. -/
structure ReconnectPolicy where
  /-- After how many failures to give up; never if there is no limit. -/
  limit : Option Nat
  /-- The first delay. -/
  first : Duration
  /-- The longest delay. -/
  ceiling : Duration
  /-- The factor from one delay to the next. -/
  growth : Binary.Value Binary.double

namespace ReconnectPolicy

/-- From one second to a minute, doubling, for ever. -/
def standard : ReconnectPolicy :=
  { limit := none
    first := .ofSeconds 1
    ceiling := .ofSeconds 60
    growth := .ofNat 2 }

/-- Never try again. -/
def never : ReconnectPolicy := { standard with limit := some 0 }

/-- The same policy with another factor; below one, and undefined, it counts as one. -/
def withGrowth (p : ReconnectPolicy) (growth : Binary.Value Binary.double) : ReconnectPolicy :=
  { p with growth := growth.atLeastOne }

/-- The delay before attempt `n`, counted from zero.  A delay that is no span of time is replaced by
the ceiling. -/
def delayFor (p : ReconnectPolicy) (n : Nat) : Duration :=
  let seconds := (Binary.Value.ofDuration p.first).mul
    (p.growth.pow (min n RetryPolicy.maxExponent))
  (seconds.seconds?.getD p.ceiling).min p.ceiling

/-- The delay after a number of failures. -/
def delayAfter (p : ReconnectPolicy) (failures : Nat) : Duration := p.delayFor (failures - 1)

/-- Whether another attempt follows a number of failures. -/
def retries (p : ReconnectPolicy) (failures : Nat) : Bool := p.limit.all (failures < ·)

end ReconnectPolicy

end Lighting
