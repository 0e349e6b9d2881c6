import Lighting.Policy.Retry
import Lighting.Ramp

/-!
# Dispatch settings

How commands are paced, repeated and ramped, and how many events are kept for a slow subscriber.
-/

namespace Lighting

/-- How commands are paced, repeated and ramped. -/
structure Settings where
  /-- How often a line is sent and how long each attempt waits. -/
  retry : RetryPolicy
  /-- The least time between two lines. -/
  sendInterval : Duration
  /-- The number of steps of a ramp that the bus units cannot run. -/
  rampSteps : Nat
  /-- Whether ramps are left to the bus units where they can run them. -/
  nativeRamps : Bool
  /-- How many events are kept for a slow subscriber. -/
  eventCapacity : Nat

/-- The settings where nothing else is said. -/
def Settings.standard : Settings :=
  { retry := .standard
    sendInterval := .ofMillis 100
    rampSteps := Ramp.defaultStepCount
    nativeRamps := true
    eventCapacity := 1024 }

end Lighting
