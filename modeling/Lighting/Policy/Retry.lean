import Lighting.Binary
import Lighting.Text.Numeral

/-!
# Retry policies

How often a line is sent and how long each attempt waits for its confirmation.  The wait grows by a
factor from attempt to attempt, in single precision and whole milliseconds, up to a ceiling.
-/

namespace Lighting

/-- How often a line is sent, and how long each attempt waits. -/
structure RetryPolicy where
  /-- How many attempts a command has. -/
  maxRetries : Nat
  /-- How long the first attempt waits. -/
  timeout : Duration
  /-- The factor from one attempt to the next; below one, and undefined, it counts as one. -/
  backoff : Binary.Value Binary.single
  /-- The ceiling; a first wait that is longer takes its place. -/
  maxTimeout : Duration

namespace RetryPolicy

/-- Four attempts of a quarter of a second. -/
def standard : RetryPolicy :=
  { maxRetries := 4
    timeout := .ofMillis 250
    backoff := .one
    maxTimeout := .ofSeconds 5 }

/-- The largest exponent that a power is taken with. -/
def maxExponent : Nat := 0x7FFFFFFF

/-- How long an attempt waits for its confirmation; attempts count from one. -/
def timeoutFor (p : RetryPolicy) (attempt : Nat) : Duration :=
  let factor := p.backoff.atLeastOne.pow (min (attempt - 1) maxExponent)
  let millis := (Binary.Value.ofNat p.timeout.millis).mul factor
  (Duration.ofMillis (millis.truncate Text.wordLimit)).min (p.maxTimeout.max p.timeout)

/-- Whether another attempt follows one that failed. -/
def retries (p : RetryPolicy) (attempt : Nat) : Bool := attempt < p.maxRetries

end RetryPolicy

end Lighting
