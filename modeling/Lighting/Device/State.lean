import Lighting.Address
import Lighting.Clock
import Lighting.Level

/-!
# Device states

What is known about the device behind an address: the level the bus last confirmed, the level it was
last asked for, whether a ramp is running, and which of the two levels counts.
-/

namespace Lighting

/-- Whether the level shown was confirmed by the bus or is only assumed. -/
inductive Certainty where
  /-- The bus confirmed it. -/
  | confirmed
  /-- It is what was asked for. -/
  | assumed
deriving DecidableEq

/-- The name of a certainty. -/
def Certainty.name : Certainty → String
  | confirmed => "confirmed"
  | assumed => "assumed"

/-- What is known about the device behind an address. -/
structure DeviceState where
  /-- The address. -/
  address : Address
  /-- The level the bus last confirmed. -/
  confirmed : Option Level
  /-- The level the device was last asked for. -/
  target : Level
  /-- Whether a ramp is running. -/
  rampActive : Bool
  /-- Whether the confirmed level counts or the target. -/
  certainty : Certainty
  /-- How long the last change takes. -/
  transition : Duration
  /-- The unit that made the last change, if it was seen on the bus. -/
  source : Option UInt8
deriving DecidableEq

namespace DeviceState

/-- What is known of an address that nothing was heard of. -/
def unknown (address : Address) : DeviceState :=
  { address
    confirmed := none
    target := .off
    rampActive := false
    certainty := .assumed
    transition := .zero
    source := none }

/-- The level that counts. -/
def best (s : DeviceState) : Level :=
  match s.certainty, s.confirmed with
  | .confirmed, some level => level
  | _, _ => s.target

/-- Whether the device is on, as far as is known. -/
def isOn (s : DeviceState) : Bool := !s.best.isOff

/-- The part of a state whose change is published. -/
def published (s : DeviceState) : Option Level × Certainty × Bool :=
  (s.confirmed, s.certainty, s.rampActive)

/-- The bus has confirmed a level. -/
def confirm (s : DeviceState) (level : Level) : DeviceState :=
  { s with confirmed := some level, certainty := .confirmed }

/-- A level is assumed. -/
def assume (s : DeviceState) (level : Level) : DeviceState :=
  { s with target := level, certainty := .assumed }

/-- The device is asked for a level. -/
def aim (s : DeviceState) (level : Level) (transition : Duration) (source : Option UInt8) :
    DeviceState :=
  { s with target := level, transition, source }

/-- A ramp starts or ends. -/
def setRamp (s : DeviceState) (active : Bool) : DeviceState := { s with rampActive := active }

end DeviceState

end Lighting
