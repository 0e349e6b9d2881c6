import Lighting.Address.Table
import Lighting.Device.Kind

/-!
# Device maps

A `DeviceMap` says what stands behind each address.  Every address is a dimmable light until
something else is set; only what is set otherwise is stored.  Settings name the others in four lists
of addresses; a list that comes later wins, so an address that is to be left alone is left alone
whatever else is said of it.
-/

namespace Lighting

/-- What stands behind each address. -/
structure DeviceMap where
  /-- The kinds that are stored. -/
  stored : Address.Table (Option DeviceKind)
  /-- Dimmable lights are not stored. -/
  sparse : ∀ a, stored.get a ≠ some .light
deriving DecidableEq

/-- The four lists of addresses that settings give. -/
structure DeviceLists where
  /-- Lights that only switch. -/
  nonDimmableLights : String
  /-- Relays. -/
  switches : String
  /-- Sensors. -/
  binarySensors : String
  /-- Devices to leave alone. -/
  ignored : String

/-- The lists with the kinds they stand for, the one that wins last. -/
def DeviceLists.byKind (lists : DeviceLists) : List (String × DeviceKind) :=
  [(lists.nonDimmableLights, .lightNonDimmable), (lists.switches, .switch),
   (lists.binarySensors, .binarySensor), (lists.ignored, .ignore)]

namespace DeviceMap

/-- The map in which every address is a dimmable light. -/
def allLights : DeviceMap := ⟨.fill none, fun a => by simp⟩

/-- What stands behind an address. -/
def get (m : DeviceMap) (a : Address) : DeviceKind := (m.stored.get a).getD .light

/-- What is stored for a kind: nothing for a dimmable light. -/
def entry (kind : DeviceKind) : Option DeviceKind :=
  if kind = .light then none else some kind

theorem entry_ne (kind : DeviceKind) : entry kind ≠ some .light := by
  cases kind <;> decide

/-- Sets what stands behind an address. -/
def set (m : DeviceMap) (a : Address) (kind : DeviceKind) : DeviceMap where
  stored := m.stored.set a (entry kind)
  sparse b := by
    rw [Address.Table.get_set]
    split
    · exact entry_ne kind
    · exact m.sparse b

/-- Sets what stands behind every address in a list. -/
def setAll (m : DeviceMap) (as : List Address) (kind : DeviceKind) : DeviceMap :=
  as.foldl (fun m a => m.set a kind) m

/-- The map that lists describe. -/
def ofLists (lists : DeviceLists) : DeviceMap :=
  lists.byKind.foldl (fun m (text, kind) => m.setAll (Address.ofList text.toList).1 kind) allLights

/-- What could not be read in lists, in the order of the lists and their entries. -/
def listErrors (lists : DeviceLists) : List Address.ReadError :=
  lists.byKind.flatMap fun (text, _) => (Address.ofList text.toList).2

/-- Whether an address is to be left alone. -/
def isExcluded (m : DeviceMap) (a : Address) : Bool := m.get a == .ignore

/-- The addresses to leave alone. -/
def excluded (m : DeviceMap) : List Address :=
  Address.all.filter fun a => m.stored.get a == some .ignore

/-- The addresses whose kinds pass a test, in ascending order. -/
def addresses (m : DeviceMap) (p : DeviceKind → Bool) : List Address :=
  Address.all.filter fun a => p (m.get a)

/-- The addresses that are shown to the home, with their kinds, in ascending order. -/
def exposed (m : DeviceMap) : List (Address × DeviceKind) :=
  (m.addresses (· != .ignore)).map fun a => (a, m.get a)

end DeviceMap

end Lighting
