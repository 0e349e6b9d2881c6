import Lighting.Address.Table
import Lighting.Event

/-!
# The registry of device states

A `Registry` keeps the state of every address that was commanded or reported.  Each update changes
one address, and tells of it by one event exactly if the published part of the state changed.

A registry is seen through `query`: `query_modify_self` and `query_modify_of_ne` say what an update
does to it, and `modify_snd_eq_none_iff` when it is told of.
-/

namespace Lighting

/-- The states of the addresses that were commanded or reported. -/
structure Registry where
  /-- The state of each address, once something was heard of it. -/
  states : Address.Table (Option DeviceState)
deriving DecidableEq

namespace Registry

/-- Nothing was heard of any address. -/
def empty : Registry := ⟨.fill none⟩

/-- What is known of an address. -/
def query (r : Registry) (a : Address) : DeviceState := (r.states.get a).getD (.unknown a)

/-- Whether something was heard of an address. -/
def contains (r : Registry) (a : Address) : Bool := (r.states.get a).isSome

/-- The states of the addresses something was heard of, in address order. -/
def snapshot (r : Registry) : List DeviceState := r.states.values

/-- Changes what is known of an address, and gives the event that tells of it. -/
def modify (r : Registry) (a : Address) (f : DeviceState → DeviceState) :
    Registry × Option Event :=
  let before := r.query a
  let after := f before
  (⟨r.states.set a (some after)⟩,
   if after.published = before.published then none else some (.stateChanged after))

/-- The bus has confirmed a level. -/
def confirm (r : Registry) (a : Address) (level : Level) : Registry × Option Event :=
  r.modify a (·.confirm level)

/-- The bus has confirmed a level, and a ramp runs or does not. -/
def confirmRamp (r : Registry) (a : Address) (level : Level) (active : Bool) :
    Registry × Option Event :=
  r.modify a fun s => (s.confirm level).setRamp active

/-- A level is assumed. -/
def assume (r : Registry) (a : Address) (level : Level) : Registry × Option Event :=
  r.modify a (·.assume level)

/-- The bus has shown a level that nobody here asked for. -/
def report (r : Registry) (a : Address) (level : Level) (transition : Duration)
    (source : Option UInt8) : Registry × Option Event :=
  r.modify a fun s => ((s.aim level transition source).confirm level).setRamp !transition.isZero

/-- The device is asked for a level from here. -/
def aim (r : Registry) (a : Address) (level : Level) (transition : Duration) :
    Registry × Option Event :=
  r.modify a (·.aim level transition none)

/-- A ramp starts or ends. -/
def setRamp (r : Registry) (a : Address) (active : Bool) : Registry × Option Event :=
  r.modify a (·.setRamp active)

@[simp] theorem query_empty (a : Address) : empty.query a = .unknown a := by
  simp [query, empty]

/-- An update does to its own address what it was asked to do. -/
@[simp] theorem query_modify_self (r : Registry) (a : Address) (f : DeviceState → DeviceState) :
    (r.modify a f).1.query a = f (r.query a) := by
  simp [modify, query]

/-- An update leaves every other address alone. -/
theorem query_modify_of_ne (r : Registry) {a b : Address} (h : b ≠ a)
    (f : DeviceState → DeviceState) : (r.modify a f).1.query b = r.query b := by
  simp [modify, query, Address.Table.get_set_of_ne _ h]

/-- An update is told of exactly if it changed the published part of the state. -/
theorem modify_snd_eq_none_iff (r : Registry) (a : Address) (f : DeviceState → DeviceState) :
    (r.modify a f).2 = none ↔ (f (r.query a)).published = (r.query a).published := by
  simp only [modify]
  split <;> simp_all

/-- What is told of an update is the state after it. -/
theorem modify_snd_eq_some {r : Registry} {a : Address} {f : DeviceState → DeviceState} {e : Event}
    (h : (r.modify a f).2 = some e) : e = .stateChanged ((r.modify a f).1.query a) := by
  rw [query_modify_self]
  simp only [modify] at h
  split at h <;> simp_all

end Registry

end Lighting
