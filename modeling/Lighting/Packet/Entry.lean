import Lighting.Address
import Lighting.Level
import Lighting.Rate

/-!
# Entries of a lighting packet

The body of a lighting packet is a row of entries: on, off and end-of-ramp take an address, a ramp
takes an address and a level.  `Entry.write` puts an entry into octets and `readReports` takes a row
of octets apart into the reports its entries make.  The row ends at the first octet that is no
command code; an entry that is cut short spoils the whole row.
-/

namespace Lighting.Packet

/-- What a packet on the bus says about one address. -/
structure Report where
  /-- The address. -/
  address : Address
  /-- The level it goes to. -/
  level : Level
  /-- How long it takes to get there. -/
  transition : Duration
  /-- The unit that sent the packet, if known. -/
  source : Option UInt8
deriving DecidableEq

/-- The command code for full brightness. -/
def onCode : UInt8 := 0x79

/-- The command code for darkness. -/
def offCode : UInt8 := 0x01

/-- The command code that ends a running ramp. -/
def endRampCode : UInt8 := 0x09

/-- One entry of a lighting packet. -/
inductive Entry where
  /-- Full brightness. -/
  | on (address : UInt8)
  /-- Darkness. -/
  | off (address : UInt8)
  /-- The running ramp ends where it is. -/
  | endRamp (address : UInt8)
  /-- A ramp at a native rate. -/
  | ramp (rate : Rate) (address level : UInt8)
deriving DecidableEq

namespace Entry

/-- The octets of an entry. -/
def write : Entry → List UInt8
  | on address => [onCode, address]
  | off address => [offCode, address]
  | endRamp address => [endRampCode, address]
  | ramp rate address level => [rate.code, address, level]

/-- What an entry reports; the end of a ramp names no level and reports nothing. -/
def report? (source : UInt8) : Entry → Option Report
  | on address => some ⟨⟨address⟩, .full, .zero, some source⟩
  | off address => some ⟨⟨address⟩, .off, .zero, some source⟩
  | endRamp _ => none
  | ramp rate address level => some ⟨⟨address⟩, ⟨level⟩, rate.duration, some source⟩

end Entry

/-- How a row of octets goes on. -/
inductive Entries.Next where
  /-- An entry, and the octets after it. -/
  | entry (e : Entry) (rest : List UInt8)
  /-- No further entry. -/
  | done
  /-- An entry that is cut short. -/
  | truncated

/-- Takes the first entry off a row of octets. -/
def Entries.next : List UInt8 → Entries.Next
  | [] => .done
  | code :: rest =>
    if code = onCode then
      match rest with
      | address :: rest => .entry (.on address) rest
      | [] => .truncated
    else if code = offCode then
      match rest with
      | address :: rest => .entry (.off address) rest
      | [] => .truncated
    else if code = endRampCode then
      match rest with
      | address :: rest => .entry (.endRamp address) rest
      | [] => .truncated
    else match Rate.ofCode? code with
      | none => .done
      | some rate =>
        match rest with
        | address :: level :: rest => .entry (.ramp rate address level) rest
        | _ => .truncated

/-- Takes at most `fuel` entries off a row of octets; none if one of them is cut short. -/
def Entries.readUpTo : (fuel : Nat) → List UInt8 → Option (List Entry)
  | 0, _ => some []
  | fuel + 1, octets =>
    match next octets with
    | .entry e rest => (readUpTo fuel rest).map (e :: ·)
    | .done => some []
    | .truncated => none

/-- The entries of a row of octets; none if one of them is cut short. -/
def Entries.read (octets : List UInt8) : Option (List Entry) := readUpTo octets.length octets

/-- The reports of a row of octets; none if an entry is cut short. -/
def readReports (source : UInt8) (octets : List UInt8) : Option (List Report) :=
  (Entries.read octets).map (·.filterMap (Entry.report? source))

end Lighting.Packet
