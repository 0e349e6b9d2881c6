import Lighting.Text.Numeral
import Lighting.Text.Quoted

/-!
# The link to the bus

The interface is reached over the network or at a serial device.
-/

namespace Lighting

/-- How the interface is reached. -/
inductive Link where
  /-- At a host and port. -/
  | tcp (address : String)
  /-- At a serial device. -/
  | serial (path : String) (baud : Nat)
deriving DecidableEq

/-- What is wrong with a link. -/
inductive LinkError where
  /-- The text does not name a host and a port. -/
  | invalidAddress (address : String)
  /-- There is no such device. -/
  | deviceNotFound (path : String)
deriving DecidableEq

/-- The message of a link error. -/
def LinkError.message : LinkError → String
  | invalidAddress address =>
    "invalid link address " ++ Text.quoted address.toList ++ ", expected HOST:PORT"
  | deviceNotFound path => "serial device " ++ path ++ " does not exist"

namespace Link

/-- The speed of a serial device that nothing was said about. -/
def defaultBaud : Nat := 9600

instance : ToString Link where
  toString
    | tcp address => "tcp://" ++ address
    | serial path baud => path ++ "@" ++ Text.decimal baud

/-- What stands before the last colon of a text, and what follows it. -/
def splitLastColon? (cs : List Char) : Option (List Char × List Char) :=
  let back := cs.reverse
  match back.dropWhile (· != ':') with
  | _ :: host => some (host.reverse, (back.takeWhile (· != ':')).reverse)
  | [] => none

/-- Whether a text names a host and a port. -/
def isHostPort (address : String) : Bool :=
  (splitLastColon? address.toList).any fun (host, port) =>
    !host.isEmpty && (Text.below? 65536 port).isSome

/-- Checks a link; `pathExists` says which devices are there. -/
def validate (pathExists : String → Bool) : Link → Except LinkError Unit
  | tcp address => if isHostPort address then .ok () else .error (.invalidAddress address)
  | serial path _ => if pathExists path then .ok () else .error (.deviceNotFound path)

end Link

end Lighting
