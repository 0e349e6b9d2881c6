import Lighting.Text.Blank
import Lighting.Text.Utf8

/-!
# The broker

Where the home's message broker is reached, and who logs on to it.
-/

namespace Lighting

/-- The port of a broker that is reached in the clear. -/
def plainPort : Nat := 1883

/-- The port of a broker that is reached over TLS. -/
def securePort : Nat := 8883

/-- A user name and a password. -/
structure Credentials where
  /-- The name of the user. -/
  username : String
  /-- The password. -/
  password : String
deriving DecidableEq

/-- What is wrong with a file of credentials. -/
inductive CredentialsError where
  /-- The file is missing or no text. -/
  | unreadable
  /-- The file lacks the name of a user or a line for the password. -/
  | incomplete
deriving DecidableEq

/-- Drops a carriage return at the end of a line. -/
def dropReturn (line : List Char) : List Char :=
  if line.getLast? = some '\r' then line.dropLast else line

/-- The lines of a text, without their ends; what follows the last line feed is a line if there is
anything. -/
def lines (cs : List Char) : List (List Char) :=
  let pieces := cs.splitOn '\n'
  let last := pieces.getLast?.getD []
  pieces.dropLast.map dropReturn ++ (if last.isEmpty then [] else [last])

namespace Credentials

/-- Reads credentials from the contents of a file: the user on the first line and the password on
the second, without the blanks around them. -/
def read (contents : Option (List UInt8)) : Except CredentialsError Credentials :=
  match contents.bind Text.Utf8.decode with
  | none => .error .unreadable
  | some cs =>
    match lines cs with
    | first :: second :: _ =>
      let username := Text.trim first
      if username.isEmpty then .error .incomplete
      else .ok ⟨String.ofList username, String.ofList (Text.trim second)⟩
    | _ => .error .incomplete

end Credentials

/-- Where the broker is reached. -/
structure Broker where
  /-- The name or address of the host. -/
  host : String
  /-- The port that was asked for. -/
  port : Option Nat
  /-- How many seconds a silent connection is kept. -/
  keepAlive : Nat
  /-- Who logs on. -/
  credentials : Option Credentials
  /-- Whether the connection is secured. -/
  tls : Bool
deriving DecidableEq

namespace Broker

/-- A broker at a host, reached in the clear at the usual port. -/
def atHost (host : String) : Broker :=
  { host, port := none, keepAlive := 60, credentials := none, tls := false }

/-- The port the broker is reached at: the one asked for, or the usual one. -/
def effectivePort (b : Broker) : Nat := b.port.getD (if b.tls then securePort else plainPort)

end Broker

end Lighting
