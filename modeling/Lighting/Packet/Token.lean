import Lighting.Command

/-!
# Confirmations

The interface answers each line it takes with the line's confirmation character and a status
character.  Lines carry the characters from `h` to `z` in turn; the lines that set the interface up
all carry `g`.
-/

namespace Lighting.Packet

/-- The confirmation characters of command lines, in the order they are used. -/
def tokens : List UInt8 := (List.range 19).map fun i => UInt8.ofNat (0x68 + i)

/-- The confirmation character of the lines that set the interface up. -/
def setupToken : UInt8 := 0x67

/-- The confirmation character of the line with a running number. -/
def token (nonce : UInt64) : UInt8 := tokens.getD (nonce.toNat % tokens.length) setupToken

/-- Whether an octet is a confirmation character. -/
def isToken (b : UInt8) : Bool := b == setupToken || tokens.contains b

/-- What a status character says: whether the line was accepted; nothing if it is none. -/
def accepted? (b : UInt8) : Option Bool :=
  if b = 0x2E then some true
  else if b = 0x23 ∨ b = 0x24 ∨ b = 0x25 ∨ b = 0x27 then some false
  else none

/-- The interface's answer to one line. -/
structure Confirmation where
  /-- The confirmation character of the line. -/
  token : UInt8
  /-- The address the answer is about, if it says so. -/
  address : Option Address
  /-- The family of the action the answer is about, if it says so. -/
  kind : Option Action.Class
  /-- Whether the line was accepted. -/
  accepted : Bool
deriving DecidableEq

/-- What the answer to a line is recognised by. -/
structure MatchKey where
  /-- The address the line is for. -/
  address : Address
  /-- The family of the line's action. -/
  kind : Action.Class
  /-- The confirmation character of the line. -/
  token : UInt8
deriving DecidableEq

/-- Whether a confirmation answers the line with this key: the character is the same, and so is
everything else the confirmation names. -/
def MatchKey.matches (key : MatchKey) (c : Confirmation) : Bool :=
  c.token == key.token && c.address.all (· == key.address) && c.kind.all (· == key.kind)

/-- The key of the line that carries a command. -/
def matchKey (c : Command) (nonce : UInt64) : MatchKey := ⟨c.address, c.action.kind, token nonce⟩

end Lighting.Packet
