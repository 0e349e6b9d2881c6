import Lighting.Packet.Entry
import Lighting.Packet.Token
import Lighting.Text.Blank
import Lighting.Text.Hex
import Lighting.Text.Quoted
import Lighting.Text.Utf8

/-!
# Packets as lines

A command goes out as one line: a backslash, the packet in upper-case hexadecimal digits, the
confirmation character and a carriage return.  The octets of a packet, checksum included, add up to
zero.  What comes in is a confirmation or a line of digits; `decode` says what it means or what is
wrong with it.
-/

namespace Lighting.Packet

/-- The header of a packet that many units take. -/
def header : UInt8 := 0x05

/-- The lighting application. -/
def lighting : UInt8 := 0x38

/-- The sum of a row of octets, carried round past 255. -/
def sum (octets : List UInt8) : UInt8 := octets.foldl (· + ·) 0

/-- The octet that brings the sum of a packet to zero. -/
def checksum (octets : List UInt8) : UInt8 := 0 - sum octets

/-- The entry that carries an action to an address.  A ramp that no rate covers takes the slowest
rate. -/
def entry (action : Action) (address : Address) : Entry :=
  match action with
  | .on => .on address.octet
  | .off => .off address.octet
  | .setLevel level => .ramp .instant address.octet level.octet
  | .ramp level duration =>
    .ramp ((Rate.covering? duration).getD .slowest) address.octet level.octet

/-- The packet of a command, with its checksum. -/
def packet (c : Command) : List UInt8 :=
  let body := [header, lighting, 0] ++ (entry c.action c.address).write
  body ++ [checksum body]

/-- The octets of characters that take one octet each. -/
def octets (cs : List Char) : List UInt8 := cs.map fun c => UInt8.ofNat c.toNat

/-- The line that carries a command. -/
def encode (c : Command) (nonce : UInt64) : List UInt8 :=
  [0x5C] ++ octets (Text.hexUpper (packet c)) ++ [token nonce, 0x0D]

/-- The line that sets one option of the interface. -/
def setupLine (text : String) : List UInt8 := octets text.toList ++ [setupToken, 0x0D]

/-- The lines that reset the interface and make it confirm commands and show all bus traffic. -/
def handshake : List (List UInt8) :=
  [octets "~~~\r".toList, setupLine "A3210038", setupLine "A3420002", setupLine "A3300059"]

/-- What a frame from the interface means. -/
inductive Inbound where
  /-- The answer to a line. -/
  | confirmation (c : Confirmation)
  /-- Bus traffic about at least one address. -/
  | status (reports : List Report)
  /-- Nothing that concerns lighting. -/
  | unrecognized
deriving DecidableEq

/-- What is wrong with a frame. -/
inductive DecodeError where
  /-- The octets are no text. -/
  | notText
  /-- A digit is left over. -/
  | oddDigits (text : List Char)
  /-- A pair of characters is no octet. -/
  | invalidHex (text : List Char)
  /-- A pair of octets would cut a character in two.  No message is made for it: reading stops. -/
  | splitCharacter
  /-- The octets do not add up to zero. -/
  | checksum (sum : UInt8)
  /-- There are fewer octets than a packet has. -/
  | tooShort (text : List Char)
  /-- An entry is cut short. -/
  | truncated
deriving DecidableEq

/-- The message of a decoding error; none is made for a character cut in two. -/
def DecodeError.message? : DecodeError → Option String
  | notText => some "malformed frame: frame is not ASCII"
  | oddDigits text =>
    some ("malformed frame: odd number of hex digits in " ++ Text.quoted text)
  | invalidHex text => some ("malformed frame: invalid hex in " ++ Text.quoted text)
  | splitCharacter => none
  | checksum sum =>
    some ("checksum mismatch: frame sums to 0x" ++ String.ofList (Text.octetLower sum) ++
      ", expected 0x00")
  | tooShort text => some ("malformed frame: packet too short: " ++ Text.quoted text)
  | truncated => some "malformed frame: truncated lighting SAL"

/-- The octet of two characters: two hexadecimal digits, or a plus sign and one. -/
def pairValue? (a b : Char) : Option UInt8 :=
  if a = '+' then (Text.hexValue? b).map UInt8.ofNat
  else match Text.hexValue? a, Text.hexValue? b with
    | some high, some low => some (UInt8.ofNat (16 * high + low))
    | _, _ => none

/-- Reads pairs of octets of a text as hexadecimal numbers.  `text` is the whole text, for the error.
A character of two octets fills a pair alone; a longer one, and one that starts in the second half
of a pair, would be cut in two. -/
def readPairs (text : List Char) : List Char → Except DecodeError (List UInt8)
  | [] => .ok []
  | a :: rest =>
    if a.utf8Size = 1 then
      match rest with
      | [] => .error (.oddDigits text)
      | b :: rest =>
        if b.utf8Size = 1 then
          match pairValue? a b with
          | none => .error (.invalidHex text)
          | some octet => (readPairs text rest).map (octet :: ·)
        else .error .splitCharacter
    else if a.utf8Size = 2 then .error (.invalidHex text)
    else .error .splitCharacter

/-- Reads a text as hexadecimal digits. -/
def readHex (text : List Char) : Except DecodeError (List UInt8) :=
  if Text.Utf8.size text % 2 = 1 then .error (.oddDigits text) else readPairs text text

/-- What the octets of a packet mean; `text` is the line they were read from. -/
def readPacket (text : List Char) (octets : List UInt8) : Except DecodeError Inbound :=
  if sum octets ≠ 0 then .error (.checksum (sum octets))
  else match octets.dropLast with
    | first :: source :: application :: _routing :: body =>
      if first ≠ header ∨ application ≠ lighting then .ok .unrecognized
      else match readReports source body with
        | none => .error .truncated
        | some [] => .ok .unrecognized
        | some reports => .ok (.status reports)
    | _ => .error (.tooShort text)

/-- What a line means. -/
def decodeLine (frame : List UInt8) : Except DecodeError Inbound :=
  match Text.Utf8.decode frame with
  | none => .error .notText
  | some cs =>
    let text := Text.trim cs
    if Text.Utf8.size text ≤ 1 then .ok .unrecognized
    else (readHex text).bind (readPacket text)

/-- The confirmation that a frame of two octets is. -/
def confirmation? : List UInt8 → Option Confirmation
  | [code, status] =>
    if isToken code then (accepted? status).map fun accepted => ⟨code, none, none, accepted⟩
    else none
  | _ => none

/-- What a frame means. -/
def decode (frame : List UInt8) : Except DecodeError Inbound :=
  match confirmation? frame with
  | some c => .ok (.confirmation c)
  | none => decodeLine frame

/-- Whether the bus units can run a ramp of this length by themselves. -/
def supportsRamp (d : Duration) : Bool := (Rate.covering? d).isSome

end Lighting.Packet
