import Lighting.Packet.Token

/-!
# Lines from the interface

The interface sends confirmations, two characters that no line end follows, and lines that end with
a carriage return or a line feed.  `nextFrame` cuts the next of them off what has come in so far,
and `frames` cuts off as many as there are.  A line that never ends is cut when it grows too long,
so what stays buffered is bounded.
-/

namespace Lighting.Packet

/-- The longest line that is kept waiting for its end. -/
def maxLine : Nat := 512

/-- Whether an octet ends a line. -/
def isLineEnd (b : UInt8) : Bool := b == 0x0D || b == 0x0A

/-- Whether what has come in begins with a complete confirmation. -/
def startsWithConfirmation : List UInt8 → Bool
  | code :: status :: _ => isToken code && (accepted? status).isSome
  | _ => false

/-- Cuts the next frame off what has come in, and gives what is left; line ends before the frame are
dropped, the one after it is left. -/
def nextFrame (buffer : List UInt8) : Option (List UInt8) × List UInt8 :=
  let buffer := buffer.dropWhile isLineEnd
  if startsWithConfirmation buffer then (some (buffer.take 2), buffer.drop 2)
  else if buffer.any isLineEnd then
    (some (buffer.takeWhile (!isLineEnd ·)), buffer.dropWhile (!isLineEnd ·))
  else if maxLine < buffer.length then (some buffer, [])
  else (none, buffer)

/-- Cuts off at most `fuel` frames, and gives what is left. -/
def framesUpTo : (fuel : Nat) → List UInt8 → List (List UInt8) × List UInt8
  | 0, buffer => ([], buffer)
  | fuel + 1, buffer =>
    match nextFrame buffer with
    | (none, rest) => ([], rest)
    | (some frame, rest) =>
      let (frames, rest) := framesUpTo fuel rest
      (frame :: frames, rest)

/-- All frames that have come in completely, and what is left.  Every frame takes an octet off the
buffer, so there are no more frames than octets. -/
def frames (buffer : List UInt8) : List (List UInt8) × List UInt8 :=
  framesUpTo (buffer.length + 1) buffer

end Lighting.Packet
