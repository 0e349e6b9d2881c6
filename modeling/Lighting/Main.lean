import Lighting.Home.Discovery
import Lighting.Options.Arguments
import Lighting.Options.Help

/-!
# The command line

The program reads its settings from the command line and the files named there, checks them and
shows what they come to: the link, the broker and every announcement to the home.  A setting that
cannot be used ends the program with the reason.  All decisions are made elsewhere; this module only
reads files and prints.
-/

namespace Lighting.Options

/-- The contents of a file, if it can be read. -/
def contents? (path : String) : IO (Option (List UInt8)) := do
  try
    let bytes ← IO.FS.readBinFile path
    return some bytes.toList
  catch _ => return none

/-- Whether a path leads to a file or a device. -/
def isPresent (path : String) : IO Bool := do
  try
    let _ ← IO.FS.realPath path
    return true
  catch _ => return false

/-- Says on the error stream what was being done and why it failed. -/
def reportFailure (activity cause : String) : IO UInt32 := do
  IO.eprintln ("Error: " ++ activity ++ "\n\nCaused by:\n    " ++ cause)
  return 1

/-- Checks the settings and shows what they come to. -/
def run (args : Arguments) : IO UInt32 := do
  for e in DeviceMap.listErrors args.lists do
    IO.eprintln ("Skipping invalid group address: " ++ e.message)
  let path := args.brokerAuth.getD ""
  let file ← contents? path
  match args.broker fun _ => file with
  | .error e => reportFailure "invalid broker configuration" (e.describe path)
  | .ok broker =>
    let present ← isPresent (args.serial.getD "")
    match args.link.validate fun _ => present with
    | .error e => reportFailure "invalid bus link" e.message
    | .ok () =>
      IO.println ("link " ++ toString args.link)
      IO.println ("broker " ++ broker.host ++ ":" ++ Text.decimal broker.effectivePort)
      for m in Home.discovery args.devices do
        IO.println (m.topic ++ " " ++ m.payload.toText)
      return 0

end Lighting.Options

/-- Reads the command line and acts on it. -/
def main (words : List String) : IO UInt32 := do
  match Lighting.Options.Arguments.read words with
  | .ok args => Lighting.Options.run args
  | .error .help =>
    for line in Lighting.Options.help do
      IO.println line
    return 0
  | .error .version =>
    IO.println Lighting.Home.version
    return 0
  | .error .usage =>
    IO.eprintln Lighting.Options.usage
    return 2
