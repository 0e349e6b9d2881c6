import Lighting.Binary.Decimal
import Lighting.Broker
import Lighting.Device.Map
import Lighting.Link
import Lighting.Options.Words
import Lighting.Settings

/-!
# From the command line to settings

`Arguments.read` checks the options one after the other as they stand on the command line: the first
that asks for help or for the version, is given twice or has a value that cannot be read decides.
Then it checks that exactly one link and a broker are named and that a client certificate comes with
certificates to trust.  From what it read follow the settings of the bridge and of the broker.
-/

namespace Lighting.Options

/-- How much is logged. -/
inductive Verbosity where
  /-- Errors only. -/
  | error
  /-- Warnings too. -/
  | warn
  /-- What happens. -/
  | info
  /-- And how. -/
  | debug
  /-- Everything. -/
  | trace
deriving DecidableEq

namespace Verbosity

/-- All of them. -/
def all : List Verbosity := [error, warn, info, debug, trace]

/-- The name of a verbosity. -/
def name : Verbosity → String
  | error => "error"
  | warn => "warn"
  | info => "info"
  | debug => "debug"
  | trace => "trace"

end Verbosity

/-- What a command line says. -/
structure Arguments where
  /-- The serial device of the interface. -/
  serial : Option String := none
  /-- The network address of the interface. -/
  tcp : Option String := none
  /-- The host of the broker. -/
  brokerAddress : Option String := none
  /-- The port of the broker. -/
  brokerPort : Option Nat := none
  /-- The seconds a silent connection to the broker is kept. -/
  brokerKeepalive : Nat := 60
  /-- The file with the credentials for the broker. -/
  brokerAuth : Option String := none
  /-- The file with the certificates to trust. -/
  brokerCa : Option String := none
  /-- The file with the client's certificate. -/
  brokerClientCert : Option String := none
  /-- The file with the client's key. -/
  brokerClientKey : Option String := none
  /-- The lists of addresses. -/
  lists : DeviceLists := ⟨"", "", "", ""⟩
  /-- The number of attempts of a command. -/
  maxRetries : Nat := 4
  /-- The milliseconds the first attempt waits. -/
  confirmTimeoutMs : Nat := 250
  /-- The factor of the wait from one attempt to the next. -/
  retryBackoff : Binary.Value Binary.single := .one
  /-- The least milliseconds between two lines. -/
  sendIntervalMs : Nat := 100
  /-- The number of steps of a stepped ramp. -/
  rampSteps : Nat := 10
  /-- Whether ramps are left to the bus units where they can run them. -/
  nativeRamps : Bool := true
  /-- How much is logged. -/
  verbosity : Verbosity := .info
  /-- Whether logs are written as JSON. -/
  jsonLogs : Bool := false

/-- Why a command line is not taken. -/
inductive Refusal where
  /-- It asks for help. -/
  | help
  /-- It asks for the version. -/
  | version
  /-- It cannot be understood. -/
  | usage
deriving DecidableEq

/-- The path that a value names; it may not be empty. -/
def path? (value : List Char) : Option String :=
  if value.isEmpty then none else some (String.ofList value)

/-- The number that a value names, with any sign, if it lies below a bound. -/
def bounded? (bound : Nat) (value : List Char) : Option Nat :=
  (Text.int64? value).bind fun i => if 0 ≤ i ∧ i < bound then some i.toNat else none

/-- The unsigned number of 64 bits that a value names. -/
def word64? (value : List Char) : Option Nat := Text.below? Text.wordLimit value

/-- The verbosity that a value names. -/
def verbosity? (value : List Char) : Option Verbosity :=
  Verbosity.all.find? fun v => v.name.toList == value

namespace Arguments

/-- Takes an option; none if its value cannot be read. -/
def take (args : Arguments) (o : Occurrence) : Except Refusal Arguments :=
  let text := String.ofList o.value
  let read : Option Arguments := match o.flag with
    | .serial => (path? o.value).map fun x => { args with serial := some x }
    | .tcp => some { args with tcp := some text }
    | .brokerAddress => some { args with brokerAddress := some text }
    | .brokerPort => (bounded? 0x10000 o.value).map fun x => { args with brokerPort := some x }
    | .brokerKeepalive => (word64? o.value).map fun x => { args with brokerKeepalive := x }
    | .brokerAuth => (path? o.value).map fun x => { args with brokerAuth := some x }
    | .brokerCa => (path? o.value).map fun x => { args with brokerCa := some x }
    | .brokerClientCert => (path? o.value).map fun x => { args with brokerClientCert := some x }
    | .brokerClientKey => (path? o.value).map fun x => { args with brokerClientKey := some x }
    | .nonDimmableLights => some { args with lists.nonDimmableLights := text }
    | .switches => some { args with lists.switches := text }
    | .binarySensors => some { args with lists.binarySensors := text }
    | .ignore => some { args with lists.ignored := text }
    | .maxRetries => (bounded? 0x100000000 o.value).map fun x => { args with maxRetries := x }
    | .confirmTimeoutMs => (word64? o.value).map fun x => { args with confirmTimeoutMs := x }
    | .retryBackoff => (Binary.Value.read? o.value).map fun x => { args with retryBackoff := x }
    | .sendIntervalMs => (word64? o.value).map fun x => { args with sendIntervalMs := x }
    | .rampSteps => (bounded? 0x100000000 o.value).map fun x => { args with rampSteps := x }
    | .noNativeRamps => some { args with nativeRamps := false }
    | .verbosity => (verbosity? o.value).map fun x => { args with verbosity := x }
    | .jsonLogs => some { args with jsonLogs := true }
    | .help => none
    | .version => none
  match o.flag, read with
  | .help, _ => .error .help
  | .version, _ => .error .version
  | _, some args => .ok args
  | _, none => .error .usage

/-- Takes options in order; `seen` are those that were given before. -/
def takeAll (args : Arguments) (seen : List Flag) : List Occurrence → Except Refusal Arguments
  | [] => .ok args
  | o :: rest =>
    if seen.contains o.flag then .error .usage
    else (args.take o).bind fun args => args.takeAll (o.flag :: seen) rest

/-- Whether what a command line says is enough and goes together. -/
def isComplete (args : Arguments) : Bool :=
  (args.serial.isSome != args.tcp.isSome) && args.brokerAddress.isSome &&
    (args.brokerCa.isSome || (args.brokerClientCert.isNone && args.brokerClientKey.isNone))

/-- Reads the words of a command line. -/
def read (words : List String) : Except Refusal Arguments :=
  let (found, readable) := occurrences none words
  match Arguments.takeAll {} [] found with
  | .error refusal => .error refusal
  | .ok args => if readable && args.isComplete then .ok args else .error .usage

/-- The link to the interface. -/
def link (args : Arguments) : Link :=
  match args.serial with
  | some path => .serial path Link.defaultBaud
  | none => .tcp (args.tcp.getD "")

/-- What stands behind each address. -/
def devices (args : Arguments) : DeviceMap := .ofLists args.lists

/-- The dispatch settings. -/
def settings (args : Arguments) : Settings :=
  { Settings.standard with
    retry :=
      { RetryPolicy.standard with
        maxRetries := args.maxRetries
        timeout := .ofMillis args.confirmTimeoutMs
        backoff := args.retryBackoff }
    sendInterval := .ofMillis args.sendIntervalMs
    rampSteps := args.rampSteps
    nativeRamps := args.nativeRamps }

/-- What is wrong with the settings of the broker. -/
inductive BrokerError where
  /-- The file of credentials. -/
  | credentials (e : CredentialsError)
  /-- A client certificate without its key, or a key without its certificate. -/
  | incompleteClientAuth
deriving DecidableEq

/-- The message of a broker error, naming the file it is about. -/
def BrokerError.describe (path : String) : BrokerError → String
  | credentials .unreadable => "cannot read " ++ path
  | credentials .incomplete =>
    "credentials file " ++ path ++ " must contain a username and a password line"
  | incompleteClientAuth => "client certificate and key must both be specified"

/-- Where the broker is reached; `contents` gives the contents of a file, if it can be read. -/
def broker (args : Arguments) (contents : String → Option (List UInt8)) :
    Except BrokerError Broker :=
  let credentials : Except BrokerError (Option Credentials) := match args.brokerAuth with
    | none => .ok none
    | some path => match Credentials.read (contents path) with
      | .ok c => .ok (some c)
      | .error e => .error (.credentials e)
  credentials.bind fun credentials =>
    if args.brokerClientCert.isSome != args.brokerClientKey.isSome then
      .error .incompleteClientAuth
    else .ok
      { host := args.brokerAddress.getD ""
        port := args.brokerPort
        keepAlive := args.brokerKeepalive
        credentials
        tls := args.brokerCa.isSome }

end Arguments

end Lighting.Options
