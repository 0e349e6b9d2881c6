/-!
# Command line options

The options by their long and short names, and which of them take a value.
-/

namespace Lighting.Options

/-- The options of the command line. -/
inductive Flag where
  /-- The serial device of the interface. -/
  | serial
  /-- The network address of the interface. -/
  | tcp
  /-- The host of the broker. -/
  | brokerAddress
  /-- The port of the broker. -/
  | brokerPort
  /-- The seconds a silent connection to the broker is kept. -/
  | brokerKeepalive
  /-- The file with the credentials for the broker. -/
  | brokerAuth
  /-- The file with the certificates to trust. -/
  | brokerCa
  /-- The file with the client's certificate. -/
  | brokerClientCert
  /-- The file with the client's key. -/
  | brokerClientKey
  /-- The addresses of lights that only switch. -/
  | nonDimmableLights
  /-- The addresses of relays. -/
  | switches
  /-- The addresses of sensors. -/
  | binarySensors
  /-- The addresses to leave alone. -/
  | ignore
  /-- The number of attempts of a command. -/
  | maxRetries
  /-- The milliseconds the first attempt waits. -/
  | confirmTimeoutMs
  /-- The factor of the wait from one attempt to the next. -/
  | retryBackoff
  /-- The least milliseconds between two lines. -/
  | sendIntervalMs
  /-- The number of steps of a stepped ramp. -/
  | rampSteps
  /-- Whether every ramp is stepped. -/
  | noNativeRamps
  /-- How much is logged. -/
  | verbosity
  /-- Whether logs are written as JSON. -/
  | jsonLogs
  /-- Asks for help. -/
  | help
  /-- Asks for the version. -/
  | version
deriving DecidableEq

namespace Flag

/-- All options. -/
def all : List Flag :=
  [serial, tcp, brokerAddress, brokerPort, brokerKeepalive, brokerAuth, brokerCa, brokerClientCert,
   brokerClientKey, nonDimmableLights, switches, binarySensors, ignore, maxRetries,
   confirmTimeoutMs, retryBackoff, sendIntervalMs, rampSteps, noNativeRamps, verbosity, jsonLogs,
   help, version]

/-- The long name of an option. -/
def long : Flag → String
  | serial => "serial"
  | tcp => "tcp"
  | brokerAddress => "broker-address"
  | brokerPort => "broker-port"
  | brokerKeepalive => "broker-keepalive"
  | brokerAuth => "broker-auth"
  | brokerCa => "broker-ca"
  | brokerClientCert => "broker-client-cert"
  | brokerClientKey => "broker-client-key"
  | nonDimmableLights => "non-dimmable-lights"
  | switches => "switches"
  | binarySensors => "binary-sensors"
  | ignore => "ignore"
  | maxRetries => "max-retries"
  | confirmTimeoutMs => "confirm-timeout-ms"
  | retryBackoff => "retry-backoff"
  | sendIntervalMs => "send-interval-ms"
  | rampSteps => "ramp-steps"
  | noNativeRamps => "no-native-ramps"
  | verbosity => "verbosity"
  | jsonLogs => "json-logs"
  | help => "help"
  | version => "version"

/-- The letter of an option, if it has one. -/
def short? : Flag → Option Char
  | serial => some 's'
  | tcp => some 't'
  | brokerAddress => some 'b'
  | brokerPort => some 'p'
  | brokerAuth => some 'A'
  | brokerCa => some 'c'
  | brokerClientCert => some 'k'
  | brokerClientKey => some 'K'
  | verbosity => some 'v'
  | help => some 'h'
  | version => some 'V'
  | _ => none

/-- Whether an option takes a value. -/
def takesValue : Flag → Bool
  | noNativeRamps => false
  | jsonLogs => false
  | help => false
  | version => false
  | _ => true

/-- What an option is for. -/
def about : Flag → String
  | serial => "Serial device the interface is attached to (e.g. /dev/ttyUSB0)"
  | tcp => "Address of a networked interface (e.g. 192.0.2.1:10001)"
  | brokerAddress => "Address of the MQTT broker"
  | brokerPort => "Broker port [default: 1883, or 8883 with TLS]"
  | brokerKeepalive => "Keep-alive interval in seconds [default: 60]"
  | brokerAuth => "File with the broker username on the first line and password on the second"
  | brokerCa => "PEM file with CA certificates to trust. Enables TLS"
  | brokerClientCert => "PEM client certificate. Requires --broker-client-key"
  | brokerClientKey => "PEM client key. Requires --broker-client-cert"
  | nonDimmableLights => "Comma-separated group addresses of non-dimmable lights"
  | switches => "Comma-separated group addresses of switches"
  | binarySensors => "Comma-separated group addresses of read-only binary sensors"
  | ignore => "Comma-separated group addresses to leave alone entirely"
  | maxRetries => "Total send attempts per command [default: 4]"
  | confirmTimeoutMs => "Confirmation timeout of the first attempt, in milliseconds [default: 250]"
  | retryBackoff => "Confirmation timeout multiplier per further attempt [default: 1]"
  | sendIntervalMs => "Minimum spacing between frames, in milliseconds [default: 100]"
  | rampSteps => "Number of steps for ramps the interface cannot run itself [default: 10]"
  | noNativeRamps => "Always step ramps instead of using native ramp rates"
  | verbosity => "Log verbosity: error, warn, info, debug or trace [default: info]"
  | jsonLogs => "Emit logs as JSON"
  | help => "Print help"
  | version => "Print version"

/-- The option with a long name. -/
def ofLong? (name : List Char) : Option Flag := all.find? fun f => f.long.toList == name

/-- The option with a letter. -/
def ofShort? (c : Char) : Option Flag := all.find? fun f => f.short? == some c

end Flag

end Lighting.Options
