import Lighting.Home.Discovery
import Lighting.Home.Route
import Lighting.Main
import Lighting.Options.Arguments
import Lighting.Policy.Reconnect
import Lighting.Proofs.Agenda.Calendar
import Lighting.Proofs.Dispatcher.Buffering
import Lighting.Proofs.Dispatcher.Convergence
import Lighting.Proofs.Dispatcher.Exclusion
import Lighting.Proofs.Dispatcher.Expiry
import Lighting.Proofs.Dispatcher.Intake
import Lighting.Proofs.Dispatcher.Native
import Lighting.Proofs.Dispatcher.Noise
import Lighting.Proofs.Dispatcher.RampFlag
import Lighting.Proofs.Dispatcher.Settling
import Lighting.Proofs.Dispatcher.Start
import Lighting.Proofs.Engine
import Lighting.Proofs.Home.Discovery
import Lighting.Proofs.Home.State
import Lighting.Proofs.Level.Interpolation
import Lighting.Proofs.Packet.Damage
import Lighting.Proofs.Packet.Grammar
import Lighting.Proofs.Packet.RoundTrip
import Lighting.Proofs.Policy.Reconnect
import Lighting.Proofs.Policy.Retry
import Lighting.Proofs.Ramp.Shape
import Lighting.Proofs.Dispatcher.Serving
import Lighting.Proofs.Feed
import Lighting.Proofs.Engine
