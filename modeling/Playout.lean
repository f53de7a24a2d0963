import Playout.Main
import Playout.Proofs.Player.Journal
import Playout.Proofs.Player.Timeline
import Playout.Proofs.Player.Programme
import Playout.Proofs.Player.PlayThrough
import Playout.Proofs.Wire.Framing
import Playout.Proofs.Wire.Chunking
import Playout.Proofs.Token.Glue
import Playout.Proofs.Token.RoundTrip
import Playout.Proofs.Player.Reachable
import Playout.Proofs.Player.Switching
import Playout.Proofs.Player.Seek
import Playout.Proofs.Console.Lockstep
import Playout.Proofs.Console.Output
import Playout.Proofs.Text.Utf8
import Playout.Proofs.Wire.Reply
import Playout.Proofs.Wire.Dialogue
import Playout.Proofs.Wire.Overlong
import Playout.Proofs.Console.Residue
import Playout.Proofs.Wire.Isolation
import Playout.Proofs.Player.Generation
import Playout.Proofs.Player.Consistency
import Playout.Proofs.Console.Plain
import Playout.Proofs.Player.Protocol
import Playout.Proofs.Wire.Refusal
import Playout.Proofs.Player.Cancellation
import Playout.Proofs.Player.Starting
import Playout.Proofs.Stack.Effect
import Playout.Proofs.Console.Opening
import Playout.Proofs.Console.Unwinding
import Playout.Proofs.Player.Holding
import Playout.Proofs.Stack.Tied
import Playout.Proofs.Console.Grip
import Playout.Proofs.Console.Reach
import Playout.Proofs.Console.Discretion
import Playout.Proofs.Wire.Neighbours
import Playout.Proofs.Wire.Heads
import Playout.Proofs.Wire.Delivery
import Playout.Proofs.Terminal.Leaving
import Playout.Proofs.Console.Placing
import Playout.Proofs.Console.Rendering
import Playout.Proofs.Console.Cloning
import Playout.Proofs.Number.Checked
import Playout.Proofs.Player.Landing
import Playout.Proofs.Player.Advancing
import Playout.Proofs.Player.Slots
import Playout.Proofs.Token.Layout
import Playout.Proofs.Console.Joining
import Playout.Proofs.Console.Beneath
import Playout.Proofs.Wire.Idling
import Playout.Proofs.Wire.Query
import Playout.Proofs.Media.Handling
import Playout.Proofs.Player.Waking
import Playout.Proofs.Wire.Sending
import Playout.Proofs.Wire.Draining
