import InfinityBridge.Library.Transition
import InfinityBridge.Library.Execution
import InfinityBridge.Library.Loop
import InfinityBridge.Library.Locks
import InfinityBridge.Library.Starvation
import InfinityBridge.Library.Json
import InfinityBridge.Library.Rounding
import InfinityBridge.Library.Table
import InfinityBridge.Wire.Value
import InfinityBridge.Wire.Error
import InfinityBridge.Wire.Msg
import InfinityBridge.Wire.RoundTrip
import InfinityBridge.Wire.Literal
import InfinityBridge.Wasm.Bridge
import InfinityBridge.Wasm.Router
import InfinityBridge.Host.Hub
import InfinityBridge.Host.Calls
import InfinityBridge.Host.Frames
import InfinityBridge.Host.Delivery
import InfinityBridge.Host.Abandoned
import InfinityBridge.Host.Correlation
import InfinityBridge.Host.Pending
import InfinityBridge.Host.WaitConnected
import InfinityBridge.Host.Server
import InfinityBridge.Host.Reaping
import InfinityBridge.Host.Outbound
import InfinityBridge.Host.Locks
import InfinityBridge.Host.Progress
import InfinityBridge.Host.Inbound
import InfinityBridge.Host.Registry
import InfinityBridge.Relay.Script
import InfinityBridge.Relay.Messages
import InfinityBridge.Relay.Dedup
import InfinityBridge.Relay.State
import InfinityBridge.Relay.Ring
import InfinityBridge.Relay.Callbacks
import InfinityBridge.Relay.Timers
import InfinityBridge.Relay.Books
import InfinityBridge.Relay.Accounting
import InfinityBridge.Relay.Traffic
import InfinityBridge.Relay.Acks
import InfinityBridge.Relay.Destroy
import InfinityBridge.Relay.Sockets
import InfinityBridge.Relay.Output
import InfinityBridge.Relay.Handshake
import InfinityBridge.Relay.Progress
import InfinityBridge.Relay.Diagnosis
import InfinityBridge.Relay.Replies
import InfinityBridge.Relay.Malformed
import InfinityBridge.Relay.Retransmission
import InfinityBridge.Relay.Requests
import InfinityBridge.Relay.Twins
import InfinityBridge.EndToEnd.Fidelity
import InfinityBridge.EndToEnd.Answers
import InfinityBridge.EndToEnd.World
import InfinityBridge.EndToEnd.Provenance
import InfinityBridge.EndToEnd.Correctness
import InfinityBridge.EndToEnd.Moves
import InfinityBridge.EndToEnd.Events
import InfinityBridge.EndToEnd.Timeouts
import InfinityBridge.EndToEnd.Results
import InfinityBridge.EndToEnd.Turns
import InfinityBridge.EndToEnd.Reports
import InfinityBridge.EndToEnd.Channel
import InfinityBridge.EndToEnd.Readiness
import InfinityBridge.EndToEnd.Readers
import InfinityBridge.EndToEnd.Interchange
import InfinityBridge.EndToEnd.SharedBus
