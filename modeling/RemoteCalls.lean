import RemoteCalls.Abort
import RemoteCalls.Arithmetic.Link
import RemoteCalls.Arithmetic.Operands
import RemoteCalls.Arithmetic.Server
import RemoteCalls.Bytes
import RemoteCalls.Bytes.Lemmas
import RemoteCalls.Call.Board
import RemoteCalls.Call.Handoff
import RemoteCalls.Call.Monitor
import RemoteCalls.Call.Queue
import RemoteCalls.Call.Registry
import RemoteCalls.Client.Dial
import RemoteCalls.Client.Open
import RemoteCalls.Client.Receiver
import RemoteCalls.Client.Run
import RemoteCalls.Client.Sender
import RemoteCalls.Client.State
import RemoteCalls.CommandLine.Arguments
import RemoteCalls.CommandLine.Config
import RemoteCalls.CommandLine.Program
import RemoteCalls.Connection.Catalog
import RemoteCalls.Connection.Preamble
import RemoteCalls.Fault
import RemoteCalls.Log
import RemoteCalls.Main
import RemoteCalls.Message.Body
import RemoteCalls.Message.Codec
import RemoteCalls.Message.Frame
import RemoteCalls.Message.Header
import RemoteCalls.Proofs.Arithmetic.EndToEnd
import RemoteCalls.Proofs.Arithmetic.Ending
import RemoteCalls.Proofs.Arithmetic.Matching
import RemoteCalls.Proofs.Arithmetic.Service
import RemoteCalls.Proofs.Arithmetic.Serving
import RemoteCalls.Proofs.Arithmetic.Session
import RemoteCalls.Proofs.Arithmetic.Settlement
import RemoteCalls.Proofs.Board.Operations
import RemoteCalls.Proofs.Board.Sparing
import RemoteCalls.Proofs.Client.Capacity
import RemoteCalls.Proofs.Client.Contention
import RemoteCalls.Proofs.Client.Custody
import RemoteCalls.Proofs.Client.CutOff
import RemoteCalls.Proofs.Client.Delivery
import RemoteCalls.Proofs.Client.Holding
import RemoteCalls.Proofs.Client.Intake
import RemoteCalls.Proofs.Client.Lifecycle
import RemoteCalls.Proofs.Client.Moves
import RemoteCalls.Proofs.Client.Opening
import RemoteCalls.Proofs.Client.Progress
import RemoteCalls.Proofs.Client.Reordering
import RemoteCalls.Proofs.Client.Requests
import RemoteCalls.Proofs.Client.Responses
import RemoteCalls.Proofs.Client.Rest
import RemoteCalls.Proofs.Client.Schedule
import RemoteCalls.Proofs.Client.SendFailure
import RemoteCalls.Proofs.Client.SoleCall
import RemoteCalls.Proofs.Client.Sparing
import RemoteCalls.Proofs.Client.Transfers
import RemoteCalls.Proofs.Client.Turns
import RemoteCalls.Proofs.Client.Walk
import RemoteCalls.Proofs.CommandLine.Integers
import RemoteCalls.Proofs.CommandLine.Items
import RemoteCalls.Proofs.CommandLine.Wire
import RemoteCalls.Proofs.Connection.Agreement
import RemoteCalls.Proofs.Connection.Preamble
import RemoteCalls.Proofs.Message.Atomicity
import RemoteCalls.Proofs.Message.Conversation
import RemoteCalls.Proofs.Message.Format
import RemoteCalls.Proofs.Message.Framing
import RemoteCalls.Proofs.Message.RoundTrip
import RemoteCalls.Proofs.Registry.History
import RemoteCalls.Proofs.Registry.Laws
import RemoteCalls.Proofs.Registry.Termination
import RemoteCalls.Proofs.Stream.Plain
import RemoteCalls.Proofs.Transport.Contracts
import RemoteCalls.Proofs.Transport.Lossless
import RemoteCalls.Proofs.Transport.Uptake
import RemoteCalls.Proofs.Value.FullSink
import RemoteCalls.Proofs.Value.Reporting
import RemoteCalls.Proofs.Value.RoundTrip
import RemoteCalls.Proofs.Value.Sequence
import RemoteCalls.Proofs.Value.Truncation
import RemoteCalls.Status
import RemoteCalls.Stream.Condition
import RemoteCalls.Stream.Sink
import RemoteCalls.Stream.Source
import RemoteCalls.Transport.ByteStream
import RemoteCalls.Transport.Memory
import RemoteCalls.Transport.Network
import RemoteCalls.Transport.Socket
import RemoteCalls.Value.Read
import RemoteCalls.Value.Ty
import RemoteCalls.Value.Write
import RemoteCalls.Proofs.Connection.Forms
import RemoteCalls.Proofs.Value.Blocks
import RemoteCalls.Proofs.Monitor.Fifo
import RemoteCalls.Proofs.Monitor.Wakeups
