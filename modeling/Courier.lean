import Courier.Amqp.Code
import Courier.Amqp.Value
import Courier.Amqp.Timestamp
import Courier.Number.Shortest
import Courier.Text.Hex
import Courier.Text.Utf8
import Courier.Text.Printable
import Courier.Text.Base64
import Courier.Amqp.Show
import Courier.Bytes.BigEndian
import Courier.Amqp.Error
import Courier.Amqp.Encode
import Courier.Amqp.Decode
import Courier.Amqp.Lookup
import Courier.Text.Quoted
import Courier.Amqp.Frame
import Courier.Hash.XXH64
import Courier.Hash.Ring
import Courier.Queue.Chunked
import Courier.Queue.Linked
import Courier.Dispatch.Priority
import Courier.Dispatch.Timer.Basic
import Courier.Dispatch.Timer.Probe
import Courier.Dispatch.Balancer.Basic
import Courier.Dispatch.Balancer.Probe
import Courier.Dispatch.Task
import Courier.Dispatch.Fault
import Courier.Dispatch.State
import Courier.Dispatch.Post
import Courier.Dispatch.Run
import Courier.Dispatch.Control
import Courier.Dispatch.Partitioned
import Courier.Dispatch.Session
import Courier.Dispatch.Wake
import Courier.Bytes.BufferPool
import Courier.Number.Decimal
import Courier.Number.Duration
import Courier.Yaml.Token
import Courier.Yaml.Token.Lexer
import Courier.Yaml.Node
import Courier.Yaml.Scalar
import Courier.Yaml.Document
import Courier.Yaml.Style
import Courier.Config.Basic
import Courier.Config.Load
import Courier.Config.Save
import Courier.Main
import Courier.Proofs.Queue.Fifo
import Courier.Proofs.Queue.Refinement
import Courier.Proofs.Queue.SingleCaller
import Courier.Proofs.Dispatch.Queued
import Courier.Proofs.Dispatch.Ledger
import Courier.Proofs.Dispatch.Posting
import Courier.Proofs.Dispatch.Draining
import Courier.Proofs.Dispatch.Stepping
import Courier.Proofs.Dispatch.Calls
import Courier.Proofs.Dispatch.Protocol
import Courier.Proofs.Dispatch.Traced
import Courier.Proofs.Dispatch.Order
import Courier.Proofs.Amqp.Numbers
import Courier.Proofs.Amqp.Reading
import Courier.Proofs.Amqp.RoundTrip
import Courier.Proofs.Amqp.Inversion
import Courier.Proofs.Amqp.Canonical
import Courier.Proofs.Amqp.Framing
import Courier.Proofs.Amqp.FrameCodec
import Courier.Proofs.Amqp.Elements
import Courier.Proofs.Amqp.Widths
import Courier.Proofs.Amqp.Timestamps
import Courier.Proofs.Hash.Search
import Courier.Proofs.Hash.Calls
import Courier.Proofs.Hash.Placement
import Courier.Proofs.Dispatch.Targets
import Courier.Proofs.Dispatch.Flow
import Courier.Proofs.Dispatch.Conservation
import Courier.Proofs.Dispatch.Wakeup
import Courier.Proofs.Dispatch.TimerLifecycle
import Courier.Proofs.Dispatch.Shutdown
import Courier.Proofs.Dispatch.Counts
import Courier.Proofs.Dispatch.Suspension
import Courier.Proofs.Dispatch.Disposal
import Courier.Proofs.Dispatch.Balancing
import Courier.Proofs.Dispatch.Lanes
import Courier.Proofs.Dispatch.Coalescing
import Courier.Proofs.Dispatch.TimerFiring
import Courier.Proofs.Dispatch.StoppingJob
import Courier.Proofs.Dispatch.Groups
import Courier.Proofs.Dispatch.Partitions
import Courier.Proofs.Dispatch.Marks
import Courier.Proofs.Dispatch.RoundRobin
import Courier.Proofs.Dispatch.Sticking
import Courier.Proofs.Config.Validation
import Courier.Proofs.Dispatch.Visits
