import Girth.Lib.Machine
import Girth.Lib.Call
import Girth.Lib.Bytes
import Girth.Lib.BitSet
import Girth.Lib.Tiling
import Girth.Lib.Checked
import Girth.Lib.Deadline
import Girth.Lib.Float
import Girth.Lib.Contraction
import Girth.Lib.UnixPath
import Girth.Lib.Text
import Girth.Lib.Stream
import Girth.Protocol
import Girth.Codec
import Girth.Crypto
import Girth.Handshake
import Girth.Stats
import Girth.Rate
import Girth.RateConvergence
import Girth.Io
import Girth.Integrity
import Girth.Losstracker
import Girth.LossInvariant
import Girth.NackTiming
import Girth.Receiver.Packet
import Girth.Receiver.Machine
import Girth.Receiver.Steps
import Girth.Receiver.Custody
import Girth.Receiver.Scan
import Girth.Receiver.Outcome
import Girth.Receiver.Stranded
import Girth.Receiver.DoneReport
import Girth.Receiver.Payload
import Girth.Receiver.Isolation
import Girth.Receiver.Pool
import Girth.Receiver.Faults
import Girth.Receiver.Counters
import Girth.Receiver.Rtt
import Girth.Receiver.Threads
import Girth.Receiver.Shutdown
import Girth.Receiver.Unharmed
import Girth.Receiver.Drive
import Girth.Sender.Pdu
import Girth.Sender.Machine
import Girth.Sender.Steps
import Girth.Sender.Wire
import Girth.Sender.Injection
import Girth.Sender.Nacks
import Girth.Sender.Retransmit
import Girth.Sender.Segmentation
import Girth.Sender.Pacing
import Girth.Sender.Pool
import Girth.Sender.Shutdown
import Girth.Sender.Drive
import Girth.EndToEnd
import Girth.Control
import Girth.Server.Limits
import Girth.Server.Ceiling
import Girth.Server.Transcript
import Girth.Server.Conn
import Girth.Server.Access
import Girth.Server.Rejection
import Girth.Server.Names
import Girth.Client.Session
import Girth.Client.Outcome
import Girth.Client.WarmStart
import Girth.Client.Reply
import Girth.Client.Classify
import Girth.Client.Cancel
import Girth.Loop.Machine
import Girth.Loop.Rate
import Girth.Loop.Ticks
import Girth.Loop.Progress
import Girth.Loop.Completion
import Girth.Loop.LateStop
import Girth.Loop.Forgery
import Girth.Loop.Lossy
import Girth.Loop.Recovery
import Girth.Service
import Girth.Agreement
import Girth.Message
import Girth.Sys.Batch
import Girth.Sys.RioRecv
import Girth.Sys.RioSend
