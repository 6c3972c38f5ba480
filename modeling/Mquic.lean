import Mquic.Lib.Varint
import Mquic.Lib.Lts
import Mquic.Lib.Framing
import Mquic.Codec.Varint
import Mquic.Server.Wire
import Mquic.Client.Main
import Mquic.Client.Receiver
import Mquic.Client.Delivery
import Mquic.Client.Interleave
import Mquic.Client.Jpeg
import Mquic.Client.Wt
import Mquic.Client.WtReceiver
import Mquic.Client.WtTermination
import Mquic.Client.WtIsolation
import Mquic.Client.WtDelivery
import Mquic.Client.WtGranularity
import Mquic.Server.Handoff
import Mquic.Server.Network
import Mquic.Server.Streams
import Mquic.Server.Lifecycle
import Mquic.Server.Accept
import Mquic.Server.Exclusive
import Mquic.Server.Isolation
import Mquic.Client.Granularity
import Mquic.Server.Accounting
import Mquic.Client.WtCalls
import Mquic.Client.WtMemory
import Mquic.Client.WtAuth
import Mquic.H3.Qpack
import Mquic.H3.Chunks
import Mquic.H3.Connect
import Mquic.H3.Response
import Mquic.H3.Lines
import Mquic.H3.Request
import Mquic.Server.Bindings
import Mquic.Server.Indices
import Mquic.Server.Release
import Mquic.Server.Dangling
import Mquic.Lib.Loop
import Mquic.Server.Pacing
import Mquic.Client.Rounds
import Mquic.Client.Termination
import Mquic.Client.Limit
import Mquic.Client.Memory
import Mquic.Client.Scanner
import Mquic.Client.WtParts
import Mquic.Client.WtLimit
import Mquic.Server.Refusal
import Mquic.Client.WtRaw
import Mquic.Server.Fins
import Mquic.H3.Control
import Mquic.H3.Callback
import Mquic.H3.Arrival
import Mquic.H3.Varints
import Mquic.Lib.Argmin
import Mquic.Server.Selector
import Mquic.Server.Probing
import Mquic.H3.Capsule
import Mquic.Client.WtRounds
import Mquic.H3.Remote
import Mquic.H3.LocalStream
import Mquic.Server.Pipeline
import Mquic.Client.WtPipeline
import Mquic.H3.Registry
import Mquic.H3.Datagram
import Mquic.H3.Blocks
import Mquic.H3.Answer
import Mquic.H3.Upload
import Mquic.H3.Settings
import Mquic.H3.Huffman
import Mquic.H3.Commands
