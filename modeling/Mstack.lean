import Mstack.Lib.EventSystem
import Mstack.Lib.Simulation
import Mstack.Lib.Drain
import Mstack.Lib.Component
import Mstack.Lib.Medium
import Mstack.Lib.BigEndian
import Mstack.Lib.CircularBuffer
import Mstack.Lib.SerialNumber
import Mstack.Lib.SendWindow
import Mstack.Lib.OnesComplement
import Mstack.Lib.ReceiveWindow
import Mstack.Lib.FifoStage
import Mstack.Lib.Rendezvous
import Mstack.Lib.LatestTable
import Mstack.Tcp.Segment
import Mstack.Tcp.Options
import Mstack.Tcp.Tcb
import Mstack.Tcp.Process
import Mstack.Tcp.Event
import Mstack.Tcp.Spec
import Mstack.Tcp.Outcome
import Mstack.Tcp.Guard
import Mstack.Tcp.Induction
import Mstack.Tcp.Control
import Mstack.Tcp.Diagram
import Mstack.Tcp.LifeCycle
import Mstack.Tcp.SendStream
import Mstack.Tcp.ReceiveStream
import Mstack.Tcp.Handshake
import Mstack.Tcp.Conservation
import Mstack.Tcp.InOrder
import Mstack.Tcp.Duplex
import Mstack.Tcp.Channel
import Mstack.Tcp.Integrity
import Mstack.Tcp.Translation
import Mstack.Tcp.WrapSafety
import Mstack.Tcp.InFlight
import Mstack.Tcp.Overrun
import Mstack.Tcp.Readers
import Mstack.Tcp.PureAck
import Mstack.Tcp.Acceptability
import Mstack.Tcp.OptionArea
import Mstack.Net.Headers
import Mstack.Net.Layers
import Mstack.Net.RawFlow
import Mstack.Net.Encapsulation
import Mstack.Net.Netns
import Mstack.Net.Resolve
import Mstack.Net.HopOrder
import Mstack.Net.Pipeline
import Mstack.Net.Sealing
import Mstack.Net.Extent
import Mstack.Net.Neighbours
import Mstack.Net.Device
import Mstack.Net.Manager
import Mstack.Net.Interceptor
import Mstack.Net.Acceptor
import Mstack.Net.Codec
import Mstack.Tcp.Reset
import Mstack.Net.Withdrawal
import Mstack.Net.Connect
import Mstack.Net.Stray
import Mstack.Tcp.SendQueue
import Mstack.Tcp.SendLoop
import Mstack.Net.Destinations
import Mstack.Net.LengthFields
import Mstack.Tcp.Socket
import Mstack.Tcp.OptionSafety
import Mstack.Tcp.Outbox
import Mstack.Tcp.Mss
import Mstack.Tcp.Delivery
import Mstack.Net.Station
import Mstack.Net.Wire
import Mstack.Net.Connections
import Mstack.Tcp.Echo
import Mstack.Tcp.RoundTrip
import Mstack.Tcp.Return
import Mstack.Net.Server
import Mstack.Net.Host
import Mstack.Net.Upkeep
import Mstack.Net.Lan
