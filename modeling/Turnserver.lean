import Turnserver.Base.Bounds
import Turnserver.Base.ChannelType
import Turnserver.Base.PackedFrame
import Turnserver.Base.Reflection
import Turnserver.Base.Reuse
import Turnserver.Base.StringRef
import Turnserver.Base.VariableInteger
import Turnserver.Json.JsonFile
import Turnserver.Json.Meaning
import Turnserver.Json.PrintParse
import Turnserver.Json.Minify
import Turnserver.Json.Integers
import Turnserver.Json.SetGet
import Turnserver.Json.Coherence
import Turnserver.Json.Ownership
import Turnserver.Lbs.ConnectionPointers
import Turnserver.Memory.SpanViews
import Turnserver.Memory.RefCount
import Turnserver.Memory.SliceMoves
import Turnserver.Memory.MemProxy
import Turnserver.Network.AddressOrder
import Turnserver.Network.Backoff
import Turnserver.Network.ConnectionLifetime
import Turnserver.Network.FrameReads
import Turnserver.Network.PacketStream
import Turnserver.Network.SockAddr
import Turnserver.Worker.ArgusReport
import Turnserver.Worker.ElbsConnection
import Turnserver.Worker.EdgeConversation
import Turnserver.Worker.RejoinRequest
import Turnserver.Worker.Response
import Turnserver.Worker.Conversation
import Turnserver.Worker.ManagerConnection
import Turnserver.Lib.Varint
import Turnserver.Lib.Simulation
import Turnserver.Thrift.TMemoryBuffer
import Turnserver.Thrift.TCompactProtocol
import Turnserver.Thrift.CompactNumbers
import Turnserver.Thrift.CompactTransports
import Turnserver.Thrift.CompactErrors
import Turnserver.Thrift.CompactWire
import Turnserver.Thrift.CompactSkip
import Turnserver.Thrift.Generated
import Turnserver.Thrift.GeneratedReads
import Turnserver.Thrift.GeneratedWrites
import Turnserver.Thrift.GeneratedErrors
import Turnserver.Thrift.RoundTrip
import Turnserver.Thrift.Messages
import Turnserver.Thrift.ReportItem
import Turnserver.Worker.ReportPayload
import Turnserver.Lbs.BalancerView
