import AsioTcpFrame.Lib.Transition
import AsioTcpFrame.Lib.Trace
import AsioTcpFrame.Lib.Slots
import AsioTcpFrame.Lib.Framing
import AsioTcpFrame.Lib.Incremental
import AsioTcpFrame.Lib.LockOrder
import AsioTcpFrame.Lib.Lifetime
import AsioTcpFrame.Lib.TotalOrder
import AsioTcpFrame.Config
import AsioTcpFrame.Packet
import AsioTcpFrame.Session
import AsioTcpFrame.Receiver
import AsioTcpFrame.Handlers
import AsioTcpFrame.Stopping
import AsioTcpFrame.Sender
import AsioTcpFrame.Connection
import AsioTcpFrame.StopFlag
import AsioTcpFrame.Client
import AsioTcpFrame.Lib.Window
import AsioTcpFrame.Streambuf
import AsioTcpFrame.SendBuffer
import AsioTcpFrame.Server
import AsioTcpFrame.Deadlock
import AsioTcpFrame.Ownership
import AsioTcpFrame.ServerRoles
import AsioTcpFrame.ServerProtocol
import AsioTcpFrame.WriteFailure
import AsioTcpFrame.HeaderGuard
import AsioTcpFrame.WriteExact
import AsioTcpFrame.ServerUdp
import AsioTcpFrame.ClientUdp
import AsioTcpFrame.CloseAll
import AsioTcpFrame.Handles
import AsioTcpFrame.Rearming
import AsioTcpFrame.ServerLifetime
import AsioTcpFrame.Lifetime
import AsioTcpFrame.Broadcast
import AsioTcpFrame.Traffic
import AsioTcpFrame.ServerTraffic
import AsioTcpFrame.ClientMessages
import AsioTcpFrame.Network
import AsioTcpFrame.Attendance
import AsioTcpFrame.Delivery
import AsioTcpFrame.Returning
import AsioTcpFrame.ReceiveBufferSize
import AsioTcpFrame.MemoryConnection
import AsioTcpFrame.Failures
import AsioTcpFrame.Regions
import AsioTcpFrame.UdpNetwork
import AsioTcpFrame.NetworkAnswers
