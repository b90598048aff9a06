import Dynpm.Verification.MessageQueue.Exactness
import Dynpm.Verification.Server.Reassembly
import Dynpm.Verification.Server.Sends
import Dynpm.Verification.Server.HostField
import Dynpm.Verification.Server.Upstream
import Dynpm.Verification.Server.Cascade
import Dynpm.Verification.Server.Identity
import Dynpm.Verification.Server.Locks
import Dynpm.Verification.Server.PortRange
import Dynpm.Verification.Server.ClientList
import Dynpm.Verification.Server.Pool
import Dynpm.Verification.Server.Order
import Dynpm.Verification.Locks.Deadlock
import Dynpm.Verification.Protocol.TextRoundTrip
import Dynpm.Verification.Protocol.RegisterProcessManager
import Dynpm.Verification.Protocol.PayloadRoundTrip
import Dynpm.Verification.Protocol.Determinism
import Dynpm.Verification.Protocol.ManagerDeterminism
import Dynpm.Verification.Protocol.Bounds
import Dynpm.Verification.Protocol.Capacities
import Dynpm.Verification.Protocol.Losses
import Dynpm.Verification.Protocol.Reentrancy
import Dynpm.Verification.Protocol.Headers
import Dynpm.Verification.Config.Tables
import Dynpm.Verification.Config.RoundTrip
import Dynpm.Verification.Tbon.Edges
import Dynpm.Verification.Tbon.Vertex
import Dynpm.Verification.Tbon.Broadcast
import Dynpm.Verification.Tbon.Network
import Dynpm.Verification.Tbon.PartialBroadcast
import Dynpm.Verification.Tbon.Hosts
import Dynpm.Verification.Tbon.Wait
import Dynpm.Verification.Client.Close
import Dynpm.Verification.Client.FailedConnect
import Dynpm.Verification.Client.Reassembly
import Dynpm.Verification.Client.Connecting
import Dynpm.Verification.Client.Sends
import Dynpm.Verification.WorkQueue.Delivery
import Dynpm.Verification.WorkQueue.Order
import Dynpm.Verification.WorkQueue.Links
import Dynpm.Verification.Shm.Broadcast
import Dynpm.Verification.Shm.Capacity
import Dynpm.Verification.Shm.Progress
import Dynpm.Verification.Shm.Malleability
import Dynpm.Verification.Shm.Lifecycle
import Dynpm.Verification.Shm.Names
import Dynpm.Verification.Delivery.Messages
import Dynpm.Verification.Delivery.Identities
