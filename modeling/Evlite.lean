import Evlite.Event.Clock
import Evlite.Event.Count
import Evlite.Event.Destroy
import Evlite.Event.Epoll
import Evlite.Event.Interest
import Evlite.Event.Knotes
import Evlite.Event.Kqueue
import Evlite.Event.Membership
import Evlite.Event.Order
import Evlite.Event.Pieces
import Evlite.Event.ProcessActive
import Evlite.Event.Ticks
import Evlite.Event.Timeout
import Evlite.Kcp.Answers
import Evlite.Kcp.Calls
import Evlite.Kcp.Clock
import Evlite.Kcp.Control
import Evlite.Kcp.Conversation
import Evlite.Kcp.Datagrams
import Evlite.Kcp.Driver
import Evlite.Kcp.Flush
import Evlite.Kcp.Input
import Evlite.Kcp.Messages
import Evlite.Kcp.Packing
import Evlite.Kcp.Peers
import Evlite.Kcp.Progress
import Evlite.Kcp.Ready
import Evlite.Kcp.ReceiveWindow
import Evlite.Kcp.SendWindow
import Evlite.Kcp.Timing
import Evlite.Kcp.Transfer
import Evlite.Kcp.Transmit
import Evlite.Kcp.Wire
import Evlite.Lib.Blocks
import Evlite.Lib.Chain
import Evlite.Lib.Chaining
import Evlite.Lib.Custody
import Evlite.Lib.Drain
import Evlite.Lib.History
import Evlite.Lib.Polling
import Evlite.Lib.Ring
import Evlite.Lib.Serial
import Evlite.Lib.SlidingWindow
import Evlite.Lib.Tally
import Evlite.Lib.Transducer
import Evlite.Lib.Traversal
import Evlite.Message.Buffer
import Evlite.Message.Stream
import Evlite.Network.Accept
import Evlite.Network.Broadcast
import Evlite.Network.Connect
import Evlite.Network.Endpoints
import Evlite.Network.EpMemory
import Evlite.Network.Linked
import Evlite.Network.Listen
import Evlite.Network.SendResult
import Evlite.Queue.Fifo
import Evlite.Queue.Queue
import Evlite.Session.Connections
import Evlite.Session.Drain
import Evlite.Session.Exiting
import Evlite.Session.Flags
import Evlite.Session.Lifetime
import Evlite.Session.Manager
import Evlite.Session.Reattach
import Evlite.Session.Reconnect
import Evlite.Session.Reuse
import Evlite.Session.SendQueueLimit
import Evlite.Session.SharedWrites
import Evlite.Session.StaleIds
import Evlite.Session.Tasks
import Evlite.Threads.Delivery
import Evlite.Threads.Post
import Evlite.Threads.Wakeup
