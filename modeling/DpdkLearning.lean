import DpdkLearning.Stack.RecvStream
import DpdkLearning.Stack.FdOwnership
import DpdkLearning.Stack.FailedCalls
import DpdkLearning.Stack.Inbound
import DpdkLearning.Stack.ConnTable
import DpdkLearning.Stack.Accept
import DpdkLearning.Stack.PeerStream
import DpdkLearning.Stack.SendSequence
import DpdkLearning.Stack.SendQueue
import DpdkLearning.Stack.WireFormat
import DpdkLearning.Stack.Teardown
import DpdkLearning.Stack.ReadyList
import DpdkLearning.Stack.Readiness
import DpdkLearning.Stack.MbufDisposition
import DpdkLearning.Stack.UdpRead
import DpdkLearning.Stack.OutputOrder
import DpdkLearning.Stack.RingNames
import DpdkLearning.Stack.SendsKept
import DpdkLearning.Stack.UdpEncoding
import DpdkLearning.Stack.EventMasks
import DpdkLearning.Stack.EventsOnce
import DpdkLearning.Stack.Registry
import DpdkLearning.Stack.FdBitmap
import DpdkLearning.Stack.ArpTable
import DpdkLearning.Stack.IntrusiveList
import DpdkLearning.Stack.Checksum
import DpdkLearning.Stack.CountBit
import DpdkLearning.Stack.CaptureWindow
import DpdkLearning.Vhost.Transmit
import DpdkLearning.Vhost.Receive
import DpdkLearning.Vhost.Features
import DpdkLearning.Vhost.Safety
import DpdkLearning.Vhost.Translation
import DpdkLearning.Vring.Delivery
import DpdkLearning.Vring.Conservation
import DpdkLearning.Dns.Counts
import DpdkLearning.Dns.Encoding
import DpdkLearning.Dns.ResponseSize
import DpdkLearning.Dns.Reads
import DpdkLearning.Vhost.UsedRing
import DpdkLearning.Vhost.RxCopies
import DpdkLearning.Flowtable.Targets
import DpdkLearning.Flowtable.Rotation
import DpdkLearning.VhostUser.Conservation
import DpdkLearning.VhostUser.Reclaim
import DpdkLearning.VhostUser.Drops
import DpdkLearning.VhostUser.Requests
import DpdkLearning.VhostUser.Progress
import DpdkLearning.VhostUser.Wakeups
