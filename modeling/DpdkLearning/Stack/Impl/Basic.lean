import DpdkLearning.Lib.Fifo
import DpdkLearning.Lib.ObjList

/-!
This module contains the data of the user space TCP/UDP stack of `tcp_concurrency.c`: the packets that
come in, the fragments and streams, the event poll and the tables they live in.
-/

open Lib

namespace NgStack

abbrev Addr := Nat

abbrev MacAddr := Vector UInt8 6

def ringSize : Nat := 1024

def bufferSize : Nat := 1024

def ipprotoTcp : UInt8 := 6

def ipprotoUdp : UInt8 := 17

def sockStream : Int := 1

def sockDgram : Int := 2

def rteEtherTypeIpv4 : UInt16 := 0x0800

def rteTcpFinFlag : UInt8 := 0x01

def rteTcpSynFlag : UInt8 := 0x02

def rteTcpPshFlag : UInt8 := 0x08

def rteTcpAckFlag : UInt8 := 0x10

def tcpInitialWindow : UInt16 := 14600

def tcpMaxSeq : UInt32 := 4294967295

def epollin : UInt32 := 0x0001

def epollerr : UInt32 := 0x0008

def epollhup : UInt32 := 0x0010

def epollCtlAdd : Int := 1

def epollCtlDel : Int := 2

def epollCtlMod : Int := 3

def ntohs (x : UInt16) : UInt16 :=
  (x >>> 8) ||| (x <<< 8)

def htons (x : UInt16) : UInt16 :=
  ntohs x

def ntohl (x : UInt32) : UInt32 :=
  (x >>> 24) ||| ((x >>> 8) &&& (0xFF00 : UInt32)) ||| ((x <<< 8) &&& (0xFF0000 : UInt32)) ||| (x <<< 24)

def htonl (x : UInt32) : UInt32 :=
  ntohl x

/--
Why a call does not come back to its caller.
-/
inductive Halt where
  /-- It waits on a condition variable nobody has signalled. -/
  | blocked
  /-- `rte_exit` -/
  | exited
  | nullPointer
  /-- It follows a pointer to freed memory or to an object of another type. -/
  | wildPointer
  /-- It hands memory that is not from `malloc` to `free`. -/
  | aborted
  deriving DecidableEq, Repr

/--
The name a ring is registered under, a C string.
-/
abbrev RingName := List Char

structure RteRing (α : Type) where
  name : RingName
  -- A ring of size `RING_SIZE` holds one entry less.
  queue : Fifo α (ringSize - 1)

namespace RteRing

variable {α : Type}

def items (r : RteRing α) : List α :=
  r.queue.items

def full (r : RteRing α) : Bool :=
  r.queue.full

end RteRing

/--
`rte_ring_mp_enqueue`, whose return value no caller looks at.
-/
def rteRingMpEnqueue {α : Type} (r : RteRing α) (x : α) : RteRing α :=
  { r with queue := r.queue.push x }

def rteRingMcDequeue {α : Type} (r : RteRing α) : Option (α × RteRing α) :=
  match r.queue.pop with
  | none => none
  | some (x, queue) => some (x, { r with queue })

/--
`rte_ring_create` fails when the name is taken, or for reasons of its own (`ok = false`).
-/
def rteRingCreate {α : Type} (ok : Bool) (names : List RingName) (name : RingName)
    : Option (RteRing α) × List RingName :=
  if ok && !names.contains name then
    (some ⟨name, .empty⟩, name :: names)
  else
    (none, names)

def rteRingFree {α : Type} (names : List RingName) (r : Option (RteRing α)) : List RingName :=
  match r with
  | none => names
  | some r => names.erase r.name

inductive NgTcpStatus where
  | closed
  | listen
  | synRcvd
  | synSent
  | established
  | finWait1
  | finWait2
  | closing
  | timeWait
  | closeWait
  | lastAck
  deriving DecidableEq, Repr

structure NgTcpFragment where
  sport : UInt16
  dport : UInt16
  seqnum : UInt32
  acknum : UInt32
  hdrlenOff : UInt8
  tcpFlags : UInt8
  windows : UInt16
  tcpUrp : UInt16
  optlen : Int
  data : Option (List UInt8)
  length : UInt32
  deriving DecidableEq, Inhabited, Repr

/--
The fragment `memset(fragment, 0, sizeof(struct ng_tcp_fragment))` leaves.
-/
def NgTcpFragment.zero : NgTcpFragment where
  sport := 0
  dport := 0
  seqnum := 0
  acknum := 0
  hdrlenOff := 0
  tcpFlags := 0
  windows := 0
  tcpUrp := 0
  optlen := 0
  data := none
  length := 0

/--
The bytes a reader of the fragment gets.
-/
def NgTcpFragment.bytes (f : NgTcpFragment) : List UInt8 :=
  (f.data.getD []).take f.length.toNat

structure NgTcpStream where
  fd : Int
  dip : UInt32
  localmac : MacAddr
  dport : UInt16
  protocol : UInt8
  sport : UInt16
  sip : UInt32
  sndNxt : UInt32
  rcvNxt : UInt32
  status : NgTcpStatus
  sndbuf : Option (RteRing NgTcpFragment)
  rcvbuf : Option (RteRing NgTcpFragment)

structure Offload where
  sip : UInt32
  dip : UInt32
  sport : UInt16
  dport : UInt16
  protocol : Int
  data : List UInt8
  length : UInt16
  deriving DecidableEq, Repr

structure Localhost where
  fd : Int
  localip : UInt32
  localmac : MacAddr
  localport : UInt16
  protocol : UInt8
  sndbuf : Option (RteRing Offload)
  rcvbuf : Option (RteRing Offload)

/--
`struct epoll_event`. Of the union `epoll_data` only the member `fd` is used.
-/
structure EpollEvent where
  events : UInt32
  fd : Int
  deriving DecidableEq, Inhabited, Repr

structure Epitem where
  rdy : Int
  sockfd : Int
  event : EpollEvent
  deriving DecidableEq, Inhabited, Repr

/--
`rdnum` is an `int` in the source, which holds it as long as there are fewer than 2^31 items.
-/
structure Eventpoll where
  fd : Int
  -- The set of items that `RB_FIND`, `RB_INSERT` and `RB_REMOVE` keep in the tree.
  rbr : ObjList Epitem
  rbcnt : Int32
  rdlist : List Addr
  rdnum : Int

structure ArpEntry where
  ip : UInt32
  hwaddr : MacAddr
  deriving DecidableEq, Repr

/--
`arp_table` with a counter of the type `ι`. In the source it is an `int`, `Int32`. The table of the stack is
taken with a counter that does not overflow.
-/
structure ArpTable (ι : Type) where
  entries : List ArpEntry
  count : ι
  deriving DecidableEq, Repr

structure NgTcpTable where
  ep : Option Eventpoll
  tcbSet : ObjList NgTcpStream

abbrev FdTable := Nat → UInt8

/--
The globals of the program.
-/
structure Stack where
  fdTable : FdTable
  lhost : ObjList Localhost
  table : NgTcpTable
  arpt : ArpTable Int
  ringNames : List RingName
  gSrcMac : MacAddr
  -- The mbufs that `rte_pktmbuf_free` has given back.
  mempool : List Addr

def Stack.init : Stack where
  fdTable := fun _ => 0
  lhost := .empty
  table := { ep := none, tcbSet := .empty }
  arpt := { entries := [], count := 0 }
  ringNames := []
  gSrcMac := .replicate 6 0
  mempool := []

namespace Stack

def stream? (s : Stack) (a : Addr) : Option NgTcpStream :=
  s.table.tcbSet.get? a

def modifyStream (s : Stack) (a : Addr) (f : NgTcpStream → NgTcpStream) : Stack :=
  { s with table.tcbSet := s.table.tcbSet.modify a f }

def setEp (s : Stack) (ep : Eventpoll) : Stack :=
  { s with table.ep := some ep }

end Stack

structure RteEtherHdr where
  sAddr : MacAddr
  etherType : UInt16

structure RteIpv4Hdr where
  totalLength : UInt16
  nextProtoId : UInt8
  srcAddr : UInt32
  dstAddr : UInt32

structure RteTcpHdr where
  srcPort : UInt16
  dstPort : UInt16
  sentSeq : UInt32
  recvAck : UInt32
  dataOff : UInt8
  tcpFlags : UInt8
  cksum : UInt16

structure RteUdpHdr where
  srcPort : UInt16
  dstPort : UInt16
  dgramLen : UInt16

/--
A received packet: its headers with their fields as they lie in memory, and the memory from the end
of the IP header on.
-/
structure Mbuf where
  addr : Addr
  eth : RteEtherHdr
  ip : RteIpv4Hdr
  tcp : RteTcpHdr
  udp : RteUdpHdr
  l4 : Nat → UInt8

/--
`tcp_flags & flag` as a condition.
-/
def hasFlag (tcpFlags flag : UInt8) : Bool :=
  tcpFlags &&& flag != 0

def rteMemcpy (buf : Nat → UInt8) (data : List UInt8) (n : Nat) : Nat → UInt8 :=
  fun i => if i < n then data.getD i 0 else buf i

/--
What a call gets from outside: which of its allocations succeed, in the order in which it asks for
them, what the memory it gets held before, and the results of library functions.
-/
structure Env where
  rteMalloc : Nat → Bool
  rteRingCreate : Nat → Bool
  pthreadInit : Nat → Bool
  pthreadCondTimedwait : Bool
  rtePktmbufAlloc : Nat → Bool
  -- What `ring->out` holds when a pass comes to the socket or stream at the address. `main` empties it.
  ringOut : Addr → Nat
  randR : UInt32
  rteIpv4UdptcpCksum : Mbuf → UInt16
  -- The memory behind an allocation, for a copy that reads past its end.
  heap : Nat → UInt8
  staleFragment : NgTcpFragment
  staleStream : NgTcpStream
  staleEpitem : Epitem
  staleEventpoll : Eventpoll

/--
`rte_ring_mp_enqueue_burst` puts the frame for the socket or stream at `a` on `ring->out`. Nobody looks at
what it returns.
-/
def Env.outRoom (env : Env) (a : Addr) : Bool :=
  decide (env.ringOut a < ringSize - 1)

/--
The outside for the part of a call after its first `n` allocations.
-/
def Env.after (env : Env) (n : Nat) : Env :=
  { env with rteMalloc := fun i => env.rteMalloc (n + i) }

namespace Stack

def rtePktmbufFree (s : Stack) (m : Mbuf) : Stack :=
  { s with mempool := m.addr :: s.mempool }

end Stack

end NgStack
