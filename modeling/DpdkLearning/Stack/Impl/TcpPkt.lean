import DpdkLearning.Lib.Memory
import DpdkLearning.Stack.Impl.Tcp

/-!
This module contains how a fragment becomes a frame in the memory of an mbuf, and a frame in memory a
packet with header fields.
-/

open Lib

namespace NgStack

/--
The length of the frame of a fragment. The sum is one of `size_t`, of which `unsigned` keeps 32 bits.
-/
def totalLen (fragment : NgTcpFragment) : UInt32 :=
  (fragment.length.toUInt64 + 14 + 20 + 20 + UInt64.ofInt fragment.optlen * 4).toUInt32

/--
`rte_ipv4_cksum` and `rte_ipv4_udptcp_cksum` of a frame.
-/
structure CksumLib where
  rteIpv4Cksum : Memory → UInt16
  rteIpv4UdptcpCksum : Mbuf → UInt16

/--
The packet whose frame lies in memory.
-/
def Mbuf.ofFrame (addr : Addr) (frame : Memory) : Mbuf where
  addr
  eth :=
    { sAddr := ⟨(frame.load 6 6).toArray, by simp⟩
      etherType := frame.load16 12 }
  ip :=
    { totalLength := frame.load16 16
      nextProtoId := frame 23
      srcAddr := frame.load32 26
      dstAddr := frame.load32 30 }
  tcp :=
    { srcPort := frame.load16 34
      dstPort := frame.load16 36
      sentSeq := frame.load32 38
      recvAck := frame.load32 42
      dataOff := frame 46
      tcpFlags := frame 47
      cksum := frame.load16 50 }
  udp :=
    { srcPort := frame.load16 34
      dstPort := frame.load16 36
      dgramLen := frame.load16 38 }
  l4 := fun i => frame (34 + i)

/--
The Ethernet and the IP header in front of the fragment.
-/
def encodeIpHdr (cksum : CksumLib) (msg : Memory) (sip dip : UInt32) (srcmac dstmac : MacAddr)
    (fragment : NgTcpFragment) : Memory :=
  -- struct rte_ether_hdr
  let msg := msg.store 6 srcmac.toList
  let msg := msg.store 0 dstmac.toList
  let msg := msg.store16 12 (htons rteEtherTypeIpv4)
  -- struct rte_ipv4_hdr
  let msg := msg.store 14 [0x45]
  let msg := msg.store 15 [0]
  let msg := msg.store16 16 (htons ((totalLen fragment).toUInt64 - 14).toUInt16)
  let msg := msg.store16 18 0
  let msg := msg.store16 20 0
  let msg := msg.store 22 [64]
  let msg := msg.store 23 [ipprotoTcp]
  let msg := msg.store32 26 sip
  let msg := msg.store32 30 dip
  let msg := msg.store16 24 0
  msg.store16 24 (cksum.rteIpv4Cksum msg)

/--
The TCP header and the payload. The payload is put behind the options, whatever `hdrlen_off` says.
-/
def encodeTcpHdr (msg : Memory) (fragment : NgTcpFragment) : Memory :=
  let msg := msg.store16 34 fragment.sport
  let msg := msg.store16 36 fragment.dport
  let msg := msg.store32 38 (htonl fragment.seqnum)
  let msg := msg.store32 42 (htonl fragment.acknum)
  let msg := msg.store 46 [fragment.hdrlenOff]
  let msg := msg.store16 48 fragment.windows
  let msg := msg.store16 52 fragment.tcpUrp
  let msg := msg.store 47 [fragment.tcpFlags]
  let msg :=
    match fragment.data with
    | none => msg
    | some _ => msg.store (54 + UInt64.ofInt fragment.optlen * 4).toNat fragment.bytes
  msg.store16 50 0

def ngEncodeTcpApppkt (cksum : CksumLib) (addr : Addr) (msg : Memory) (sip dip : UInt32)
    (srcmac dstmac : MacAddr) (fragment : NgTcpFragment) : Memory :=
  let msg := encodeTcpHdr (encodeIpHdr cksum msg sip dip srcmac dstmac fragment) fragment
  msg.store16 50 (cksum.rteIpv4UdptcpCksum (.ofFrame addr msg))

/--
An mbuf to send.
-/
structure RteMbuf where
  addr : Addr
  pktLen : UInt32
  dataLen : UInt16
  data : Memory

/--
`rte_pktmbuf_alloc` gives an mbuf with some memory, or none.
-/
def ngTcpPkt (cksum : CksumLib) (mbuf : Option (Addr × Memory)) (sip dip : UInt32)
    (srcmac dstmac : MacAddr) (fragment : NgTcpFragment) : Except Halt RteMbuf :=
  match mbuf with
  | none => .error .exited
  | some (addr, pktdata) =>
    .ok {
      addr
      pktLen := totalLen fragment
      dataLen := (totalLen fragment).toUInt16
      data := ngEncodeTcpApppkt cksum addr pktdata sip dip srcmac dstmac fragment }

/--
`ng_tcp_pkt` as `ng_tcp_out` calls it.
-/
def TcpFrame.mbuf (cksum : CksumLib) (mbuf : Option (Addr × Memory)) (frame : TcpFrame)
    : Except Halt RteMbuf :=
  ngTcpPkt cksum mbuf frame.sip frame.dip frame.srcmac frame.dstmac frame.fragment

end NgStack
