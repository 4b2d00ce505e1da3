import DpdkLearning.Stack.Impl.TcpPkt
import DpdkLearning.Stack.Impl.Udp

/-!
This module contains how a datagram becomes a frame in the memory of an mbuf.
-/

open Lib

namespace NgStack

/--
A write into a frame.
-/
inductive FrameWrite where
  | put (off : Nat) (bytes : List UInt8)
  /-- `rte_memcpy(msg + off, data, n)` -/
  | memcpy (off n : Nat)
  /-- a checksum of the frame as it is -/
  | cksum (off : Nat) (f : Memory → UInt16)

namespace FrameWrite

def apply (data : Memory) (msg : Memory) : FrameWrite → Memory
  | .put off bytes => msg.store off bytes
  | .memcpy off n => msg.store off (data.load 0 n)
  | .cksum off f => msg.store16 off (f msg)

/--
The indices of `data` that are read.
-/
def dataReads : FrameWrite → List Nat
  | .put _ _ => []
  | .memcpy _ n => List.range n
  | .cksum _ _ => []

/--
The indices of `msg` that are written.
-/
def msgWrites : FrameWrite → List Nat
  | .put off bytes => List.range' off bytes.length
  | .memcpy off n => List.range' off n
  | .cksum off _ => List.range' off 2

end FrameWrite

/--
What `ng_encode_udp_apppkt` writes, in order.
-/
def udpApppktWrites (cksum : CksumLib) (addr : Addr) (sip dip : UInt32) (sport dport : UInt16)
    (srcmac dstmac : MacAddr) (totalLen : UInt16) : List FrameWrite :=
  let udplen := (totalLen.toUInt64 - 14 - 20).toUInt16
  [ -- struct rte_ether_hdr
    .put 6 srcmac.toList,
    .put 0 dstmac.toList,
    .put 12 (Memory.ofUInt16 (htons rteEtherTypeIpv4)),
    -- struct rte_ipv4_hdr
    .put 14 [0x45],
    .put 15 [0],
    .put 16 (Memory.ofUInt16 (htons (totalLen.toUInt64 - 14).toUInt16)),
    .put 18 (Memory.ofUInt16 0),
    .put 20 (Memory.ofUInt16 0),
    .put 22 [64],
    .put 23 [ipprotoUdp],
    .put 26 (Memory.ofUInt32 sip),
    .put 30 (Memory.ofUInt32 dip),
    .put 24 (Memory.ofUInt16 0),
    .cksum 24 cksum.rteIpv4Cksum,
    -- struct rte_udp_hdr
    .put 34 (Memory.ofUInt16 sport),
    .put 36 (Memory.ofUInt16 dport),
    .put 38 (Memory.ofUInt16 (htons udplen)),
    .memcpy 42 udplen.toNat,
    .put 40 (Memory.ofUInt16 0),
    .cksum 40 (fun msg => cksum.rteIpv4UdptcpCksum (.ofFrame addr msg)) ]

def ngEncodeUdpApppkt (cksum : CksumLib) (addr : Addr) (msg : Memory) (sip dip : UInt32) (sport dport : UInt16)
    (srcmac dstmac : MacAddr) (data : Memory) (totalLen : UInt16) : Memory :=
  (udpApppktWrites cksum addr sip dip sport dport srcmac dstmac totalLen).foldl (FrameWrite.apply data) msg

/--
`rte_pktmbuf_alloc` gives an mbuf with some memory, or none.
-/
def ngUdpPkt (cksum : CksumLib) (mbuf : Option (Addr × Memory)) (sip dip : UInt32) (sport dport : UInt16)
    (srcmac dstmac : MacAddr) (data : Memory) (length : UInt16) : Except Halt RteMbuf :=
  let totalLen : UInt32 := length.toUInt32 + 42
  match mbuf with
  | none => .error .exited
  | some (addr, pktdata) =>
    .ok {
      addr
      pktLen := totalLen
      dataLen := totalLen.toUInt16
      data := ngEncodeUdpApppkt cksum addr pktdata sip dip sport dport srcmac dstmac data totalLen.toUInt16 }

/--
`ng_udp_pkt` as `udp_out` calls it, with what the memory holds behind the datagram.
-/
def UdpFrame.mbuf (cksum : CksumLib) (mbuf : Option (Addr × Memory)) (heap : Memory) (frame : UdpFrame)
    : Except Halt RteMbuf :=
  ngUdpPkt cksum mbuf frame.ol.sip frame.ol.dip frame.ol.sport frame.ol.dport frame.srcmac frame.dstmac
    (fun i => frame.ol.data.getD i (heap i)) frame.ol.length

end NgStack
