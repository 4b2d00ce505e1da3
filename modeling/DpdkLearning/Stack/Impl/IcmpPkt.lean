import DpdkLearning.Stack.Impl.UdpPkt

/-!
This module contains how the answer to an echo request becomes a frame in the memory of an mbuf, with the
checksum that the stack takes itself.
-/

open Lib

namespace NgStack

/--
The first two loops of `ng_checksum`: the words of the buffer, and its last byte if one is left over.
-/
def ngChecksumSum (m : Memory) : Nat → Nat → Nat → Nat
  | addr, count + 2, sum => ngChecksumSum m (addr + 2) count (sum + (m.load16 addr).toNat)
  | addr, 1, sum => sum + (m addr).toNat
  | _, 0, sum => sum

/--
The last loop of `ng_checksum`.
-/
def ngChecksumFold (sum : Nat) : Nat :=
  if _h : sum >>> 16 ≠ 0 then
    ngChecksumFold ((sum &&& 0xffff) + (sum >>> 16))
  else
    sum
termination_by sum
decreasing_by
  have hand : sum &&& 0xffff = sum % 2 ^ 16 := Nat.and_two_pow_sub_one_eq_mod sum 16
  rw [Nat.shiftRight_eq_div_pow] at _h ⊢
  omega

def ngChecksum (m : Memory) (addr count : Nat) : UInt16 :=
  ~~~(UInt16.ofNat (ngChecksumFold (ngChecksumSum m addr count 0)))

def ipprotoIcmp : UInt8 := 1

def rteIpIcmpEchoReply : UInt8 := 0

/--
What `ng_encode_icmp_pkt` writes, in order.
-/
def icmpPktWrites (cksum : CksumLib) (gSrcMac dstMac : MacAddr) (sip dip : UInt32) (id seqnb : UInt16)
    : List FrameWrite :=
  [ -- struct rte_ether_hdr
    .put 6 gSrcMac.toList,
    .put 0 dstMac.toList,
    .put 12 (Memory.ofUInt16 (htons rteEtherTypeIpv4)),
    -- struct rte_ipv4_hdr
    .put 14 [0x45],
    .put 15 [0],
    .put 16 (Memory.ofUInt16 (htons 28)),
    .put 18 (Memory.ofUInt16 0),
    .put 20 (Memory.ofUInt16 0),
    .put 22 [64],
    .put 23 [ipprotoIcmp],
    .put 26 (Memory.ofUInt32 sip),
    .put 30 (Memory.ofUInt32 dip),
    .put 24 (Memory.ofUInt16 0),
    .cksum 24 cksum.rteIpv4Cksum,
    -- struct rte_icmp_hdr
    .put 34 [rteIpIcmpEchoReply],
    .put 35 [0],
    .put 38 (Memory.ofUInt16 id),
    .put 40 (Memory.ofUInt16 seqnb),
    .put 36 (Memory.ofUInt16 0),
    .cksum 36 (fun msg => ngChecksum msg 34 8) ]

def ngEncodeIcmpPkt (cksum : CksumLib) (msg : Memory) (gSrcMac dstMac : MacAddr) (sip dip : UInt32)
    (id seqnb : UInt16) : Memory :=
  (icmpPktWrites cksum gSrcMac dstMac sip dip id seqnb).foldl (FrameWrite.apply msg) msg

/--
`rte_pktmbuf_alloc` gives an mbuf with some memory, or none.
-/
def ngSendIcmp (cksum : CksumLib) (mbuf : Option (Addr × Memory)) (gSrcMac dstMac : MacAddr)
    (sip dip : UInt32) (id seqnb : UInt16) : Except Halt RteMbuf :=
  match mbuf with
  | none => .error .exited
  | some (addr, pktData) =>
    .ok {
      addr
      pktLen := 42
      dataLen := 42
      data := ngEncodeIcmpPkt cksum pktData gSrcMac dstMac sip dip id seqnb }

end NgStack
