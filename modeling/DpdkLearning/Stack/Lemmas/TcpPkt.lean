import DpdkLearning.Stack.Impl.TcpPkt

/-!
This module contains what lies where in the frame of a fragment.
-/

open Lib Memory

namespace NgStack

theorem ntohs_htons (x : UInt16) : ntohs (htons x) = x := by
  unfold htons ntohs
  apply UInt16.eq_of_toBitVec_eq
  ext i hi
  simp
  grind

section Encoding

variable {cksum : CksumLib} {addr : Addr} {msg : Memory} {sip dip : UInt32} {srcmac dstmac : MacAddr}
  {f : NgTcpFragment} {p n : Nat}

/--
Only a fragment without options has data.
-/
def NgTcpFragment.Plain (f : NgTcpFragment) : Prop :=
  f.data = none ∨ f.optlen = 0

theorem payloadOff (h : f.optlen = 0) : (54 + UInt64.ofInt f.optlen * 4).toNat = 54 := by
  rw [h]
  rfl

structure IpHdrAt (frame : Memory) (sip dip : UInt32) (f : NgTcpFragment) : Prop where
  totalLength : frame.load16 16 = htons ((totalLen f).toUInt64 - 14).toUInt16
  nextProtoId : frame 23 = ipprotoTcp
  srcAddr : frame.load32 26 = sip
  dstAddr : frame.load32 30 = dip

structure TcpHdrAt (frame : Memory) (f : NgTcpFragment) : Prop where
  srcPort : frame.load16 34 = f.sport
  dstPort : frame.load16 36 = f.dport
  sentSeq : frame.load32 38 = htonl f.seqnum
  recvAck : frame.load32 42 = htonl f.acknum
  dataOff : frame 46 = f.hdrlenOff
  tcpFlags : frame 47 = f.tcpFlags
  rxWin : frame.load16 48 = f.windows

theorem encodeIpHdr_ipHdrAt
    : IpHdrAt (encodeIpHdr cksum msg sip dip srcmac dstmac f) sip dip f := by
  unfold encodeIpHdr store16 store32
  constructor <;> simp [load16, load32, load_store, load_store_apart, store_apart]

theorem IpHdrAt.congr {m m' : Memory} (h : IpHdrAt m sip dip f) (heq : ∀ i, i < 34 → m' i = m i)
    : IpHdrAt m' sip dip f := by
  have hload : ∀ {p n : Nat}, p + n ≤ 34 → m'.load p n = m.load p n := by
    intro p n hp
    apply load_congr
    intro i _ hi
    apply heq
    omega
  constructor
  . rw [load16, hload (by omega)]
    apply h.totalLength
  . rw [heq _ (by omega)]
    apply h.nextProtoId
  . rw [load32, hload (by omega)]
    apply h.srcAddr
  . rw [load32, hload (by omega)]
    apply h.dstAddr

theorem encodeTcpHdr_apply_lt (h : f.Plain) (hp : p < 34) : encodeTcpHdr msg f p = msg p := by
  unfold encodeTcpHdr store16 store32
  cases hdata : f.data with
  | none =>
    simp [store_apart, show p < 34 by omega, show p < 36 by omega, show p < 38 by omega,
      show p < 42 by omega, show p < 46 by omega, show p < 48 by omega, show p < 52 by omega,
      show p < 47 by omega, show p < 50 by omega]
  | some data =>
    rcases h with h | h
    . rw [h] at hdata
      contradiction
    . rw [payloadOff h]
      simp [store_apart, show p < 34 by omega, show p < 36 by omega, show p < 38 by omega,
        show p < 42 by omega, show p < 46 by omega, show p < 48 by omega, show p < 52 by omega,
        show p < 47 by omega, show p < 50 by omega, show p < 54 by omega]

theorem encodeTcpHdr_tcpHdrAt (h : f.Plain) : TcpHdrAt (encodeTcpHdr msg f) f := by
  unfold encodeTcpHdr store16 store32
  cases hdata : f.data with
  | none =>
    constructor <;> simp [load16, load32, load_store, load_store_apart, store_apart]
  | some data =>
    rcases h with h | h
    . rw [h] at hdata
      contradiction
    . rw [payloadOff h]
      constructor <;> simp [load16, load32, load_store, load_store_apart, store_apart]

theorem encodeTcpHdr_payload (hdata : f.data.isSome) (h : f.optlen = 0)
    : (encodeTcpHdr msg f).load 54 f.bytes.length = f.bytes := by
  unfold encodeTcpHdr
  rcases Option.isSome_iff_exists.mp hdata with ⟨data, hdata⟩
  rw [hdata]
  dsimp
  rw [payloadOff h, store16, load_store_apart (by simp), load_store rfl]

theorem ngEncodeTcpApppkt_ipHdrAt (h : f.Plain)
    : IpHdrAt (ngEncodeTcpApppkt cksum addr msg sip dip srcmac dstmac f) sip dip f := by
  apply encodeIpHdr_ipHdrAt.congr
  intro i hi
  unfold ngEncodeTcpApppkt store16
  rw [store_apart (by omega), encodeTcpHdr_apply_lt h hi]

theorem ngEncodeTcpApppkt_load (hp : p + n ≤ 50 ∨ 52 ≤ p)
    : (ngEncodeTcpApppkt cksum addr msg sip dip srcmac dstmac f).load p n
        = (encodeTcpHdr (encodeIpHdr cksum msg sip dip srcmac dstmac f) f).load p n := by
  unfold ngEncodeTcpApppkt store16
  rw [load_store_apart (by simpa using hp)]

theorem ngEncodeTcpApppkt_tcpHdrAt (h : f.Plain)
    : TcpHdrAt (ngEncodeTcpApppkt cksum addr msg sip dip srcmac dstmac f) f := by
  have hhdr : TcpHdrAt (encodeTcpHdr (encodeIpHdr cksum msg sip dip srcmac dstmac f) f) f :=
    encodeTcpHdr_tcpHdrAt h
  have hbyte : ∀ i, i < 50 → ngEncodeTcpApppkt cksum addr msg sip dip srcmac dstmac f i
      = encodeTcpHdr (encodeIpHdr cksum msg sip dip srcmac dstmac f) f i := by
    intro i hi
    unfold ngEncodeTcpApppkt store16
    rw [store_apart (.inl hi)]
  constructor
  . rw [load16, ngEncodeTcpApppkt_load (by omega)]
    apply hhdr.srcPort
  . rw [load16, ngEncodeTcpApppkt_load (by omega)]
    apply hhdr.dstPort
  . rw [load32, ngEncodeTcpApppkt_load (by omega)]
    apply hhdr.sentSeq
  . rw [load32, ngEncodeTcpApppkt_load (by omega)]
    apply hhdr.recvAck
  . rw [hbyte _ (by omega)]
    apply hhdr.dataOff
  . rw [hbyte _ (by omega)]
    apply hhdr.tcpFlags
  . rw [load16, ngEncodeTcpApppkt_load (by omega)]
    apply hhdr.rxWin

theorem ngEncodeTcpApppkt_payload (hdata : f.data.isSome) (h : f.optlen = 0)
    : (ngEncodeTcpApppkt cksum addr msg sip dip srcmac dstmac f).load 54 f.bytes.length = f.bytes := by
  rw [ngEncodeTcpApppkt_load (by omega), encodeTcpHdr_payload hdata h]

end Encoding

end NgStack
