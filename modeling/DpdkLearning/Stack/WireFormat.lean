import DpdkLearning.Stack.SendQueue

/-!
This module contains what `ng_tcp_process` reads back from a frame that `ng_tcp_pkt` has written.
-/

open Lib Memory

namespace NgStack

/--
The packet has the fields of the fragment, the window left aside, and passes the checksum test.
-/
structure ReadsBack (env : Env) (m : Mbuf) (f : NgTcpFragment) : Prop where
  srcPort : m.tcp.srcPort = f.sport
  dstPort : m.tcp.dstPort = f.dport
  seqnum : ntohl m.tcp.sentSeq = f.seqnum
  acknum : ntohl m.tcp.recvAck = f.acknum
  tcpFlags : m.tcp.tcpFlags = f.tcpFlags
  length : payloadlen m.tcp (tcplen m.ip) = f.length.toNat
  payload : payloadBytes m f.length.toNat = f.bytes
  cksum : cksumOk env m = true

/--
The frame reads back as the fragment, its window included.
-/
def RoundTrips (env : Env) (addr : Addr) (frame : Memory) (f : NgTcpFragment) : Prop :=
  ReadsBack env (.ofFrame addr frame) f ∧ ntohs (frame.load16 48) = f.windows

/--
The checksum of a segment depends on the IP header, on the TCP header and on the bytes behind it, and has
the word at `cksum` from the header.
-/
def CksumOfSegment (rteIpv4UdptcpCksum : Mbuf → UInt16) : Prop :=
  ∀ m m' : Mbuf, m.ip = m'.ip → m.tcp = m'.tcp → (∀ i, i ≠ 16 → i ≠ 17 → m.l4 i = m'.l4 i)
    → rteIpv4UdptcpCksum m = rteIpv4UdptcpCksum m'

theorem getElem_ntohl (x : UInt32) {i : Nat} (hi : i < 32)
    : (ntohl x).toBitVec[i] = x.toBitVec[24 - i / 8 * 8 + i % 8] := by
  have h1 : (65280#32)[i] = decide (8 ≤ i ∧ i < 16) := by
    revert i
    decide
  have h2 : (16711680#32)[i] = decide (16 ≤ i ∧ i < 24) := by
    revert i
    decide
  unfold ntohl
  simp [h1, h2]
  grind

theorem ntohl_htonl (x : UInt32) : ntohl (htonl x) = x := by
  apply UInt32.eq_of_toBitVec_eq
  ext i hi
  rw [htonl, getElem_ntohl _ hi, getElem_ntohl _ (by omega)]
  congr 1
  omega

section Frames

variable {cksum : CksumLib} {env : Env} {addr addr' : Addr} {msg : Memory} {sip dip : UInt32}
  {srcmac dstmac : MacAddr} {f : NgTcpFragment}

theorem cksumOk_ngEncodeTcpApppkt (hcksum : CksumOfSegment cksum.rteIpv4UdptcpCksum)
    (henv : env.rteIpv4UdptcpCksum = cksum.rteIpv4UdptcpCksum)
    : cksumOk env (.ofFrame addr' (ngEncodeTcpApppkt cksum addr msg sip dip srcmac dstmac f)) = true := by
  unfold ngEncodeTcpApppkt
  dsimp
  generalize hmsg : encodeTcpHdr (encodeIpHdr cksum msg sip dip srcmac dstmac f) f = msg1
  have hzero : msg1.load16 50 = 0 := by
    rw [← hmsg]
    unfold encodeTcpHdr store16
    simp [load16, load_store]
  generalize hsum : cksum.rteIpv4UdptcpCksum (.ofFrame addr msg1) = sum
  have hload (p n : Nat) (hp : p + n ≤ 50 ∨ 52 ≤ p) : (msg1.store16 50 sum).load p n = msg1.load p n := by
    rw [store16, load_store_apart (by simpa using hp)]
  have happly (p : Nat) (hp : p < 50 ∨ 52 ≤ p) : msg1.store16 50 sum p = msg1 p := by
    rw [store16, store_apart (by simpa using hp)]
  have hfield : (Mbuf.ofFrame addr' (msg1.store16 50 sum)).tcp.cksum = sum := by
    simp [Mbuf.ofFrame, load16, store16, load_store]
  unfold cksumOk
  rw [hfield, henv, beq_iff_eq]
  refine (hcksum _ _ ?_ ?_ ?_).trans hsum
  . simp [Mbuf.ofFrame, load16, load32, hload, happly]
  . simp [Mbuf.ofFrame, load16, load32, hload, happly]
    simpa [load16] using hzero.symm
  . intro i hi1 hi2
    apply happly
    omega

theorem payloadBytes_ofFrame {frame : Memory} (hoff : frame 46 = 0x50) (n : Nat)
    : payloadBytes (.ofFrame addr frame) n = frame.load 54 n := by
  have hlen : (hdrlen (Mbuf.ofFrame addr frame).tcp).toNat = 5 := by
    simp only [hdrlen, Mbuf.ofFrame, hoff]
    decide
  unfold payloadBytes load
  rw [hlen]
  apply List.map_congr_left
  intro i _
  simp only [Mbuf.ofFrame]
  congr 1
  omega

theorem Built.length_bytes (h : Built f) : f.bytes.length = f.length.toNat := by
  cases h with
  | nsend st buf =>
    simp only [NgTcpFragment.bytes, NgTcpStream.sndFragment, Option.getD_some, List.length_take,
      List.length_append, List.length_singleton, UInt32.toNat_ofNat']
    omega
  | nclose | handleListen | sendAckpkt => rfl

theorem Built.load_payload (h : Built f)
    : (ngEncodeTcpApppkt cksum addr msg sip dip srcmac dstmac f).load 54 f.length.toNat = f.bytes := by
  cases hdata : f.data with
  | none =>
    rw [h.data hdata]
    simp [load, NgTcpFragment.bytes, hdata]
  | some data =>
    have hopt : f.optlen = 0 := by
      rcases h.plain with hnone | hopt
      . rw [hnone] at hdata
        contradiction
      . exact hopt
    rw [← h.length_bytes]
    apply ngEncodeTcpApppkt_payload (by rw [hdata]; rfl) hopt

theorem Built.payloadlen_eq (h : Built f)
    : payloadlen (Mbuf.ofFrame addr' (ngEncodeTcpApppkt cksum addr msg sip dip srcmac dstmac f)).tcp
          (tcplen (Mbuf.ofFrame addr' (ngEncodeTcpApppkt cksum addr msg sip dip srcmac dstmac f)).ip)
        = (40 + 4 * f.optlen + f.length.toNat) % 65536 - 40 := by
  unfold payloadlen tcplen hdrlen Mbuf.ofFrame
  dsimp
  rw [(ngEncodeTcpApppkt_ipHdrAt h.plain).totalLength, ntohs_htons, ipTotalLength_toNat,
    (ngEncodeTcpApppkt_tcpHdrAt h.plain).dataOff, h.hdrlenOff]
  simp
  omega

theorem Built.readsBack_iff (h : Built f) (hfits : 54 + f.length.toNat < 65536)
    (hcksum : CksumOfSegment cksum.rteIpv4UdptcpCksum)
    (henv : env.rteIpv4UdptcpCksum = cksum.rteIpv4UdptcpCksum)
    : ReadsBack env (.ofFrame addr' (ngEncodeTcpApppkt cksum addr msg sip dip srcmac dstmac f)) f
        ↔ 4 * f.optlen % 65536 = 0 := by
  have hhdr : TcpHdrAt (ngEncodeTcpApppkt cksum addr msg sip dip srcmac dstmac f) f :=
    ngEncodeTcpApppkt_tcpHdrAt h.plain
  constructor
  . intro hread
    have hlen := hread.length
    rw [h.payloadlen_eq] at hlen
    omega
  . intro hopt
    constructor
    . exact hhdr.srcPort
    . exact hhdr.dstPort
    . rw [Mbuf.ofFrame, hhdr.sentSeq, ntohl_htonl]
    . rw [Mbuf.ofFrame, hhdr.recvAck, ntohl_htonl]
    . exact hhdr.tcpFlags
    . rw [h.payloadlen_eq]
      omega
    . rw [payloadBytes_ofFrame (hhdr.dataOff.trans h.hdrlenOff), h.load_payload]
    . apply cksumOk_ngEncodeTcpApppkt hcksum henv

theorem Built.windows (h : Built f) : f.windows = tcpInitialWindow := by
  cases h <;> rfl

theorem Built.not_roundTrips (h : Built f)
    : ¬RoundTrips env addr' (ngEncodeTcpApppkt cksum addr msg sip dip srcmac dstmac f) f := by
  rintro ⟨_, hwin⟩
  rw [(ngEncodeTcpApppkt_tcpHdrAt h.plain).rxWin, h.windows] at hwin
  contradiction

end Frames

/--
No frame reads back as the fragment it was made of. Only the window is wrong, unless `nclose` has found
options in its memory.
-/
theorem ngTcpPkt_not_roundTrips {f : NgTcpFragment} {cksum : CksumLib} {mbuf : Option (Addr × Memory)}
    {sip dip : UInt32} {srcmac dstmac : MacAddr} {pkt : RteMbuf} {env : Env} (hbuilt : Built f)
    (hfits : 54 + f.length.toNat < 65536)
    (hpkt : ngTcpPkt cksum mbuf sip dip srcmac dstmac f = .ok pkt)
    (hcksum : CksumOfSegment cksum.rteIpv4UdptcpCksum)
    (henv : env.rteIpv4UdptcpCksum = cksum.rteIpv4UdptcpCksum) (addr : Addr)
    : ¬RoundTrips env addr pkt.data f
        ∧ (ReadsBack env (.ofFrame addr pkt.data) f ↔ 4 * f.optlen % 65536 = 0) := by
  unfold ngTcpPkt at hpkt
  cases mbuf with
  | none => contradiction
  | some mbuf =>
    cases hpkt
    exact ⟨hbuilt.not_roundTrips, hbuilt.readsBack_iff hfits hcksum henv⟩

/--
The ones' complement sum of `n` bytes taken as little-endian words, the first of them at 0.
-/
def wordSum (byte : Nat → UInt8) (n : Nat) : Nat :=
  ((List.range n).map (fun i => (byte i).toNat * if i % 2 = 0 then 1 else 256)).sum

/--
The checksum of the pseudo header and the segment. A sum of 65535 counts like 0, and 0 is sent as 65535.
-/
def standardCksum (m : Mbuf) : UInt16 :=
  let l4Len := (ntohs m.ip.totalLength).toNat - 20
  let byte (i : Nat) : UInt8 :=
    if i = 16 then m.tcp.cksum.toUInt8 else if i = 17 then (m.tcp.cksum >>> 8).toUInt8 else m.l4 i
  let phdr := m.ip.srcAddr.toNat + m.ip.dstAddr.toNat + m.ip.nextProtoId.toNat * 256
    + (htons (UInt16.ofNat l4Len)).toNat
  UInt16.ofNat (65535 - (wordSum byte l4Len + phdr) % 65535)

def standardIpv4Cksum (frame : Memory) : UInt16 :=
  UInt16.ofNat ((65535 - wordSum (fun i => frame (14 + i)) 20 % 65535) % 65535)

theorem cksumOfSegment_standardCksum : CksumOfSegment standardCksum := by
  intro m m' hip htcp hl4
  have hbyte : ∀ i,
      (if i = 16 then m.tcp.cksum.toUInt8
          else if i = 17 then (m.tcp.cksum >>> 8).toUInt8 else m.l4 i)
        = if i = 16 then m'.tcp.cksum.toUInt8
          else if i = 17 then (m'.tcp.cksum >>> 8).toUInt8 else m'.l4 i := by
    intro i
    rw [htcp]
    split
    . rfl
    . split
      . rfl
      . apply hl4 <;> assumption
  simp only [standardCksum, hip, hbyte]

def standardLib : CksumLib where
  rteIpv4Cksum := standardIpv4Cksum
  rteIpv4UdptcpCksum := standardCksum

def helloStream : NgTcpStream :=
  { Env.granting.staleStream with
    sip := 0x0A0A8C0
    dip := 0x0B0A8C0
    sport := htons 40000
    dport := htons 9999
    sndNxt := 1000
    rcvNxt := 2000 }

def helloFragment : NgTcpFragment :=
  helloStream.sndFragment [104, 101, 108, 108, 111]

def helloMbuf : RteMbuf where
  addr := 7
  pktLen := totalLen helloFragment
  dataLen := (totalLen helloFragment).toUInt16
  data := ngEncodeTcpApppkt standardLib 7 (fun _ => 0xAA) helloStream.dip helloStream.sip
    (.replicate 6 1) (.replicate 6 2) helloFragment

def Env.standard : Env :=
  { Env.granting with rteIpv4UdptcpCksum := standardCksum }

theorem ngTcpPkt_not_roundTrips_hello
    : ¬RoundTrips .standard 9 helloMbuf.data helloFragment
        ∧ (ReadsBack .standard (.ofFrame 9 helloMbuf.data) helloFragment
            ↔ 4 * helloFragment.optlen % 65536 = 0) := by
  have hpkt : ngTcpPkt standardLib (some (7, fun _ => 0xAA)) helloStream.dip helloStream.sip
      (.replicate 6 1) (.replicate 6 2) helloFragment = .ok helloMbuf := rfl
  apply ngTcpPkt_not_roundTrips (.nsend helloStream _) (by decide) hpkt cksumOfSegment_standardCksum rfl

/-- A window of 14600 reads back as 2105. -/
theorem not_ngTcpPkt_roundTrips
    : Built helloFragment
        ∧ ngTcpPkt standardLib (some (7, fun _ => 0xAA)) helloStream.dip helloStream.sip
            (.replicate 6 1) (.replicate 6 2) helloFragment = .ok helloMbuf
        ∧ helloFragment.windows = 14600
        ∧ ntohs (helloMbuf.data.load16 48) = 2105
        ∧ ¬RoundTrips .standard 9 helloMbuf.data helloFragment := by
  have hwin : helloMbuf.data.load16 48 = helloFragment.windows :=
    (ngEncodeTcpApppkt_tcpHdrAt (Built.nsend helloStream _).plain).rxWin
  refine ⟨.nsend helloStream _, rfl, rfl, ?_, (Built.nsend helloStream _).not_roundTrips⟩
  rw [hwin]
  rfl

end NgStack
