import DpdkLearning.Lib.Cursor
import DpdkLearning.Stack.Impl.UdpPkt
import DpdkLearning.Stack.Lemmas.TcpPkt
import Mathlib.Algebra.Group.Nat.Defs

/-!
This module contains the frame that `ng_udp_pkt` builds: its headers and its payload are right, and the copy
of the payload goes on for the 8 bytes that the UDP header takes.
-/

open Lib Memory

namespace NgStack

/--
The checksum at `off` is that of the frame with zeros in its place, as far as the frame reaches.
-/
def CksumAt (frame : Memory) (off size : Nat) (f : Memory → UInt16) : Prop :=
  ∃ msg : Memory, msg.load16 off = 0 ∧ (∀ i < size, i < off ∨ off + 2 ≤ i → msg i = frame i)
    ∧ frame.load16 off = f msg

/--
The mbuf has the three headers and the payload behind them, and nothing more.
-/
structure UdpFrameAt (cksum : CksumLib) (m : RteMbuf) (sip dip : UInt32) (sport dport : UInt16)
    (srcmac dstmac : MacAddr) (payload : List UInt8) : Prop where
  pktLen : m.pktLen.toNat = payload.length + 42
  dataLen : m.dataLen.toNat = payload.length + 42
  dAddr : m.data.load 0 6 = dstmac.toList
  sAddr : m.data.load 6 6 = srcmac.toList
  etherType : m.data.load16 12 = htons rteEtherTypeIpv4
  versionIhl : m.data 14 = 0x45
  typeOfService : m.data 15 = 0
  totalLength : (ntohs (m.data.load16 16)).toNat = payload.length + 28
  packetId : m.data.load16 18 = 0
  fragmentOffset : m.data.load16 20 = 0
  timeToLive : m.data 22 = 64
  nextProtoId : m.data 23 = ipprotoUdp
  hdrChecksum : CksumAt m.data 24 34 cksum.rteIpv4Cksum
  srcAddr : m.data.load32 26 = sip
  dstAddr : m.data.load32 30 = dip
  srcPort : m.data.load16 34 = sport
  dstPort : m.data.load16 36 = dport
  dgramLen : (ntohs (m.data.load16 38)).toNat = payload.length + 8
  dgramCksum : CksumAt m.data 40 (payload.length + 42) (fun msg => cksum.rteIpv4UdptcpCksum (.ofFrame m.addr msg))
  payload : m.data.load 42 payload.length = payload

/--
The payload of `length` bytes at `data` becomes a frame of its headers and itself. No byte behind the payload
is read, and none behind the frame is written.
-/
structure ExactEncoding (cksum : CksumLib) (addr : Addr) (msg : Memory) (sip dip : UInt32)
    (sport dport : UInt16) (srcmac dstmac : MacAddr) (data : Memory) (length : UInt16) : Prop where
  frame : ∃ m, ngUdpPkt cksum (some (addr, msg)) sip dip sport dport srcmac dstmac data length = .ok m
    ∧ UdpFrameAt cksum m sip dip sport dport srcmac dstmac (data.load 0 length.toNat)
  reads : ∀ i ∈ (udpApppktWrites cksum addr sip dip sport dport srcmac dstmac
    (length.toUInt32 + 42).toUInt16).flatMap FrameWrite.dataReads, i < length.toNat
  writes : ∀ i ∈ (udpApppktWrites cksum addr sip dip sport dport srcmac dstmac
    (length.toUInt32 + 42).toUInt16).flatMap FrameWrite.msgWrites, i < length.toNat + 42

variable {cksum : CksumLib} {addr : Addr} {msg data data' : Memory} {sip dip : UInt32}
  {sport dport length totalLen : UInt16} {srcmac dstmac : MacAddr} {ws : List FrameWrite} {w : FrameWrite} {n i : Nat}

section Accesses

theorem FrameWrite.apply_apart (h : i ∉ w.msgWrites) : w.apply data msg i = msg i := by
  cases w with
  | put off bytes =>
    rw [msgWrites, List.mem_range'_1] at h
    exact store_apart (by omega)
  | memcpy off n =>
    rw [msgWrites, List.mem_range'_1] at h
    apply store_apart
    rw [length_load]
    omega
  | cksum off f =>
    rw [msgWrites, List.mem_range'_1] at h
    apply store_apart
    rw [length_ofUInt16]
    omega

theorem foldl_apply_apart (h : i ∉ ws.flatMap FrameWrite.msgWrites) : ws.foldl (FrameWrite.apply data) msg i = msg i := by
  induction ws generalizing msg with
  | nil => rfl
  | cons w ws ih =>
    rw [List.flatMap_cons, List.mem_append, not_or] at h
    rw [List.foldl_cons, ih h.2, FrameWrite.apply_apart h.1]

/-- What the writes leave depends on the data that they read only. -/
theorem foldl_apply_congr (h : ∀ i ∈ ws.flatMap FrameWrite.dataReads, data i = data' i)
    : ws.foldl (FrameWrite.apply data) msg = ws.foldl (FrameWrite.apply data') msg := by
  induction ws generalizing msg with
  | nil => rfl
  | cons w ws ih =>
    rw [List.flatMap_cons, List.forall_mem_append] at h
    have hfirst : w.apply data msg = w.apply data' msg := by
      cases w with
      | put off bytes => rfl
      | memcpy off n =>
        have hload : data.load 0 n = data'.load 0 n := by
          apply load_congr
          intro i _ hi
          exact h.1 i (List.mem_range.mpr (by omega))
        rw [FrameWrite.apply, FrameWrite.apply, hload]
      | cksum off f => rfl
    rw [List.foldl_cons, List.foldl_cons, hfirst, ih h.2]

/-- A checksum that is not written over. -/
theorem cksumAt_of_foldl {frame : Memory} {f : Memory → UInt16} {off size : Nat} (k : Nat)
    (hframe : frame = ws.foldl (FrameWrite.apply data) msg) (hput : ws[k]? = some (.put off (ofUInt16 0)))
    (hcksum : ws[k + 1]? = some (.cksum off f)) (hrest : ∀ w ∈ ws.drop (k + 2), ∀ i ∈ w.msgWrites, size ≤ i)
    (hoff : off + 2 ≤ size) : CksumAt frame off size f := by
  rcases List.getElem?_eq_some_iff.mp hput with ⟨hk, hput⟩
  rcases List.getElem?_eq_some_iff.mp hcksum with ⟨hk1, hcksum⟩
  rw [← List.take_append_drop k ws, List.drop_eq_getElem_cons hk, List.drop_eq_getElem_cons hk1, hput,
    hcksum] at hframe
  generalize ws.take k = ws1 at hframe
  generalize ws.drop (k + 1 + 1) = ws2 at hframe hrest
  -- What is written later lies behind the bytes that the checksum is computed of.
  have hkept : ∀ {m : Memory} {i}, i < size → ws2.foldl (FrameWrite.apply data) m i = m i := by
    intro m i hi
    apply foldl_apply_apart
    intro hmem
    rcases List.mem_flatMap.mp hmem with ⟨w, hw, hiw⟩
    have := hrest w hw i hiw
    omega
  rw [List.foldl_append, List.foldl_cons, List.foldl_cons] at hframe
  generalize hmsg : FrameWrite.apply data (ws1.foldl (FrameWrite.apply data) msg) (.put off (ofUInt16 0)) = msg1
    at hframe
  refine ⟨msg1, ?_, ?_, ?_⟩
  . rw [← hmsg, FrameWrite.apply, load16, load_store (length_ofUInt16 0), toUInt16_ofUInt16]
  . intro i hi hapart
    rw [hframe, hkept hi, FrameWrite.apply, store16, store_apart (by simpa using hapart)]
  . have hload : frame.load off 2 = ofUInt16 (f msg1) := by
      have hput : (msg1.store off (ofUInt16 (f msg1))).load off 2 = ofUInt16 (f msg1) :=
        load_store (length_ofUInt16 (f msg1))
      rw [hframe, FrameWrite.apply, store16, ← hput]
      apply load_congr
      intro i _ hi
      rw [hkept (by omega), hput]
    rw [load16, hload, toUInt16_ofUInt16]

end Accesses

section Lengths

theorem toNat_udpTotalLen (hfits : length.toNat + 42 < 2 ^ 16)
    : (length.toUInt32 + 42).toNat = length.toNat + 42
        ∧ (length.toUInt32 + 42).toUInt16.toNat = length.toNat + 42 := by
  have hsum : (length.toUInt32 + 42).toNat = length.toNat + 42 := by
    rw [UInt32.toNat_add, UInt16.toNat_toUInt32]
    change (_ + 42) % _ = _
    omega
  refine ⟨hsum, ?_⟩
  rw [UInt32.toNat_toUInt16, hsum]
  omega

theorem toNat_udplen (h : totalLen.toNat = n + 42)
    : (totalLen.toUInt64 - 14).toUInt16.toNat = n + 28
        ∧ (totalLen.toUInt64 - 14 - 20).toUInt16.toNat = n + 8 := by
  have hlt := totalLen.toNat_lt
  have h14 : (totalLen.toUInt64 - 14).toNat = n + 28 := by
    rw [UInt64.toNat_sub, UInt16.toNat_toUInt64, h]
    change (2 ^ 64 - 14 + _) % _ = _
    omega
  have h34 : (totalLen.toUInt64 - 14 - 20).toNat = n + 8 := by
    rw [UInt64.toNat_sub, h14]
    change (2 ^ 64 - 20 + _) % _ = _
    omega
  rw [UInt64.toNat_toUInt16, UInt64.toNat_toUInt16, h14, h34]
  omega

end Lengths

section Frame

/-- The copy takes the payload and the 8 bytes behind it. -/
theorem load_copied (h : totalLen.toNat = n + 42)
    : (ngEncodeUdpApppkt cksum addr msg sip dip sport dport srcmac dstmac data totalLen).load 42 (n + 8)
        = data.load 0 (n + 8) := by
  unfold ngEncodeUdpApppkt udpApppktWrites
  rw [← (toNat_udplen h).2]
  simp [FrameWrite.apply, store16, load_store, load_store_apart]

theorem udpFrameAt_ngEncodeUdpApppkt {m : RteMbuf} (h : totalLen.toNat = n + 42)
    (hpkt : m.pktLen.toNat = n + 42) (hdataLen : m.dataLen.toNat = n + 42)
    (hdata : m.data = ngEncodeUdpApppkt cksum m.addr msg sip dip sport dport srcmac dstmac data totalLen)
    : UdpFrameAt cksum m sip dip sport dport srcmac dstmac (data.load 0 n) := by
  have hcopied : m.data.load 42 (n + 8) = data.load 0 (n + 8) := by
    rw [hdata]
    exact load_copied h
  have hpayload : m.data.load 42 n = data.load 0 n := by
    rw [load_add, load_add] at hcopied
    exact (List.append_inj hcopied (by simp)).1
  rcases toNat_udplen h with ⟨htotal, hudp⟩
  unfold ngEncodeUdpApppkt udpApppktWrites at hdata
  constructor
  . simpa using hpkt
  . simpa using hdataLen
  . simp [hdata, FrameWrite.apply, store16, load_store, load_store_apart]
  . simp [hdata, FrameWrite.apply, store16, load_store, load_store_apart]
  . simp [hdata, FrameWrite.apply, store16, load16, load_store, load_store_apart]
  . simp [hdata, FrameWrite.apply, store16, store_apart]
  . simp [hdata, FrameWrite.apply, store16, store_apart]
  . have hlen : m.data.load16 16 = htons (totalLen.toUInt64 - 14).toUInt16 := by
      simp [hdata, FrameWrite.apply, store16, load16, load_store, load_store_apart]
    rw [hlen, ntohs_htons, htotal, length_load]
  . simp [hdata, FrameWrite.apply, store16, load16, load_store, load_store_apart]
  . simp [hdata, FrameWrite.apply, store16, load16, load_store, load_store_apart]
  . simp [hdata, FrameWrite.apply, store16, store_apart]
  . simp [hdata, FrameWrite.apply, store16, store_apart]
  -- Nothing that is written behind the checksum lies in the bytes it is computed of.
  . refine cksumAt_of_foldl 12 hdata rfl rfl ?_ (by decide)
    simp only [List.drop_succ_cons, List.drop_zero, List.forall_mem_cons, FrameWrite.msgWrites, List.mem_range'_1]
    refine ⟨?_, ?_, ?_, ?_, ?_, ?_, ?_⟩
    all_goals grind
  . simp [hdata, FrameWrite.apply, store16, load32, load_store, load_store_apart]
  . simp [hdata, FrameWrite.apply, store16, load32, load_store, load_store_apart]
  . simp [hdata, FrameWrite.apply, store16, load16, load_store, load_store_apart]
  . simp [hdata, FrameWrite.apply, store16, load16, load_store, load_store_apart]
  . have hlen : m.data.load16 38 = htons (totalLen.toUInt64 - 14 - 20).toUInt16 := by
      simp [hdata, FrameWrite.apply, store16, load16, load_store, load_store_apart]
    rw [hlen, ntohs_htons, hudp, length_load]
  . refine cksumAt_of_foldl 18 hdata rfl rfl ?_ (by omega)
    simp
  . simpa using hpayload

end Frame

theorem overruns (h : totalLen.toNat = n + 42)
    : n + 7 ∈ (udpApppktWrites cksum addr sip dip sport dport srcmac dstmac totalLen).flatMap
          FrameWrite.dataReads
        ∧ n + 49 ∈ (udpApppktWrites cksum addr sip dip sport dport srcmac dstmac totalLen).flatMap
          FrameWrite.msgWrites := by
  have hmem : .memcpy 42 (n + 8) ∈ udpApppktWrites cksum addr sip dip sport dport srcmac dstmac totalLen := by
    rw [← (toNat_udplen h).2]
    simp [udpApppktWrites]
  rw [List.mem_flatMap, List.mem_flatMap]
  refine ⟨⟨_, hmem, ?_⟩, ⟨_, hmem, ?_⟩⟩
  . exact List.mem_range.mpr (by omega)
  . exact List.mem_range'_1.mpr (by omega)

/--
Every payload that fits an mbuf gets the right frame, and none is encoded without accesses behind the payload
and behind the frame.
-/
theorem ngUdpPkt_never_exact (hfits : length.toNat + 42 < 2 ^ 16)
    : (∃ m, ngUdpPkt cksum (some (addr, msg)) sip dip sport dport srcmac dstmac data length = .ok m
          ∧ UdpFrameAt cksum m sip dip sport dport srcmac dstmac (data.load 0 length.toNat))
        ∧ ¬ExactEncoding cksum addr msg sip dip sport dport srcmac dstmac data length := by
  rcases toNat_udpTotalLen hfits with ⟨hpkt, hdataLen⟩
  constructor
  . exact ⟨_, rfl, udpFrameAt_ngEncodeUdpApppkt hdataLen hpkt hdataLen rfl⟩
  . intro h
    have := h.reads _ (overruns hdataLen).1
    omega

/-- A datagram of five bytes. -/
theorem ngUdpPkt_never_exact_hello
    : ¬ExactEncoding ⟨fun _ => 0, fun _ => 0⟩ 7 (fun _ => 0) 0x0A0A8C0 0x0B0A8C0 (htons 8888) (htons 9999)
        (.replicate 6 1) (.replicate 6 2) (fun i => [104, 101, 108, 108, 111].getD i 0) 5 :=
  (ngUdpPkt_never_exact (by decide)).2

/-- The eight bytes behind a datagram of five bytes are read. -/
theorem not_exactEncoding
    : ∃ cksum addr msg sip dip sport dport srcmac dstmac data length, length.toNat + 42 < 2 ^ 16
        ∧ ¬ExactEncoding cksum addr msg sip dip sport dport srcmac dstmac data length := by
  refine ⟨⟨fun _ => 0, fun _ => 0⟩, 7, fun _ => 0, 0x0A0A8C0, 0x0B0A8C0, htons 8888, htons 9999,
    .replicate 6 1, .replicate 6 2, fun i => [104, 101, 108, 108, 111].getD i 0, 5, by decide, ?_⟩
  intro h
  have := h.reads 12 (by decide +kernel)
  contradiction

end NgStack
