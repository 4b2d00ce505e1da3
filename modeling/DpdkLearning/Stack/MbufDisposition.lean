import DpdkLearning.Stack.Impl.PktProcess
import DpdkLearning.Stack.Lemmas.System

/-!
This module contains what becomes of the packets of a burst: whom `pkt_process` hands each one to, and
how often.
-/

open Lib

namespace NgStack

/--
The packets that `pkt_process` leaves to the kernel.
-/
def toKni (m : Mbuf) : Bool :=
  m.eth.etherType != htons rteEtherTypeIpv4
    || m.ip.nextProtoId != ipprotoUdp && m.ip.nextProtoId != ipprotoTcp

def takerOf (m : Mbuf) : Taker :=
  if toKni m then
    .rteKniTxBurst
  else if m.ip.nextProtoId = ipprotoUdp then
    .udpProcess
  else
    .ngTcpProcess

/--
What is handed over when it is the turn of `m`.
-/
def handed (mbufs : List Mbuf) (m : Mbuf) : List Addr :=
  if toKni m then mbufs.map Mbuf.addr else [m.addr]

/--
The mempool after the turn of `m`. The two handlers of the stack free what they are handed.
-/
def mempoolAfter (mempool : List Addr) (m : Mbuf) : List Addr :=
  if toKni m then mempool else m.addr :: mempool

/--
All that the loop hands over.
-/
def handoversOf (mbufs : List Mbuf) : List Mbuf → List Addr → List Handover
  | [], _ => []
  | m :: ms, mempool =>
    ⟨takerOf m, handed mbufs m, mempool⟩ :: handoversOf mbufs ms (mempoolAfter mempool m)

/--
Each packet of the burst is handed over once, and none when it has been given back already.
-/
structure HandedOnce (mbufs : List Mbuf) (handovers : List Handover) : Prop where
  once : ∀ m ∈ mbufs, (handovers.flatMap Handover.mbufs).count m.addr = 1
  live : ∀ h ∈ handovers, ∀ a ∈ h.mbufs, a ∉ h.mempool

/--
The packets that come off the ring: each one is there once, and none has been given back.
-/
structure Burst (s : Stack) (mbufs : List Mbuf) : Prop where
  nodup : (mbufs.map Mbuf.addr).Nodup
  live : ∀ m ∈ mbufs, m.addr ∉ s.mempool

theorem udpProcess_mempool {env : Env} {s s' : Stack} {m : Mbuf} {r : Int}
    (h : udpProcess env s m = .ok (r, s')) : s'.mempool = m.addr :: s.mempool := by
  unfold udpProcess at h
  split at h
  . simp only [Except.ok.injEq, Prod.mk.injEq] at h
    rw [← h.2]
    rfl
  . split at h
    . simp only [Except.ok.injEq, Prod.mk.injEq] at h
      rw [← h.2]
      rfl
    . split at h
      . simp only [Except.ok.injEq, Prod.mk.injEq] at h
        rw [← h.2]
        rfl
      . split at h
        . contradiction
        . simp only [Except.ok.injEq, Prod.mk.injEq] at h
          rw [← h.2]
          rfl

theorem ngTcpProcess_mempool {env : Env} {s s' : Stack} {m : Mbuf} {r : Int}
    (h : ngTcpProcess env s m = .ok (r, s')) : s'.mempool = m.addr :: s.mempool := by
  rcases ngTcpProcess_cases h with ⟨t, ht, rfl⟩
  cases ht <;> rfl

theorem pktProcessPacket_cases {env : Env} {mbufs : List Mbuf} {s s' : Stack} {m : Mbuf}
    {handover : Handover} (h : pktProcessPacket env mbufs s m = .ok (s', handover))
    : handover = ⟨takerOf m, handed mbufs m, s.mempool⟩
        ∧ s'.mempool = mempoolAfter s.mempool m := by
  unfold pktProcessPacket at h
  unfold takerOf handed mempoolAfter toKni
  split at h
  . next hip =>
    dsimp at h
    simp only [beq_iff_eq] at hip
    split at h
    . next hudp =>
      split at h
      . contradiction
      . next hcall =>
        simp only [Except.ok.injEq, Prod.mk.injEq] at h
        rw [← h.1, ← h.2, udpProcess_mempool hcall]
        simp [hip, hudp]
    . next hudp =>
      split at h
      . next htcp =>
        split at h
        . contradiction
        . next hcall =>
          simp only [Except.ok.injEq, Prod.mk.injEq] at h
          have hne : ipprotoTcp ≠ ipprotoUdp := by decide
          rw [← h.1, ← h.2, ngTcpProcess_mempool hcall]
          simp [hip, htcp, hne]
      . next htcp =>
        simp only [Except.ok.injEq, Prod.mk.injEq] at h
        rw [← h.1, ← h.2]
        simp [hip, htcp, hudp]
  . next hip =>
    simp only [Except.ok.injEq, Prod.mk.injEq] at h
    simp only [beq_iff_eq] at hip
    rw [← h.1, ← h.2]
    simp [hip]

theorem pktProcessLoop_handovers {envs : Nat → Env} {mbufs ms : List Mbuf} {i : Nat} {s s' : Stack}
    {handovers : List Handover} (h : pktProcessLoop envs mbufs i ms s = .ok (s', handovers))
    : handovers = handoversOf mbufs ms s.mempool := by
  induction ms generalizing i s s' handovers with
  | nil =>
    simp only [pktProcessLoop, Except.ok.injEq, Prod.mk.injEq] at h
    rw [← h.2]
    rfl
  | cons m ms ih =>
    unfold pktProcessLoop at h
    split at h
    . contradiction
    . next t handover hpacket =>
      split at h
      . contradiction
      . next u rest hloop =>
        simp only [Except.ok.injEq, Prod.mk.injEq] at h
        rcases pktProcessPacket_cases hpacket with ⟨hhandover, hmempool⟩
        rw [← h.2, hhandover, ih hloop, hmempool]
        rfl

theorem pktProcess_handovers {envs : Nat → Env} {outEnv : Env} {s s' : Stack} {ring : List Mbuf}
    {round : PktRound} (h : pktProcess envs outEnv s ring = .ok (s', round))
    : round.handovers = handoversOf (ring.take burstSize) (ring.take burstSize) s.mempool := by
  unfold pktProcess at h
  dsimp at h
  split at h
  . contradiction
  . next hloop =>
    split at h
    . contradiction
    . split at h
      . contradiction
      . simp only [Except.ok.injEq, Prod.mk.injEq] at h
        rw [← h.2]
        exact pktProcessLoop_handovers hloop

theorem flatMap_handoversOf (mbufs ms : List Mbuf) (mempool : List Addr)
    : (handoversOf mbufs ms mempool).flatMap Handover.mbufs = ms.flatMap (handed mbufs) := by
  induction ms generalizing mempool with
  | nil => rfl
  | cons m ms ih => rw [handoversOf, List.flatMap_cons, List.flatMap_cons, ih]

theorem mem_handed {mbufs : List Mbuf} {m : Mbuf} (h : m ∈ mbufs) : m.addr ∈ handed mbufs m := by
  unfold handed
  split
  . exact List.mem_map_of_mem h
  . exact List.mem_singleton.mpr rfl

/-- Next to a packet for the kernel, any other packet is handed over with it and in its own turn. -/
theorem two_le_count {mbufs l1 l2 : List Mbuf} {k m : Mbuf} (hsplit : mbufs = l1 ++ k :: l2)
    (hkni : toKni k = true) (hm : m ∈ l1 ++ l2)
    : 2 ≤ (mbufs.flatMap (handed mbufs)).count m.addr := by
  have hmem : m ∈ mbufs := by
    rw [List.mem_append] at hm
    simp [hsplit, or_left_comm, hm]
  have hturn : 1 ≤ ((l1 ++ l2).flatMap (handed mbufs)).count m.addr := by
    rw [List.one_le_count_iff, List.mem_flatMap]
    exact ⟨m, hm, mem_handed hmem⟩
  have hburst : 1 ≤ (handed mbufs k).count m.addr := by
    rw [handed, hkni, if_pos rfl, List.one_le_count_iff]
    exact List.mem_map_of_mem hmem
  have hcount : (mbufs.flatMap (handed mbufs)).count m.addr
      = (handed mbufs k).count m.addr + ((l1 ++ l2).flatMap (handed mbufs)).count m.addr := by
    have hperm : mbufs.Perm (k :: (l1 ++ l2)) := by
      rw [hsplit]
      exact List.perm_middle
    rw [(hperm.flatMap_right _).count_eq, List.flatMap_cons, List.count_append]
  omega

theorem live_of_no_kni {mbufs ms : List Mbuf} {mempool : List Addr}
    (hkni : ∀ m ∈ ms, toKni m = false) (hnodup : (ms.map Mbuf.addr).Nodup)
    (hlive : ∀ m ∈ ms, m.addr ∉ mempool)
    : ∀ h ∈ handoversOf mbufs ms mempool, ∀ a ∈ h.mbufs, a ∉ h.mempool := by
  induction ms generalizing mempool with
  | nil => simp [handoversOf]
  | cons m ms ih =>
    rw [List.forall_mem_cons] at hkni hlive
    rw [List.map_cons, List.nodup_cons] at hnodup
    rw [handoversOf, List.forall_mem_cons]
    constructor
    . intro a ha
      dsimp at ha
      rw [handed, hkni.1, if_neg Bool.false_ne_true, List.mem_singleton] at ha
      rw [ha]
      exact hlive.1
    . apply ih hkni.2 hnodup.2
      intro x hx
      rw [mempoolAfter, hkni.1, if_neg Bool.false_ne_true, List.mem_cons, not_or]
      refine ⟨?_, hlive.2 x hx⟩
      intro heq
      apply hnodup.1
      rw [← heq]
      exact List.mem_map_of_mem hx

theorem flatMap_handed_of_no_kni {mbufs ms : List Mbuf} (hkni : ∀ m ∈ ms, toKni m = false)
    : ms.flatMap (handed mbufs) = ms.map Mbuf.addr := by
  rw [List.map_eq_flatMap, List.flatMap, List.flatMap]
  congr 1
  apply List.map_congr_left
  intro m hm
  rw [handed, hkni m hm]
  rfl

/--
Every packet of a burst is handed over once exactly when it is alone in it or nothing in it is for the
kernel.
-/
theorem pktProcess_handedOnce_iff {envs : Nat → Env} {outEnv : Env} {s s' : Stack} {ring : List Mbuf}
    {round : PktRound} (hburst : Burst s (ring.take burstSize))
    (h : pktProcess envs outEnv s ring = .ok (s', round))
    : HandedOnce (ring.take burstSize) round.handovers
        ↔ (ring.take burstSize).length ≤ 1 ∨ ∀ m ∈ ring.take burstSize, toKni m = false := by
  rw [pktProcess_handovers h]
  generalize ring.take burstSize = mbufs at hburst
  constructor
  . intro honce
    by_contra hcond
    simp only [not_or, Nat.not_le, not_forall, Bool.not_eq_false] at hcond
    rcases hcond with ⟨hlen, k, hk, hkni⟩
    rcases List.append_of_mem hk with ⟨l1, l2, hsplit⟩
    have hother : l1 ++ l2 ≠ [] := by
      intro hnil
      rw [List.append_eq_nil_iff] at hnil
      rw [hsplit, hnil.1, hnil.2] at hlen
      simp at hlen
    rcases List.exists_mem_of_ne_nil _ hother with ⟨m, hm⟩
    have hmem : m ∈ mbufs := by
      rw [List.mem_append] at hm
      simp [hsplit, or_left_comm, hm]
    have hcount := honce.once m hmem
    -- The packet for the kernel goes there together with the whole burst, `m` included.
    have htwo := two_le_count hsplit hkni hm
    rw [flatMap_handoversOf] at hcount
    omega
  . rintro (hlen | hkni)
    -- A burst of one packet is the packet itself.
    . match mbufs, hlen with
      | [], _ => exact ⟨by simp, by simp [handoversOf]⟩
      | [m], _ =>
        have hhanded : handed [m] m = [m.addr] := by
          unfold handed
          split <;> rfl
        constructor
        . simp [handoversOf, hhanded]
        . have := hburst.live m (List.mem_singleton.mpr rfl)
          simpa [handoversOf, hhanded] using this
    . constructor
      . intro m hm
        rw [flatMap_handoversOf, flatMap_handed_of_no_kni hkni]
        exact List.count_eq_one_of_mem hburst.nodup (List.mem_map_of_mem hm)
      . exact live_of_no_kni hkni hburst.nodup hburst.live

/--
A segment and a datagram on the ring.
-/
def Mbuf.mixed : List Mbuf := [
  .segment 5 rteTcpSynFlag 100 0 [],
  { Mbuf.segment 5 0 0 0 [] with addr := 1, ip.nextProtoId := ipprotoUdp }
]

theorem pktProcess_handedOnce_mixed
    : ∃ s' round, pktProcess (fun _ => .granting) .granting .init Mbuf.mixed = .ok (s', round)
        ∧ HandedOnce (Mbuf.mixed.take burstSize) round.handovers := by
  have hround : ((pktProcess (fun _ => .granting) .granting .init Mbuf.mixed).map
      (fun r => r.2.handovers.length)).toOption = some 2 := by
    decide +kernel
  cases hcall : pktProcess (fun _ => .granting) .granting .init Mbuf.mixed with
  | error e => simp [hcall, Except.map, Except.toOption] at hround
  | ok r =>
    refine ⟨r.1, r.2, rfl, ?_⟩
    apply (pktProcess_handedOnce_iff ?_ hcall).mpr
    . right
      decide
    . exact ⟨by decide, by simp [Stack.init]⟩

/-- A datagram in front of a frame that is not IPv4 goes to the kernel once more after it was freed. -/
theorem not_handedOnce_of_kni
    : ¬∀ envs outEnv s s' ring round, Burst s (ring.take burstSize)
        → pktProcess envs outEnv s ring = .ok (s', round)
        → HandedOnce (ring.take burstSize) round.handovers := by
  have hround : ((pktProcess (fun _ => .granting) .granting .init [
      { Mbuf.segment 5 0 0 0 [] with addr := 1, ip.nextProtoId := ipprotoUdp },
      { Mbuf.segment 5 0 0 0 [] with eth.etherType := htons 0x0806 }]).map
        (fun r => r.2.handovers)).toOption
      = some [⟨.udpProcess, [1], []⟩, ⟨.rteKniTxBurst, [1, 0], [1]⟩] := by
    decide +kernel
  intro hall
  cases hcall : pktProcess (fun _ => .granting) .granting .init [
      { Mbuf.segment 5 0 0 0 [] with addr := 1, ip.nextProtoId := ipprotoUdp },
      { Mbuf.segment 5 0 0 0 [] with eth.etherType := htons 0x0806 }] with
  | error e => simp [hcall, Except.map, Except.toOption] at hround
  | ok r =>
    simp only [hcall, Except.map, Except.toOption, Option.some.injEq] at hround
    have honce := hall _ _ _ _ _ _ ⟨by decide, by simp [Stack.init]⟩ hcall
    have hlive := honce.live ⟨.rteKniTxBurst, [1, 0], [1]⟩ (by simp [hround]) 1
    simp at hlive

end NgStack
