import Mathlib.Data.List.GetD
import Mathlib.Data.List.Perm.Subperm
import DpdkLearning.Lib.Assign
import DpdkLearning.Vhost.DescCopies
import DpdkLearning.Vhost.Lemmas.Guest

/-!
This module contains what `vhost_rx` writes into the buffers of the guest, and for which chains of
descriptors every packet arrives in them.
-/

open Lib

namespace Vhost

/--
Bytes that are written from an address on.
-/
structure DescStore where
  addr : UInt64
  bytes : List UInt8

namespace DescStore

def apply (mem : SharedMem) (s : DescStore) : SharedMem :=
  mem.write s.addr s.bytes

def pairs (s : DescStore) : List (UInt64 × UInt8) :=
  (addrRun s.addr s.bytes.length).zip s.bytes

end DescStore

/--
What `copy_mbuf_to_desc` writes.
-/
def mbufToDescStores (dev : VhostDev) (vq : Virtqueue) (mem : SharedMem) (mbuf : Mbuf) (descIdx : UInt32)
    : Except Misuse (List DescStore) :=
  if vq.desc = 0 then
    .error .nullRing
  else
    let desc := mem.desc vq.desc descIdx.toNat
    match dev.gpaToHva desc.addr with
    | .error e => .error e
    | .ok addr =>
      let header := ⟨addr, .replicate hdrlen 0⟩
      if desc.len.toUInt64 - hdrlen.toUInt64 = 0 then
        let desc := mem.desc vq.desc desc.next.toNat
        match dev.gpaToHva desc.addr with
        | .error e => .error e
        | .ok addr => .ok [header, ⟨addr, mbuf.data.take mbuf.len.toNat⟩]
      else
        .ok [header]

/--
The region holds the address of the guest.
-/
def VhostUserRegion.Holds (region : VhostUserRegion) (gpaAddr : UInt64) : Prop :=
  gpaAddr - region.guestAddress < region.size

/--
A chain of descriptors, by their indices, and where the backend has each of its bytes.
-/
structure DescChain where
  descs : List Nat
  addrs : List UInt64

/--
The chain starts with the head and goes on with `next`. All of its bytes are in mapped regions, each in a
place of its own.
-/
structure IsDescChain (dev : VhostDev) (desc : Nat → VirtqDesc) (head : UInt16) (chain : DescChain) : Prop where
  head : chain.descs.head? = some head.toNat
  linked : chain.descs.IsChain (fun i j => (desc i).next.toNat = j)
  mapped : List.Forall₂ (fun gpa hva => ∃ region ∈ dev.regions, region.Holds gpa ∧ hva = gpa + region.mmapOffset)
    (chain.descs.flatMap (fun i => addrRun (desc i).addr (desc i).len.toNat)) chain.addrs
  nodup : chain.addrs.Nodup

/--
A call gives back the heads with the lengths of the packets behind the header, writes for each packet into
its chain only, and leaves the header and the packet at the start of the chain.
-/
def DeliversAll (dev : VhostDev) (qidx : Fin maxMultiQueue) (mem : SharedMem) (pkts : Nat → Mbuf) (npkts : Int)
    (chains : Nat → DescChain) : Prop :=
  ∃ burst, vhostRx dev mem qidx pkts npkts = .ok burst
    ∧ Put (dev.queue qidx) mem
      ((availHeads (dev.queue qidx) mem burst.ret).mapIdx
        (fun i d => ⟨d.toUInt32, (pkts i).len + hdrlen.toUInt32⟩)) burst
    ∧ ∀ i head, (availHeads (dev.queue qidx) mem burst.ret)[i]? = some head →
      (∃ stores, mbufToDescStores dev (dev.queue qidx) mem (pkts i) head.toUInt32 = .ok stores
          ∧ ∀ s ∈ stores, ∀ p ∈ s.pairs, p.1 ∈ (chains i).addrs)
        ∧ ((chains i).addrs.take (hdrlen + (pkts i).len.toNat)).map burst.mem.bytes
          = .replicate hdrlen 0 ++ (pkts i).data

/--
The heads of the chains that a call takes.
-/
def rxHeads (dev : VhostDev) (qidx : Fin maxMultiQueue) (mem : SharedMem) (npkts : Int) : List UInt16 :=
  availHeads (dev.queue qidx) mem (vhostRxCount (dev.queue qidx) mem npkts)

/--
Each head that a call takes starts a chain with room for a packet of the given length behind the header, and
the chains share no byte.
-/
structure ChainsFor (dev : VhostDev) (qidx : Fin maxMultiQueue) (mem : SharedMem) (npkts : Int)
    (chains : Nat → DescChain) (lens : Nat → UInt32) : Prop where
  chain : ∀ i head, (rxHeads dev qidx mem npkts)[i]? = some head →
    IsDescChain dev (mem.desc (dev.queue qidx).desc) head (chains i)
  room : ∀ i head, (rxHeads dev qidx mem npkts)[i]? = some head →
    hdrlen + (lens i).toNat ≤ (chains i).addrs.length
  apart : ∀ i j, i < (rxHeads dev qidx mem npkts).length → j < (rxHeads dev qidx mem npkts).length → i ≠ j →
    (chains i).addrs.Disjoint (chains j).addrs

/--
The packets have these lengths.
-/
def OfLengths (pkts : Nat → Mbuf) (lens : Nat → UInt32) : Prop :=
  ∀ i, (pkts i).len = lens i ∧ (pkts i).data.length = (lens i).toNat

/--
`gpa_to_hva` takes the first descriptor to the first 12 bytes of the chain, in any order. The packet is
empty, or the first descriptor has no more than these 12 bytes and `gpa_to_hva` takes the next one to the
bytes behind them, one behind the other.
-/
def ChainFits (dev : VhostDev) (desc : Nat → VirtqDesc) (head : UInt16) (addrs : List UInt64) (len : UInt32)
    : Prop :=
  (∃ hva, dev.gpaToHva (desc head.toNat).addr = .ok hva
      ∧ (addrRun hva hdrlen).Perm (addrs.take hdrlen))
    ∧ (len = 0 ∨ (desc head.toNat).len = hdrlen.toUInt32
      ∧ ∃ hva, dev.gpaToHva (desc (desc head.toNat).next.toNat).addr = .ok hva
        ∧ addrRun hva len.toNat = (addrs.drop hdrlen).take len.toNat)

variable {dev : VhostDev} {vq : Virtqueue} {mem mem' : SharedMem} {mbuf : Mbuf} {descIdx : UInt32}

/-- The list of the writes is what the function does. -/
theorem copyMbufToDesc_eq (dev : VhostDev) (vq : Virtqueue) (mem : SharedMem) (mbuf : Mbuf) (descIdx : UInt32)
    : copyMbufToDesc dev vq mem mbuf descIdx
        = (mbufToDescStores dev vq mem mbuf descIdx).map (fun stores => stores.foldl DescStore.apply mem) := by
  unfold copyMbufToDesc mbufToDescStores
  split
  . rfl
  . dsimp only
    cases dev.gpaToHva (mem.desc vq.desc descIdx.toNat).addr with
    | error e => rfl
    | ok addr =>
      dsimp only
      split
      . change (match dev.gpaToHva (mem.desc vq.desc (mem.desc vq.desc descIdx.toNat).next.toNat).addr with
          | .error e => _
          | .ok addr => _) = _
        cases dev.gpaToHva (mem.desc vq.desc (mem.desc vq.desc descIdx.toNat).next.toNat).addr <;> rfl
      . rfl

theorem mbufToDescStores_congr {vq' : Virtqueue} (hvq : vq'.desc = vq.desc) (hmem : mem'.desc = mem.desc)
    : mbufToDescStores dev vq' mem' mbuf descIdx = mbufToDescStores dev vq mem mbuf descIdx := by
  unfold mbufToDescStores
  rw [hvq, hmem]

theorem map_fst_pairs (s : DescStore) : s.pairs.map Prod.fst = addrRun s.addr s.bytes.length := by
  apply List.map_fst_zip
  simp

theorem bytes_write (mem : SharedMem) (addr : UInt64) {bytes : List UInt8} (hlen : bytes.length ≤ 2 ^ 64)
    : (mem.write addr bytes).bytes = assign mem.bytes ((addrRun addr bytes.length).zip bytes) := by
  have hkeys := map_fst_pairs ⟨addr, bytes⟩
  unfold DescStore.pairs at hkeys
  funext a
  by_cases ha : (a - addr).toNat < bytes.length
  . have hwritten : (mem.write addr bytes).bytes a = bytes.getD (a - addr).toNat 0 := if_pos ha
    rw [hwritten, List.getD_eq_getElem _ _ ha, assign_of_mem]
    . rw [hkeys]
      exact nodup_addrRun hlen
    . rw [List.mem_iff_getElem]
      refine ⟨(a - addr).toNat, by simpa using ha, ?_⟩
      rw [List.getElem_zip, getElem_addrRun, add_toUInt64_sub]
  . have hkept : (mem.write addr bytes).bytes a = mem.bytes a := if_neg ha
    rw [hkept, assign_apart]
    rw [hkeys, mem_addrRun hlen]
    exact ha

theorem bytes_apply {stores : List DescStore} (hlen : ∀ s ∈ stores, s.bytes.length ≤ 2 ^ 64)
    : (stores.foldl DescStore.apply mem).bytes = assign mem.bytes (stores.flatMap DescStore.pairs) := by
  induction stores generalizing mem with
  | nil => rfl
  | cons s stores ih =>
    rw [List.forall_mem_cons] at hlen
    rw [List.foldl_cons, ih hlen.2, List.flatMap_cons, assign_append, DescStore.apply, bytes_write _ _ hlen.1]
    rfl

theorem desc_apply (stores : List DescStore) : (stores.foldl DescStore.apply mem).desc = mem.desc := by
  induction stores generalizing mem with
  | nil => rfl
  | cons s stores ih => exact ih

theorem length_bytes_of_stores {stores : List DescStore}
    (h : mbufToDescStores dev vq mem mbuf descIdx = .ok stores) : ∀ s ∈ stores, s.bytes.length ≤ 2 ^ 64 := by
  have hlen := mbuf.len.toNat_lt
  unfold mbufToDescStores at h
  split at h
  . contradiction
  . dsimp only at h
    split at h
    . contradiction
    . split at h
      . split at h
        . contradiction
        . cases h
          simp [hdrlen]
          omega
      . cases h
        simp [hdrlen]

/--
What is written for a packet, byte by byte.
-/
def rxPairs (dev : VhostDev) (vq : Virtqueue) (mem : SharedMem) (mbuf : Mbuf) (descIdx : UInt32)
    : List (UInt64 × UInt8) :=
  match mbufToDescStores dev vq mem mbuf descIdx with
  | .error _ => []
  | .ok stores => stores.flatMap DescStore.pairs

theorem rxPairs_congr {vq' : Virtqueue} (hvq : vq'.desc = vq.desc) (hmem : mem'.desc = mem.desc)
    : rxPairs dev vq' mem' mbuf descIdx = rxPairs dev vq mem mbuf descIdx := by
  rw [rxPairs, mbufToDescStores_congr hvq hmem]
  rfl

theorem bytes_vhostRxLoop {pkts : Nat → Mbuf} {i : Nat} {descIdxs : List UInt32} {vq' : Virtqueue}
    (h : vhostRxLoop pkts dev vq mem i descIdxs = .ok (vq', mem'))
    : mem'.bytes = assign mem.bytes
        ((descIdxs.zipIdx i).flatMap (fun p => rxPairs dev vq mem (pkts p.2) p.1)) := by
  induction descIdxs generalizing vq mem i with
  | nil =>
    cases h
    rfl
  | cons d ds ih =>
    unfold vhostRxLoop at h
    rw [copyMbufToDesc_eq] at h
    cases hstores : mbufToDescStores dev vq mem (pkts i) d with
    | error e =>
      rw [hstores] at h
      contradiction
    | ok stores =>
      rw [hstores] at h
      dsimp only [Except.map] at h
      split at h
      . contradiction
      . have hpairs : rxPairs dev vq mem (pkts i) d = stores.flatMap DescStore.pairs := by
          rw [rxPairs, hstores]
        rw [ih h, List.zipIdx_cons, List.flatMap_cons, assign_append, hpairs,
          ← bytes_apply (length_bytes_of_stores hstores)]
        apply congrArg (assign (stores.foldl DescStore.apply mem).bytes)
        apply List.flatMap_congr
        intro p _
        exact rxPairs_congr rfl (desc_apply stores)

theorem bytes_vhostRx {qidx : Fin maxMultiQueue} {pkts : Nat → Mbuf} {npkts : Int} {burst : Burst}
    (h : Ready dev (dev.queue qidx)) (hcall : vhostRx dev mem qidx pkts npkts = .ok burst)
    : burst.mem.bytes = assign mem.bytes ((availHeads (dev.queue qidx) mem burst.ret).zipIdx.flatMap
        (fun p => rxPairs dev (dev.queue qidx) mem (pkts p.2) p.1.toUInt32)) := by
  unfold vhostRx at hcall
  dsimp only at hcall
  rw [if_neg h.avail, map_rxHeads h.num] at hcall
  split at hcall
  . cases hcall
    rfl
  . split at hcall
    . contradiction
    . next vq' mem' hloop =>
      split at hcall
      . contradiction
      . cases hcall
        have hbytes := bytes_vhostRxLoop hloop
        rw [List.zipIdx_map, List.flatMap_map] at hbytes
        exact hbytes

section Packet

variable {descs : Nat → VirtqDesc} {hva hva' a : UInt64} {b : UInt8}

theorem len_eq_hdrlen_iff (len : UInt32) : len.toUInt64 - hdrlen.toUInt64 = 0 ↔ len = hdrlen.toUInt32 := by
  rw [UInt64.sub_eq_iff_eq_add, UInt64.zero_add, ← UInt64.toNat_inj, ← UInt32.toNat_inj,
    UInt32.toNat_toUInt64]
  rfl

theorem mbufToDescStores_eq (hdesc : vq.desc ≠ 0)
    (hfirst : dev.gpaToHva (mem.desc vq.desc descIdx.toNat).addr = .ok hva)
    (hnext : dev.gpaToHva (mem.desc vq.desc (mem.desc vq.desc descIdx.toNat).next.toNat).addr = .ok hva')
    : mbufToDescStores dev vq mem mbuf descIdx
        = .ok (⟨hva, .replicate hdrlen 0⟩ ::
          if (mem.desc vq.desc descIdx.toNat).len = hdrlen.toUInt32 then
            [⟨hva', mbuf.data.take mbuf.len.toNat⟩]
          else
            []) := by
  unfold mbufToDescStores
  rw [if_neg hdesc]
  dsimp only
  rw [hfirst]
  dsimp only
  rw [hnext]
  dsimp only
  simp only [len_eq_hdrlen_iff]
  split <;> rfl

theorem mbufToDescStores_ok (h : Scannable dev) (hdesc : vq.desc ≠ 0) (mem : SharedMem) (mbuf : Mbuf)
    (descIdx : UInt32) : ∃ stores, mbufToDescStores dev vq mem mbuf descIdx = .ok stores := by
  rcases gpaToHva_ok h (mem.desc vq.desc descIdx.toNat).addr with ⟨hva, hfirst⟩
  rcases gpaToHva_ok h (mem.desc vq.desc (mem.desc vq.desc descIdx.toNat).next.toNat).addr with ⟨hva', hnext⟩
  exact ⟨_, mbufToDescStores_eq hdesc hfirst hnext⟩

theorem mem_pairs {s : DescStore} {p : UInt64 × UInt8}
    : p ∈ s.pairs ↔ ∃ k : Nat, s.bytes[k]? = some p.2 ∧ p.1 = s.addr + k.toUInt64 := by
  unfold DescStore.pairs
  rw [List.mem_iff_getElem?]
  constructor
  . rintro ⟨k, hk⟩
    rw [List.getElem?_zip_eq_some] at hk
    rcases List.getElem?_eq_some_iff.mp hk.1 with ⟨hlt, haddr⟩
    rw [getElem_addrRun] at haddr
    exact ⟨k, hk.2, haddr.symm⟩
  . rintro ⟨k, hbyte, haddr⟩
    have hlt := (List.getElem?_eq_some_iff.mp hbyte).1
    refine ⟨k, ?_⟩
    rw [List.getElem?_zip_eq_some]
    refine ⟨?_, hbyte⟩
    rw [List.getElem?_eq_getElem (by simpa using hlt), getElem_addrRun, haddr]

theorem mem_rxPairs {head : UInt16} (hdesc : vq.desc ≠ 0)
    (hfirst : dev.gpaToHva (mem.desc vq.desc head.toNat).addr = .ok hva)
    (hnext : dev.gpaToHva (mem.desc vq.desc (mem.desc vq.desc head.toNat).next.toNat).addr = .ok hva')
    (hdata : mbuf.data.length = mbuf.len.toNat)
    : (a, b) ∈ rxPairs dev vq mem mbuf head.toUInt32
        ↔ (a ∈ addrRun hva hdrlen ∧ b = 0)
          ∨ ((mem.desc vq.desc head.toNat).len = hdrlen.toUInt32
            ∧ ∃ k : Nat, mbuf.data[k]? = some b ∧ a = hva' + k.toUInt64) := by
  have hhead := UInt16.toNat_toUInt32 head
  rw [← hhead] at hfirst hnext ⊢
  have hzeros : (a, b) ∈ DescStore.pairs ⟨hva, .replicate hdrlen 0⟩ ↔ a ∈ addrRun hva hdrlen ∧ b = 0 := by
    rw [mem_pairs, addrRun, List.mem_map]
    simp only [List.getElem?_replicate, List.mem_range]
    constructor
    . rintro ⟨k, hk, rfl⟩
      split at hk
      . next hlt =>
        cases hk
        exact ⟨⟨k, hlt, rfl⟩, rfl⟩
      . contradiction
    . rintro ⟨⟨k, hlt, rfl⟩, rfl⟩
      exact ⟨k, by rw [if_pos hlt], rfl⟩
  rw [rxPairs, mbufToDescStores_eq hdesc hfirst hnext]
  dsimp only
  rw [List.flatMap_cons, List.mem_append, hzeros]
  apply or_congr_right
  split
  . next hlen =>
    rw [List.flatMap_singleton, mem_pairs, List.take_of_length_le (Nat.le_of_eq hdata), eq_true hlen, true_and]
  . next hlen =>
    rw [eq_false hlen, false_and, List.flatMap_nil]
    exact iff_of_false List.not_mem_nil id

theorem map_fst_rxPairs {head : UInt16} (hdesc : vq.desc ≠ 0)
    (hfirst : dev.gpaToHva (mem.desc vq.desc head.toNat).addr = .ok hva)
    (hnext : dev.gpaToHva (mem.desc vq.desc (mem.desc vq.desc head.toNat).next.toNat).addr = .ok hva')
    (hdata : mbuf.data.length = mbuf.len.toNat)
    : (rxPairs dev vq mem mbuf head.toUInt32).map Prod.fst
        = addrRun hva hdrlen ++
          if (mem.desc vq.desc head.toNat).len = hdrlen.toUInt32 then addrRun hva' mbuf.len.toNat else [] := by
  have hhead := UInt16.toNat_toUInt32 head
  rw [← hhead] at hfirst hnext ⊢
  rw [rxPairs, mbufToDescStores_eq hdesc hfirst hnext]
  dsimp only
  rw [List.flatMap_cons, List.map_append, map_fst_pairs]
  split
  . rw [List.flatMap_singleton, map_fst_pairs, List.take_of_length_le (Nat.le_of_eq hdata), hdata,
      List.length_replicate]
  . rw [List.flatMap_nil, List.map_nil, List.length_replicate]

theorem rxPairs_of_chainFits (mem : SharedMem) (mbuf : Mbuf) {head : UInt16} {addrs : List UInt64}
    (h : Scannable dev) (hdesc : vq.desc ≠ 0) (hdata : mbuf.data.length = mbuf.len.toNat) (hnodup : addrs.Nodup)
    (hfits : ChainFits dev (mem.desc vq.desc) head addrs mbuf.len)
    : ((rxPairs dev vq mem mbuf head.toUInt32).map Prod.fst).Nodup
        ∧ (∀ p ∈ rxPairs dev vq mem mbuf head.toUInt32, p.1 ∈ addrs)
        ∧ (∀ a ∈ addrs.take hdrlen, (a, 0) ∈ rxPairs dev vq mem mbuf head.toUInt32)
        ∧ ∀ p ∈ ((addrs.drop hdrlen).take mbuf.len.toNat).zip mbuf.data,
          p ∈ rxPairs dev vq mem mbuf head.toUInt32 := by
  rcases hfits with ⟨⟨hva, hfirst, hheader⟩, hpayload⟩
  have hwritten : ∃ hva', dev.gpaToHva (mem.desc vq.desc (mem.desc vq.desc head.toNat).next.toNat).addr = .ok hva'
      ∧ ((rxPairs dev vq mem mbuf head.toUInt32).map Prod.fst).Perm (addrs.take (hdrlen + mbuf.len.toNat))
      ∧ ∀ p ∈ ((addrs.drop hdrlen).take mbuf.len.toNat).zip mbuf.data,
        p ∈ rxPairs dev vq mem mbuf head.toUInt32 := by
    rcases hpayload with hzero | ⟨hlen, hva', hnext, hrun⟩
    . rcases gpaToHva_ok h (mem.desc vq.desc (mem.desc vq.desc head.toNat).next.toNat).addr with ⟨hva', hnext⟩
      refine ⟨hva', hnext, ?_, ?_⟩
      . rw [map_fst_rxPairs hdesc hfirst hnext hdata, hzero]
        have hnone : addrRun hva' (0 : UInt32).toNat = [] := rfl
        rw [hnone, ite_self, List.append_nil]
        exact hheader
      . rw [hzero]
        intro p hp
        contradiction
    . refine ⟨hva', hnext, ?_, ?_⟩
      . rw [map_fst_rxPairs hdesc hfirst hnext hdata, if_pos hlen, hrun, List.take_add]
        exact hheader.append_right _
      . rintro ⟨a, b⟩ hp
        rw [← hrun, ← hdata] at hp
        rcases mem_pairs.mp (show (a, b) ∈ DescStore.pairs ⟨hva', mbuf.data⟩ from hp) with ⟨k, hbyte, haddr⟩
        rw [mem_rxPairs hdesc hfirst hnext hdata]
        exact .inr ⟨hlen, k, hbyte, haddr⟩
  rcases hwritten with ⟨hva', hnext, hperm, hdelivered⟩
  refine ⟨?_, ?_, ?_, hdelivered⟩
  . exact hperm.nodup_iff.mpr (hnodup.sublist (List.take_sublist _ _))
  . intro p hp
    exact List.mem_of_mem_take (hperm.mem_iff.mp (List.mem_map_of_mem hp))
  . intro a ha
    rw [mem_rxPairs hdesc hfirst hnext hdata]
    exact .inl ⟨hheader.mem_iff.mpr ha, rfl⟩

end Packet

section Burst

variable {qidx : Fin maxMultiQueue} {pkts : Nat → Mbuf} {npkts : Int} {chains : Nat → DescChain} {i : Nat}
  {head : UInt16} {burst : Burst}

theorem ret_vhostRx (h : Ready dev (dev.queue qidx)) (hcall : vhostRx dev mem qidx pkts npkts = .ok burst)
    : burst.ret = vhostRxCount (dev.queue qidx) mem npkts := by
  rcases vhostRx_ok h mem pkts npkts with ⟨burst', hcall', hput⟩
  rw [hcall] at hcall'
  cases hcall'
  rw [hput.ret, List.length_mapIdx, length_availHeads]

theorem assigned_of_mem {m : UInt64 → UInt8} {heads : List UInt16} {f : UInt16 × Nat → List (UInt64 × UInt8)}
    (hapart : ∀ i j, i < heads.length → j < heads.length → i ≠ j
      → (chains i).addrs.Disjoint (chains j).addrs)
    (hwithin : ∀ i head, heads[i]? = some head → ∀ p ∈ f (head, i), p.1 ∈ (chains i).addrs)
    (hhead : heads[i]? = some head) {a : UInt64} (ha : a ∈ (chains i).addrs)
    : assign m (heads.zipIdx.flatMap f) a = assign m (f (head, i)) a := by
  apply assign_flatMap
  . apply List.Nodup.of_map Prod.snd
    rw [List.zipIdx_map_snd]
    exact List.nodup_range'
  . exact List.mem_zipIdx_iff_getElem?.mpr hhead
  . rintro ⟨head', j⟩ hj hne hmem
    rw [List.mem_zipIdx_iff_getElem?] at hj
    rw [List.mem_map] at hmem
    rcases hmem with ⟨p, hp, rfl⟩
    have hi := (List.getElem?_eq_some_iff.mp hhead).1
    have hj' := (List.getElem?_eq_some_iff.mp hj).1
    by_cases hij : i = j
    . subst hij
      rw [hhead] at hj
      cases hj
      exact hne rfl
    . exact hapart i j hi hj' hij ha (hwithin j head' hj p hp)

theorem start_of_delivers {lens : Nat → UInt32} {bytes : UInt64 → UInt8} (h : Ready dev (dev.queue qidx))
    (hchains : ChainsFor dev qidx mem npkts chains lens) (hpkts : OfLengths pkts lens)
    (hdelivers : DeliversAll dev qidx { mem with bytes } pkts npkts chains)
    (hhead : (rxHeads dev qidx mem npkts)[i]? = some head)
    : ∃ m, (∀ a ∈ (chains i).addrs, m a = assign bytes
          (rxPairs dev (dev.queue qidx) mem (pkts i) head.toUInt32) a)
        ∧ ((chains i).addrs.take (hdrlen + (lens i).toNat)).map m
          = .replicate hdrlen 0 ++ (pkts i).data := by
  rcases hdelivers with ⟨burst, hcall, _, hall⟩
  have hret := ret_vhostRx h hcall
  change burst.ret = vhostRxCount (dev.queue qidx) mem npkts at hret
  rw [hret] at hall
  refine ⟨burst.mem.bytes, ?_, ?_⟩
  . intro a ha
    rw [bytes_vhostRx h hcall, hret]
    -- What a delivered call writes for another packet stays in the chain of that packet.
    refine assigned_of_mem hchains.apart ?_ hhead ha
    intro j head' hhead' p hp
    rcases (hall j head' hhead').1 with ⟨stores, hstores, hwithin⟩
    have hpairs : p ∈ stores.flatMap DescStore.pairs := by
      dsimp only at hp
      rw [rxPairs, hstores] at hp
      exact hp
    rcases List.mem_flatMap.mp hpairs with ⟨s, hs, hp⟩
    exact hwithin s hs p hp
  . rw [← (hpkts i).1]
    exact (hall i head hhead).2

theorem perm_of_forall_mem {as bs : List UInt64} (hnodup : as.Nodup) (hlen : bs.length ≤ as.length)
    (h : ∀ a ∈ as, a ∈ bs) : bs.Perm as :=
  ((List.subperm_of_subset hnodup h).perm_of_length_le hlen).symm

/-- Zeros between ones are those that have been written. -/
theorem header_of_delivers {lens : Nat → UInt32} {hva hva' : UInt64} (h : Ready dev (dev.queue qidx))
    (hchains : ChainsFor dev qidx mem npkts chains lens)
    (hdelivers : ∀ bytes pkts, OfLengths pkts lens →
      DeliversAll dev qidx { mem with bytes } pkts npkts chains)
    (hhead : (rxHeads dev qidx mem npkts)[i]? = some head)
    (hfirst : dev.gpaToHva (mem.desc (dev.queue qidx).desc head.toNat).addr = .ok hva)
    (hnext : dev.gpaToHva (mem.desc (dev.queue qidx).desc
      (mem.desc (dev.queue qidx).desc head.toNat).next.toNat).addr = .ok hva')
    : (addrRun hva hdrlen).Perm ((chains i).addrs.take hdrlen) := by
  have hroom := hchains.room i head hhead
  -- Among ones, in the packets and in the memory, the zeros tell where the header is written.
  let pkts : Nat → Mbuf := fun j => ⟨[], .replicate (lens j).toNat 1, lens j⟩
  have hpkts : OfLengths pkts lens := by
    intro j
    simp [pkts]
  rcases start_of_delivers h hchains hpkts (hdelivers (fun _ => 1) pkts hpkts) hhead with ⟨m, hm, hstart⟩
  have hzeros : ((chains i).addrs.take hdrlen).map m = .replicate hdrlen 0 := by
    have htake := congrArg (List.take hdrlen) hstart
    rwa [← List.map_take, List.take_take, Nat.min_eq_left (Nat.le_add_right _ _),
      List.take_left' List.length_replicate] at htake
  apply perm_of_forall_mem
  . exact (hchains.chain i head hhead).nodup.sublist (List.take_sublist _ _)
  . simp
    omega
  . intro a ha
    have hzero : m a = 0 := List.eq_of_mem_replicate (hzeros ▸ List.mem_map_of_mem ha)
    rw [hm a (List.mem_of_mem_take ha)] at hzero
    rcases eq_or_mem_of_assign (fun _ => 1) (rxPairs dev (dev.queue qidx) mem (pkts i) head.toUInt32) a
      with hsame | hmem
    . rw [hzero] at hsame
      contradiction
    . rw [hzero, mem_rxPairs h.desc hfirst hnext (hpkts i).2] at hmem
      rcases hmem with ⟨ha, _⟩ | ⟨_, k, hbyte, _⟩
      . exact ha
      . have hdata : (pkts i).data = .replicate (lens i).toNat 1 := rfl
        rw [hdata] at hbyte
        have := List.eq_of_mem_replicate (List.mem_of_getElem? hbyte)
        contradiction

/-- A one between zeros is the one that has been written. -/
theorem payload_of_delivers {lens : Nat → UInt32} {hva hva' : UInt64} {k : Nat}
    (h : Ready dev (dev.queue qidx)) (hchains : ChainsFor dev qidx mem npkts chains lens)
    (hdelivers : ∀ bytes pkts, OfLengths pkts lens →
      DeliversAll dev qidx { mem with bytes } pkts npkts chains)
    (hhead : (rxHeads dev qidx mem npkts)[i]? = some head)
    (hfirst : dev.gpaToHva (mem.desc (dev.queue qidx).desc head.toNat).addr = .ok hva)
    (hnext : dev.gpaToHva (mem.desc (dev.queue qidx).desc
      (mem.desc (dev.queue qidx).desc head.toNat).next.toNat).addr = .ok hva')
    (hk : k < (lens i).toNat)
    : (mem.desc (dev.queue qidx).desc head.toNat).len = hdrlen.toUInt32
        ∧ (chains i).addrs[hdrlen + k]? = some (hva' + k.toUInt64) := by
  have hroom := hchains.room i head hhead
  -- A packet of zeros with a single one tells where byte `k` is written.
  let pkts : Nat → Mbuf := fun j => ⟨[], (List.replicate (lens j).toNat 0).set k 1, lens j⟩
  have hpkts : OfLengths pkts lens := by
    intro j
    simp [pkts]
  have hbytes : ∀ j b, (pkts i).data[j]? = some b → b ≠ 0 → j = k := by
    intro j b hb hne
    by_contra hjk
    have hdata : (pkts i).data = (List.replicate (lens i).toNat 0).set k 1 := rfl
    rw [hdata, List.getElem?_set_ne (Ne.symm hjk)] at hb
    exact hne (List.eq_of_mem_replicate (List.mem_of_getElem? hb))
  rcases start_of_delivers h hchains hpkts (hdelivers (fun _ => 0) pkts hpkts) hhead with ⟨m, hm, hstart⟩
  have hlt : hdrlen + k < (chains i).addrs.length := by omega
  have hone : m ((chains i).addrs[hdrlen + k]) = 1 := by
    have hat := congrArg (fun l => l[hdrlen + k]?) hstart
    dsimp only [pkts] at hat
    rw [List.getElem?_map, List.getElem?_take_of_lt (by omega), List.getElem?_eq_getElem hlt,
      List.getElem?_append_right (by simp), List.length_replicate, Nat.add_sub_cancel_left,
      List.getElem?_set_self (by simpa)] at hat
    simpa using hat
  rw [hm _ (List.getElem_mem hlt)] at hone
  rcases eq_or_mem_of_assign (fun _ => 0) (rxPairs dev (dev.queue qidx) mem (pkts i) head.toUInt32)
    (chains i).addrs[hdrlen + k] with hsame | hmem
  . rw [hone] at hsame
    contradiction
  . rw [hone, mem_rxPairs h.desc hfirst hnext (hpkts i).2] at hmem
    rcases hmem with ⟨_, hzero⟩ | ⟨hlen, j, hbyte, haddr⟩
    . contradiction
    . rw [hbytes j 1 hbyte (by decide)] at haddr
      exact ⟨hlen, by rw [List.getElem?_eq_getElem hlt, haddr]⟩

theorem chainFits_of_delivers {lens : Nat → UInt32} (h : Ready dev (dev.queue qidx))
    (hchains : ChainsFor dev qidx mem npkts chains lens)
    (hdelivers : ∀ bytes pkts, OfLengths pkts lens →
      DeliversAll dev qidx { mem with bytes } pkts npkts chains)
    (hhead : (rxHeads dev qidx mem npkts)[i]? = some head)
    : ChainFits dev (mem.desc (dev.queue qidx).desc) head (chains i).addrs (lens i) := by
  rcases gpaToHva_ok h.mem (mem.desc (dev.queue qidx).desc head.toNat).addr with ⟨hva, hfirst⟩
  rcases gpaToHva_ok h.mem (mem.desc (dev.queue qidx).desc
    (mem.desc (dev.queue qidx).desc head.toNat).next.toNat).addr with ⟨hva', hnext⟩
  refine ⟨⟨hva, hfirst, header_of_delivers h hchains hdelivers hhead hfirst hnext⟩, ?_⟩
  by_cases hzero : lens i = 0
  . exact .inl hzero
  . have hpayload := fun k => payload_of_delivers (k := k) h hchains hdelivers hhead hfirst hnext
    have hpos : 0 < (lens i).toNat := by
      rw [Nat.pos_iff_ne_zero]
      exact fun h0 => hzero (UInt32.toNat_inj.mp h0)
    refine .inr ⟨(hpayload 0 hpos).1, hva', hnext, ?_⟩
    have hroom := hchains.room i head hhead
    apply List.ext_getElem?
    intro k
    by_cases hk : k < (lens i).toNat
    . rw [List.getElem?_take_of_lt hk, List.getElem?_drop, (hpayload k hk).2,
        List.getElem?_eq_getElem (by simpa using hk), getElem_addrRun]
    . rw [List.getElem?_eq_none (by simpa using hk), List.getElem?_eq_none]
      simp
      omega

theorem map_of_zip_mem {m : UInt64 → UInt8} {as : List UInt64} {bs : List UInt8} (hlen : as.length = bs.length)
    (h : ∀ p ∈ as.zip bs, m p.1 = p.2) : as.map m = bs := by
  rw [← List.map_fst_zip (Nat.le_of_eq hlen), List.map_map]
  conv_rhs => rw [← List.map_snd_zip (Nat.le_of_eq hlen.symm)]
  exact List.map_congr_left h

theorem delivers_of_chainFits {lens : Nat → UInt32} {bytes : UInt64 → UInt8} (h : Ready dev (dev.queue qidx))
    (hchains : ChainsFor dev qidx mem npkts chains lens) (hpkts : OfLengths pkts lens)
    (hfits : ∀ i head, (rxHeads dev qidx mem npkts)[i]? = some head →
      ChainFits dev (mem.desc (dev.queue qidx).desc) head (chains i).addrs (lens i))
    : DeliversAll dev qidx { mem with bytes } pkts npkts chains := by
  rcases vhostRx_ok h { mem with bytes } pkts npkts with ⟨burst, hcall, hput⟩
  have hret := ret_vhostRx h hcall
  have hwritten := fun i head hhead =>
    rxPairs_of_chainFits { mem with bytes } (pkts i) h.mem h.desc
      ((hpkts i).2.trans (congrArg UInt32.toNat (hpkts i).1.symm)) (hchains.chain i head hhead).nodup
      ((hpkts i).1 ▸ hfits i head hhead)
  refine ⟨burst, hcall, hret ▸ hput, ?_⟩
  rw [hret]
  intro i head hhead
  rcases hwritten i head hhead with ⟨hnodup, hwithin, hheader, hpayload⟩
  -- The chains share no byte, so that the writes for the other packets are elsewhere.
  have hassigned : ∀ p ∈ rxPairs dev (dev.queue qidx) { mem with bytes } (pkts i) head.toUInt32,
      burst.mem.bytes p.1 = p.2 := by
    intro p hp
    rw [bytes_vhostRx h hcall, hret]
    apply Eq.trans
    . exact assigned_of_mem hchains.apart (fun j head' hhead' => (hwritten j head' hhead').2.1) hhead (hwithin p hp)
    . exact assign_of_mem hnodup hp
  constructor
  . rcases mbufToDescStores_ok h.mem h.desc { mem with bytes } (pkts i) head.toUInt32 with ⟨stores, hstores⟩
    refine ⟨stores, hstores, ?_⟩
    intro s hs p hp
    apply hwithin
    rw [rxPairs, hstores]
    exact List.mem_flatMap.mpr ⟨s, hs, hp⟩
  . have hroom := hchains.room i head hhead
    have hlen := (hpkts i).2
    rw [List.take_add, List.map_append]
    congr 1
    . rw [List.eq_replicate_iff]
      refine ⟨?_, ?_⟩
      . rw [List.length_map, List.length_take]
        omega
      . intro b hb
        rcases List.mem_map.mp hb with ⟨a, ha, rfl⟩
        exact hassigned (a, 0) (hheader a ha)
    . apply map_of_zip_mem
      . rw [List.length_take, List.length_drop, (hpkts i).1]
        omega
      . intro p hp
        exact hassigned p (hpayload p hp)

/--
Every packet of a burst arrives, whatever the memory held before, exactly when the chains of the burst fit.
-/
theorem deliversAll_iff {lens : Nat → UInt32} (h : Ready dev (dev.queue qidx))
    (hchains : ChainsFor dev qidx mem npkts chains lens)
    : (∀ bytes pkts, OfLengths pkts lens → DeliversAll dev qidx { mem with bytes } pkts npkts chains)
        ↔ ∀ i head, (rxHeads dev qidx mem npkts)[i]? = some head →
          ChainFits dev (mem.desc (dev.queue qidx).desc) head (chains i).addrs (lens i) := by
  constructor
  . intro hdelivers i head hhead
    exact chainFits_of_delivers h hchains hdelivers hhead
  . intro hfits bytes pkts hpkts
    exact delivers_of_chainFits h hchains hpkts hfits

theorem chainFits_of_header {desc : Nat → VirtqDesc} {addrs rest : List UInt64} {hva hva' : UInt64} {len : UInt32}
    {n : Nat} (hlen : (desc head.toNat).len = hdrlen.toUInt32)
    (hfirst : dev.gpaToHva (desc head.toNat).addr = .ok hva)
    (hnext : dev.gpaToHva (desc (desc head.toNat).next.toNat).addr = .ok hva')
    (haddrs : addrs = addrRun hva hdrlen ++ (addrRun hva' n ++ rest)) (hn : len.toNat ≤ n)
    : ChainFits dev desc head addrs len := by
  have htake : addrs.take hdrlen = addrRun hva hdrlen := by
    rw [haddrs, List.take_left' (length_addrRun _ _)]
  have hdrop : addrs.drop hdrlen = addrRun hva' n ++ rest := by
    rw [haddrs, List.drop_left' (length_addrRun _ _)]
  refine ⟨⟨hva, hfirst, htake ▸ List.Perm.refl _⟩, .inr ⟨hlen, hva', hnext, ?_⟩⟩
  rw [hdrop, ← Nat.add_sub_cancel' hn, addrRun_add, List.append_assoc, List.take_left' (length_addrRun _ _)]

end Burst

/--
A guest with the given descriptors, of which it has published the first one.
-/
def rxGuest (desc : Nat → VirtqDesc) : SharedMem where
  desc := fun _ => desc
  avail := fun _ => ⟨1, fun _ => 0⟩
  used := fun _ => ⟨0, fun _ => ⟨0, 0⟩⟩
  bytes := fun _ => 0

def rxDev : VhostDev :=
  { oneRegionDev with vq := .replicate maxMultiQueue (.fourSlots 0) }

theorem ready_rxDev : Ready rxDev (rxDev.queue vhostRxQidx) := by
  have hqueue : rxDev.queue vhostRxQidx = .fourSlots 0 := rfl
  rw [hqueue]
  refine ⟨⟨_, rfl, by decide⟩, ?_, ?_, ?_, 2, ?_, ?_⟩
  all_goals simp [Virtqueue.fourSlots]

instance (region : VhostUserRegion) (gpaAddr : UInt64) : Decidable (region.Holds gpaAddr) :=
  inferInstanceAs (Decidable (_ < _))

/--
A descriptor for the header and one for the packet.
-/
def splitDescs (i : Nat) : VirtqDesc :=
  if i = 0 then ⟨0x1000, 12, 1⟩ else ⟨0x2000, 16, 0⟩

def splitChain : DescChain where
  descs := [0, 1]
  addrs := addrRun 0x7f0000001000 hdrlen ++ (addrRun 0x7f0000002000 16 ++ [])

theorem rxHeads_rxGuest (desc : Nat → VirtqDesc) : rxHeads rxDev vhostRxQidx (rxGuest desc) 1 = [0] := by
  unfold rxHeads availHeads vhostRxCount vhostRxNavail
  dsimp only [rxGuest]
  decide +kernel

theorem chainsFor_rxGuest {desc : Nat → VirtqDesc} {chain : DescChain} (len : UInt32)
    (hchain : IsDescChain rxDev desc 0 chain) (hroom : hdrlen + len.toNat ≤ chain.addrs.length)
    : ChainsFor rxDev vhostRxQidx (rxGuest desc) 1 (fun _ => chain) (fun _ => len) := by
  have hhead : ∀ (i : Nat) head, (rxHeads rxDev vhostRxQidx (rxGuest desc) 1)[i]? = some head → head = 0 := by
    intro i head h
    rw [rxHeads_rxGuest] at h
    exact List.mem_singleton.mp (List.mem_of_getElem? h)
  constructor
  . intro i head h
    rw [hhead i head h]
    exact hchain
  . intro i head _
    exact hroom
  . intro i j hi hj hne
    rw [rxHeads_rxGuest, List.length_singleton] at hi hj
    omega

theorem isDescChain_split : IsDescChain rxDev splitDescs 0 splitChain := by
  constructor
  . rfl
  . decide
  . decide +kernel
  . decide +kernel

/-- A packet of five bytes arrives behind its header. -/
theorem deliversAll_iff_split
    : Ready rxDev (rxDev.queue vhostRxQidx)
        ∧ ChainsFor rxDev vhostRxQidx (rxGuest splitDescs) 1 (fun _ => splitChain) (fun _ => 5)
        ∧ ∀ bytes pkts, OfLengths pkts (fun _ => 5) →
          DeliversAll rxDev vhostRxQidx { rxGuest splitDescs with bytes } pkts 1 (fun _ => splitChain) := by
  have hchains := chainsFor_rxGuest 5 isDescChain_split (by decide)
  refine ⟨ready_rxDev, hchains, (deliversAll_iff ready_rxDev hchains).mpr ?_⟩
  intro i head hhead
  rw [rxHeads_rxGuest] at hhead
  rw [List.mem_singleton.mp (List.mem_of_getElem? hhead)]
  have hfirst : rxDev.gpaToHva 0x1000 = .ok 0x7f0000001000 := rfl
  have hnext : rxDev.gpaToHva 0x2000 = .ok 0x7f0000002000 := rfl
  exact chainFits_of_header rfl hfirst hnext rfl (by decide)

/--
One descriptor for the header and the packet.
-/
def wholeDescs (_ : Nat) : VirtqDesc :=
  ⟨0x1000, 15, 0⟩

def wholeChain : DescChain where
  descs := [0]
  addrs := addrRun 0x7f0000001000 15

theorem isDescChain_whole : IsDescChain rxDev wholeDescs 0 wholeChain := by
  constructor
  . rfl
  . decide
  . decide +kernel
  . decide +kernel

/-- A packet of three bytes does not get into a buffer of 15 bytes. -/
theorem not_deliversAll
    : ∃ dev qidx mem npkts chains lens, Ready dev (dev.queue qidx) ∧ ChainsFor dev qidx mem npkts chains lens
        ∧ ∃ bytes pkts, OfLengths pkts lens ∧ ¬DeliversAll dev qidx { mem with bytes } pkts npkts chains := by
  have hchains := chainsFor_rxGuest 3 isDescChain_whole (by decide)
  have hpkts : OfLengths (fun _ => ⟨[], [1, 2, 3], 3⟩) (fun _ => 3) := fun _ => ⟨rfl, rfl⟩
  refine ⟨rxDev, vhostRxQidx, rxGuest wholeDescs, 1, _, _, ready_rxDev, hchains, fun _ => 0, _, hpkts, ?_⟩
  intro hdelivers
  have hhead : (rxHeads rxDev vhostRxQidx (rxGuest wholeDescs) 1)[0]? = some 0 := by
    rw [rxHeads_rxGuest]
    rfl
  rcases start_of_delivers ready_rxDev hchains hpkts hdelivers hhead with ⟨m, hm, hstart⟩
  have hfirst := hm 0x7f000000100c (by decide)
  have hkept : assign (fun _ => 0) (rxPairs rxDev (rxDev.queue vhostRxQidx) (rxGuest wholeDescs)
      ⟨[], [1, 2, 3], 3⟩ (UInt16.toUInt32 0)) (0x7f000000100c : UInt64) = 0 := by
    decide +kernel
  have hat := congrArg (fun l => l[12]?) hstart
  have hplace : (wholeChain.addrs.take (hdrlen + (3 : UInt32).toNat))[12]? = some 0x7f000000100c := by
    decide +kernel
  dsimp only at hat
  rw [List.getElem?_map, hplace, Option.map_some, hfirst] at hat
  have hzero := Option.some.inj hat
  rw [hkept] at hzero
  contradiction

end Vhost
