import DpdkLearning.Vhost.Impl.GuestMem
import DpdkLearning.Vhost.RxCopies

/-!
This module contains how `vhost_tx` and `vhost_rx` run in the one memory of the guest: as they do where rings
and buffers are kept apart, as long as the packets are not copied over the descriptors they go by.
-/

open Lib

namespace Vhost

def DescStore.area (s : DescStore) : Area :=
  ⟨s.addr, s.bytes.length⟩

def Virtqueue.descArea (vq : Virtqueue) (i : Nat) : Area :=
  ⟨virtqDescAt vq.desc i, virtqDescSize⟩

/--
`avail->idx`
-/
def Virtqueue.availIdxArea (vq : Virtqueue) : Area :=
  ⟨vq.avail + 2, 2⟩

/--
`used->idx` and the slots of the used ring.
-/
def Virtqueue.usedArea (vq : Virtqueue) : Area :=
  ⟨vq.used + 2, 2 + virtqUsedElemSize * vq.num.toNat⟩

/--
The used rings have the same index and the same elements in their `num` slots.
-/
structure SameUsed (num : Nat) (used used' : VirtqUsed) : Prop where
  idx : used'.idx = used.idx
  ring : ∀ j < num, used'.ring j = used.ring j

theorem SameUsed.trans {num : Nat} {used used' used'' : VirtqUsed} (h : SameUsed num used used')
    (h' : SameUsed num used' used'') : SameUsed num used used'' where
  idx := h'.idx.trans h.idx
  ring j hj := (h'.ring j hj).trans (h.ring j hj)

theorem used_foldl_apply (stores : List DescStore) (mem : SharedMem)
    : (stores.foldl DescStore.apply mem).used = mem.used := by
  induction stores generalizing mem with
  | nil => rfl
  | cons s stores ih => exact ih (s.apply mem)

namespace GuestMem

/--
The descriptors that `copy_mbuf_to_desc` goes by.
-/
def descAreas (vq : Virtqueue) (mem : GuestMem) (descIdx : UInt32) : List Area :=
  vq.descArea descIdx.toNat ::
    if (mem.desc vq.desc descIdx.toNat).len = hdrlen.toUInt32 then
      [vq.descArea (mem.desc vq.desc descIdx.toNat).next.toNat]
    else
      []

/--
What `copy_mbuf_to_desc` writes as long as it does not write over its descriptors.
-/
def descStores (dev : VhostDev) (vq : Virtqueue) (mem : GuestMem) (mbuf : Mbuf) (descIdx : UInt32)
    : List DescStore :=
  match mbufToDescStores dev vq mem.view mbuf descIdx with
  | .error _ => []
  | .ok stores => stores

/--
What the packets from `i` on are copied to.
-/
def rxStores (dev : VhostDev) (vq : Virtqueue) (mem : GuestMem) (pkts : Nat → Mbuf) (i : Nat)
    (descIdxs : List UInt32) : List DescStore :=
  (descIdxs.zipIdx i).flatMap (fun p => descStores dev vq mem (pkts p.2) p.1)

def rxDescAreas (vq : Virtqueue) (mem : GuestMem) (descIdxs : List UInt32) : List Area :=
  descIdxs.flatMap (descAreas vq mem)

/--
No packet is copied over a descriptor that the packets go by, and the used ring does not lie over one.
-/
structure Undisturbed (dev : VhostDev) (vq : Virtqueue) (mem : GuestMem) (pkts : Nat → Mbuf) (i : Nat)
    (descIdxs : List UInt32) : Prop where
  copies : ∀ s ∈ rxStores dev vq mem pkts i descIdxs, ∀ r ∈ rxDescAreas vq mem descIdxs, s.area.Apart r
  ring : ∀ r ∈ rxDescAreas vq mem descIdxs, vq.usedArea.Apart r

instance {dev : VhostDev} {vq : Virtqueue} {mem : GuestMem} {pkts : Nat → Mbuf} {i : Nat} {descIdxs : List UInt32}
    : Decidable (Undisturbed dev vq mem pkts i descIdxs) :=
  decidable_of_iff
    ((∀ s ∈ rxStores dev vq mem pkts i descIdxs, ∀ r ∈ rxDescAreas vq mem descIdxs, s.area.Apart r)
      ∧ ∀ r ∈ rxDescAreas vq mem descIdxs, vq.usedArea.Apart r)
    ⟨fun h => ⟨h.1, h.2⟩, fun h => ⟨h.copies, h.ring⟩⟩

/--
What the buffers hold is the same off the used ring.
-/
def SameBuffers (vq : Virtqueue) (mem : SharedMem) (mem' : GuestMem) : Prop :=
  ∀ a, ¬vq.usedArea.Has a → mem'.bytes a = mem.bytes a

section Reads

variable {vq : Virtqueue} {mem mem' : GuestMem} {i : Nat}

theorem desc_congr (h : AddrSpace.Same (vq.descArea i) mem.bytes mem'.bytes)
    : mem'.desc vq.desc i = mem.desc vq.desc i := by
  have haddr := h.mono (Area.within_start (n := 8) (by decide))
  have hlen := h.mono (Area.within_offset (k := 8) (n := 4) (by decide) (by decide))
  have hnext := h.mono (Area.within_offset (k := 14) (n := 2) (by decide) (by decide))
  unfold desc
  rw [AddrSpace.load64_congr haddr]
  congr 1
  . exact AddrSpace.load32_congr hlen
  . exact AddrSpace.load16_congr hnext

theorem availIdx_congr (h : AddrSpace.Same vq.availIdxArea mem.bytes mem'.bytes)
    : (mem'.avail vq.avail).idx = (mem.avail vq.avail).idx :=
  AddrSpace.load16_congr h

theorem usedElemAt_eq (used : UInt64) (j : Nat)
    : virtqUsedElemAt used j = used + 2 + (2 + virtqUsedElemSize * j).toUInt64 := by
  have htwo : used + 2 = used + (2 : Nat).toUInt64 := rfl
  rw [htwo, add_toUInt64_add, virtqUsedElemAt]
  congr 2
  omega

theorem size_usedArea (hnum : vq.num.toNat ≤ 65536) : 2 + virtqUsedElemSize * vq.num.toNat ≤ 2 ^ 64 := by
  rw [virtqUsedElemSize]
  omega

theorem elem_within (hnum : vq.num.toNat ≤ 65536) (hi : i < vq.num.toNat)
    : Area.Within ⟨virtqUsedElemAt vq.used i, virtqUsedElemSize⟩ vq.usedArea := by
  rw [usedElemAt_eq]
  apply Area.within_offset (size_usedArea hnum)
  rw [virtqUsedElemSize]
  omega

theorem idx_within : Area.Within ⟨vq.used + 2, 2⟩ vq.usedArea :=
  Area.within_start (Nat.le_add_right _ _)

theorem elem_congr {a : UInt64}
    (h : AddrSpace.Same ⟨virtqUsedElemAt a i, virtqUsedElemSize⟩ mem.bytes mem'.bytes)
    : (mem'.used a).ring i = (mem.used a).ring i := by
  have hid := h.mono (Area.within_start (n := 4) (by decide))
  have hlen := h.mono (Area.within_offset (k := 4) (n := 4) (by decide) (by decide))
  unfold used
  dsimp only
  rw [AddrSpace.load32_congr hid]
  congr 1
  exact AddrSpace.load32_congr hlen

theorem used_congr (hnum : vq.num.toNat ≤ 65536) (h : AddrSpace.Same vq.usedArea mem.bytes mem'.bytes)
    : SameUsed vq.num.toNat (mem.used vq.used) (mem'.used vq.used) where
  idx := AddrSpace.load16_congr (h.mono idx_within)
  ring _ hj := elem_congr (h.mono (elem_within hnum hj))

end Reads

section Writes

variable {vq : Virtqueue} {mem : GuestMem} {shared : SharedMem} {r : Area} {i j : Nat} {elem : VirtqUsedElem}

theorem elem_apart (hi : i ≤ 65536) (hj : j ≤ 65536) (h : i ≠ j) (used : UInt64)
    : Area.Apart ⟨virtqUsedElemAt used i, virtqUsedElemSize⟩ ⟨virtqUsedElemAt used j, virtqUsedElemSize⟩ := by
  unfold virtqUsedElemAt virtqUsedElemSize
  rcases Nat.lt_or_gt_of_ne h with hlt | hgt
  . apply Area.apart_offset <;> omega
  . apply Area.Apart.symm
    apply Area.apart_offset <;> omega

theorem idx_apart (hi : i ≤ 65536) (used : UInt64)
    : Area.Apart ⟨virtqUsedElemAt used i, virtqUsedElemSize⟩ ⟨used + 2, 2⟩ := by
  unfold virtqUsedElemAt virtqUsedElemSize
  apply Area.Apart.symm
  apply Area.apart_offset (k := 2) <;> omega

theorem same_setUsed {a : UInt64} (h : Area.Apart ⟨virtqUsedElemAt a i, virtqUsedElemSize⟩ r)
    : AddrSpace.Same r mem.bytes (mem.setUsed a i elem).bytes := by
  have hid := h.mono (Area.within_start (n := 4) (by decide))
  have hlen := h.mono (Area.within_offset (k := 4) (n := 4) (by decide) (by decide))
  exact (AddrSpace.same_store32 elem.id hid).trans (AddrSpace.same_store32 elem.len hlen)

theorem ring_setUsed (mem : GuestMem) (a : UInt64) (i : Nat) (elem : VirtqUsedElem)
    : ((mem.setUsed a i elem).used a).ring i = elem := by
  have hfields : Area.Apart ⟨virtqUsedElemAt a i + (4 : Nat).toUInt64, 4⟩ ⟨virtqUsedElemAt a i, 4⟩ := by
    have h := Area.apart_offset (a := virtqUsedElemAt a i) (k := 0) (n := 4) (l := 4) (m := 4)
      (by decide) (by decide)
    apply Area.Apart.symm
    simpa using h
  have hid : (mem.setUsed a i elem).bytes.load32 (virtqUsedElemAt a i) = elem.id := by
    have hsame := AddrSpace.same_store32 (m := mem.bytes.store32 (virtqUsedElemAt a i) elem.id) elem.len hfields
    rw [← AddrSpace.load32_store32 mem.bytes (virtqUsedElemAt a i) elem.id]
    exact AddrSpace.load32_congr hsame
  have hlen : (mem.setUsed a i elem).bytes.load32 (virtqUsedElemAt a i + 4) = elem.len :=
    AddrSpace.load32_store32 _ _ _
  unfold used
  dsimp only
  rw [hid, hlen]

/-- The element is put into the used ring, whether or not it shares a memory with the buffers. -/
theorem used_setUsed (hnum : vq.num.toNat ≤ 65536) (hi : i < vq.num.toNat)
    (h : SameUsed vq.num.toNat (shared.used vq.used) (mem.used vq.used)) (elem : VirtqUsedElem)
    : SameUsed vq.num.toNat ((shared.setUsed vq.used i elem).used vq.used)
        ((mem.setUsed vq.used i elem).used vq.used) where
  idx := by
    have hidx : ((shared.setUsed vq.used i elem).used vq.used).idx = (shared.used vq.used).idx := by
      simp [SharedMem.setUsed]
    rw [hidx, ← h.idx]
    exact AddrSpace.load16_congr (same_setUsed (idx_apart (by omega) _))
  ring j hj := by
    rw [UsedPut.setUsed_ring]
    split
    . next heq =>
      rw [heq, ring_setUsed]
    . next hne =>
      rw [← h.ring j hj]
      exact elem_congr (same_setUsed (elem_apart (by omega) (by omega) (Ne.symm hne) _))

theorem same_addUsedIdx {a : UInt64} {n : Nat} (h : Area.Apart ⟨a + 2, 2⟩ r)
    : AddrSpace.Same r mem.bytes (mem.addUsedIdx a n).bytes :=
  AddrSpace.same_store16 _ h

theorem used_addUsedIdx (hnum : vq.num.toNat ≤ 65536)
    (h : SameUsed vq.num.toNat (shared.used vq.used) (mem.used vq.used)) (n : Nat)
    : SameUsed vq.num.toNat ((shared.addUsedIdx vq.used n).used vq.used)
        ((mem.addUsedIdx vq.used n).used vq.used) where
  idx := by
    have hidx : ((mem.addUsedIdx vq.used n).used vq.used).idx = (mem.used vq.used).idx + n.toUInt16 :=
      AddrSpace.load16_store16 _ _ _
    rw [hidx, h.idx]
    simp [SharedMem.addUsedIdx]
  ring j hj := by
    have hring : ((shared.addUsedIdx vq.used n).used vq.used).ring j = (shared.used vq.used).ring j := by
      simp [SharedMem.addUsedIdx]
    rw [hring, ← h.ring j hj]
    exact elem_congr (same_addUsedIdx (idx_apart (by omega) _).symm)

theorem slot_apart (hi : i < 65536) (hj : j < 65536) (h : i ≠ j) (avail : UInt64)
    : Area.Apart ⟨avail + (4 + 2 * i).toUInt64, 2⟩ ⟨avail + (4 + 2 * j).toUInt64, 2⟩ := by
  rcases Nat.lt_or_gt_of_ne h with hlt | hgt
  . apply Area.apart_offset <;> omega
  . apply Area.Apart.symm
    apply Area.apart_offset <;> omega

theorem slot_apart_idx (hj : j < 65536) (avail : UInt64)
    : Area.Apart ⟨avail + 2, 2⟩ ⟨avail + (4 + 2 * j).toUInt64, 2⟩ := by
  apply Area.apart_offset (k := 2) <;> omega

/-- The head is put into the next slot, and the others keep theirs. -/
theorem ring_publish (hnum : vq.num.toNat ≤ 65536) (hj : j < vq.num.toNat) (head : UInt16)
    : ((mem.publish vq head).avail vq.avail).ring j
        = if j = (mem.avail vq.avail).idx.toNat % vq.num.toNat then
            head
          else
            (mem.avail vq.avail).ring j := by
  have hslot := Nat.mod_lt (mem.avail vq.avail).idx.toNat (Nat.zero_lt_of_lt hj)
  have hring : ((mem.publish vq head).avail vq.avail).ring j
      = (mem.bytes.store16 (vq.avail + (4 + 2 * ((mem.avail vq.avail).idx.toNat % vq.num.toNat)).toUInt64)
          head).load16 (vq.avail + (4 + 2 * j).toUInt64) :=
    AddrSpace.load16_congr (AddrSpace.same_store16 _ (slot_apart_idx (by omega) _))
  rw [hring]
  split
  . next heq =>
    rw [heq, AddrSpace.load16_store16]
  . next hne =>
    exact AddrSpace.load16_congr
      (AddrSpace.same_store16 _ (slot_apart (by omega) (by omega) (Ne.symm hne) _))

theorem same_publish (hnum : vq.num.toNat ≤ 65536) (hpos : 0 < vq.num.toNat) (head : UInt16)
    (h : Area.Apart ⟨vq.avail, 4 + 2 * vq.num.toNat⟩ r)
    : AddrSpace.Same r mem.bytes (mem.publish vq head).bytes := by
  have hslot := Nat.mod_lt (mem.avail vq.avail).idx.toNat hpos
  have hidx := h.mono (Area.within_offset (k := 2) (n := 2) (by omega) (by omega))
  have helem := h.mono (Area.within_offset (n := 2)
    (k := 4 + 2 * ((mem.avail vq.avail).idx.toNat % vq.num.toNat)) (by omega) (by omega))
  exact (AddrSpace.same_store16 _ helem).trans (AddrSpace.same_store16 _ hidx)

end Writes

section Copies

variable {dev : VhostDev} {vq : Virtqueue} {mem mem' : GuestMem} {shared : SharedMem} {mbuf : Mbuf}
  {descIdx : UInt32} {stores : List DescStore} {r : Area}

def apply (mem : GuestMem) (s : DescStore) : GuestMem :=
  mem.write s.addr s.bytes

theorem same_apply (h : ∀ s ∈ stores, s.area.Apart r)
    : AddrSpace.Same r mem.bytes (stores.foldl apply mem).bytes := by
  induction stores generalizing mem with
  | nil => exact .refl r _
  | cons s stores ih =>
    rw [List.forall_mem_cons] at h
    exact (AddrSpace.same_store h.1).trans (ih h.2)

/-- The same bytes are stored, whether or not the rings share a memory with the buffers. -/
theorem SameBuffers.apply (h : SameBuffers vq shared mem) (stores : List DescStore)
    : SameBuffers vq (stores.foldl DescStore.apply shared) (stores.foldl apply mem) := by
  induction stores generalizing shared mem with
  | nil => exact h
  | cons s stores ih =>
    apply ih
    intro a ha
    change (if _ then _ else mem.bytes a) = if _ then _ else shared.bytes a
    rw [h a ha]

theorem descStores_eq (hdev : Scannable dev) (hdesc : vq.desc ≠ 0) (mem : GuestMem) (mbuf : Mbuf)
    (descIdx : UInt32)
    : mbufToDescStores dev vq mem.view mbuf descIdx = .ok (descStores dev vq mem mbuf descIdx) := by
  rcases mbufToDescStores_ok hdev hdesc mem.view mbuf descIdx with ⟨stores, hstores⟩
  rw [descStores, hstores]

theorem descStores_cases (hdev : Scannable dev) (hdesc : vq.desc ≠ 0) (mem : GuestMem) (mbuf : Mbuf)
    (descIdx : UInt32)
    : ∃ hva hva', dev.gpaToHva (mem.desc vq.desc descIdx.toNat).addr = .ok hva
        ∧ dev.gpaToHva (mem.desc vq.desc (mem.desc vq.desc descIdx.toNat).next.toNat).addr = .ok hva'
        ∧ descStores dev vq mem mbuf descIdx = ⟨hva, .replicate hdrlen 0⟩ ::
          if (mem.desc vq.desc descIdx.toNat).len = hdrlen.toUInt32 then
            [⟨hva', mbuf.data.take mbuf.len.toNat⟩]
          else
            [] := by
  rcases gpaToHva_ok hdev (mem.desc vq.desc descIdx.toNat).addr with ⟨hva, hfirst⟩
  rcases gpaToHva_ok hdev (mem.desc vq.desc (mem.desc vq.desc descIdx.toNat).next.toNat).addr with ⟨hva', hnext⟩
  refine ⟨hva, hva', hfirst, hnext, ?_⟩
  have hstores := @mbufToDescStores_eq dev vq mem.view mbuf descIdx hva hva' hdesc hfirst hnext
  rw [descStores, hstores]
  rfl

/-- A copy that stays off the descriptors that it goes by makes the stores that they ask for. -/
theorem copyMbufToDesc_eq (hdev : Scannable dev) (hdesc : vq.desc ≠ 0) (mbuf : Mbuf)
    (hsame : ∀ r ∈ descAreas vq mem descIdx, AddrSpace.Same r mem.bytes mem'.bytes)
    (hapart : ∀ s ∈ descStores dev vq mem mbuf descIdx, ∀ r ∈ descAreas vq mem descIdx, s.area.Apart r)
    : copyMbufToDesc dev vq mem' mbuf descIdx
        = .ok ((descStores dev vq mem mbuf descIdx).foldl apply mem') := by
  rcases descStores_cases hdev hdesc mem mbuf descIdx with ⟨hva, hva', hfirst, hnext, hstores⟩
  rw [hstores] at hapart ⊢
  rw [List.forall_mem_cons] at hapart
  have hheader : ∀ r ∈ descAreas vq mem descIdx,
      AddrSpace.Same r mem.bytes (mem'.write hva (.replicate hdrlen 0)).bytes := by
    intro r hr
    exact (hsame r hr).trans (AddrSpace.same_store (hapart.1 r hr))
  have hdescEq : mem'.desc vq.desc descIdx.toNat = mem.desc vq.desc descIdx.toNat :=
    desc_congr (hsame _ (List.mem_cons_self ..))
  have hagain : (mem'.write hva (.replicate hdrlen 0)).desc vq.desc descIdx.toNat
      = mem.desc vq.desc descIdx.toNat :=
    desc_congr (hheader _ (List.mem_cons_self ..))
  unfold copyMbufToDesc
  rw [if_neg hdesc, hdescEq, hfirst]
  dsimp only
  rw [hagain]
  simp only [len_eq_hdrlen_iff]
  by_cases hlen : (mem.desc vq.desc descIdx.toNat).len = hdrlen.toUInt32
  . have hnextEq : (mem'.write hva (.replicate hdrlen 0)).desc vq.desc
        (mem.desc vq.desc descIdx.toNat).next.toNat
        = mem.desc vq.desc (mem.desc vq.desc descIdx.toNat).next.toNat :=
      desc_congr (hheader _ (by simp [descAreas, hlen]))
    rw [if_pos hlen, if_pos hlen, hnextEq, hnext]
    rfl
  . rw [if_neg hlen, if_neg hlen]
    rfl

theorem shared_copyMbufToDesc_eq (hdev : Scannable dev) (hdesc : vq.desc ≠ 0) (mbuf : Mbuf)
    (hshared : shared.desc = mem.desc)
    : Vhost.copyMbufToDesc dev vq shared mbuf descIdx
        = .ok ((descStores dev vq mem mbuf descIdx).foldl DescStore.apply shared) := by
  have hstores := @mbufToDescStores_congr dev vq mem.view shared mbuf descIdx vq rfl hshared
  rw [Vhost.copyMbufToDesc_eq, hstores, descStores_eq hdev hdesc]
  rfl

end Copies

section Loops

variable {dev : VhostDev} {vq : Virtqueue} {mem mem' : GuestMem} {shared : SharedMem} {pkts : Nat → Mbuf}
  {i : Nat} {d : UInt32} {descIdxs : List UInt32} {elem : VirtqUsedElem}

theorem SameBuffers.keep (h : SameBuffers vq shared mem)
    (hsame : ∀ r, vq.usedArea.Apart r → AddrSpace.Same r mem.bytes mem'.bytes) : SameBuffers vq shared mem' := by
  intro a ha
  rw [(hsame ⟨a, 1⟩ (Area.apart_singleton ha)).at]
  exact h a ha

theorem same_elem {r : Area} (hnum : vq.num.toNat ≤ 65536) (hi : i < vq.num.toNat) (hr : vq.usedArea.Apart r)
    : AddrSpace.Same r mem.bytes (mem.setUsed vq.used i elem).bytes :=
  same_setUsed (hr.mono (elem_within hnum hi))

theorem same_usedIdx {r : Area} {n : Nat} (hr : vq.usedArea.Apart r)
    : AddrSpace.Same r mem.bytes (mem.addUsedIdx vq.used n).bytes :=
  same_addUsedIdx (hr.mono idx_within)

theorem mem_rxStores_cons {s : DescStore}
    : s ∈ rxStores dev vq mem pkts i (d :: descIdxs)
        ↔ s ∈ descStores dev vq mem (pkts i) d ∨ s ∈ rxStores dev vq mem pkts (i + 1) descIdxs := by
  rw [rxStores, List.zipIdx_cons, List.flatMap_cons, List.mem_append]
  rfl

theorem mem_rxDescAreas_cons {r : Area}
    : r ∈ rxDescAreas vq mem (d :: descIdxs) ↔ r ∈ descAreas vq mem d ∨ r ∈ rxDescAreas vq mem descIdxs := by
  rw [rxDescAreas, List.flatMap_cons, List.mem_append]
  rfl

theorem Undisturbed.tail (h : Undisturbed dev vq mem pkts i (d :: descIdxs))
    : Undisturbed dev { vq with lastUsedIdx := vq.lastUsedIdx + 1 } mem pkts (i + 1) descIdxs where
  copies s hs r hr := by
    apply h.copies
    . exact mem_rxStores_cons.mpr (.inr hs)
    . exact mem_rxDescAreas_cons.mpr (.inr hr)
  ring r hr := by
    apply h.ring
    exact mem_rxDescAreas_cons.mpr (.inr hr)

/-- In one memory and apart from it, the loop of `vhost_rx` makes the same stores. -/
theorem vhostRxLoop_sim (h : Ready dev vq) (hund : Undisturbed dev vq mem pkts i descIdxs)
    (hsame : ∀ r ∈ rxDescAreas vq mem descIdxs, AddrSpace.Same r mem.bytes mem'.bytes)
    (hdesc : shared.desc = mem.desc) (hbuffers : SameBuffers vq shared mem')
    : ∃ vq1 shared1 mem1, Vhost.vhostRxLoop pkts dev vq shared i descIdxs = .ok (vq1, shared1)
        ∧ vhostRxLoop pkts dev vq mem' i descIdxs = .ok (vq1, mem1)
        ∧ SameBuffers vq shared1 mem1
        ∧ (∀ r, (∀ s ∈ rxStores dev vq mem pkts i descIdxs, s.area.Apart r) → vq.usedArea.Apart r
            → AddrSpace.Same r mem'.bytes mem1.bytes)
        ∧ ((∀ s ∈ rxStores dev vq mem pkts i descIdxs, s.area.Apart vq.usedArea)
            → SameUsed vq.num.toNat (shared.used vq.used) (mem'.used vq.used)
            → SameUsed vq.num.toNat (shared1.used vq.used) (mem1.used vq.used)) := by
  induction descIdxs generalizing vq shared mem' i with
  | nil =>
    refine ⟨vq, shared, mem', rfl, rfl, hbuffers, ?_, ?_⟩
    . intro r _ _
      exact .refl r _
    . intro _ hused
      exact hused
  | cons d ds ih =>
    have hnum := h.num.le
    have hslot := Nat.mod_lt vq.lastUsedIdx.toNat h.num.pos
    have hhead : ∀ r ∈ descAreas vq mem d, r ∈ rxDescAreas vq mem (d :: ds) := by
      intro r hr
      exact mem_rxDescAreas_cons.mpr (.inl hr)
    have hfirst : ∀ s ∈ descStores dev vq mem (pkts i) d, s ∈ rxStores dev vq mem pkts i (d :: ds) := by
      intro s hs
      exact mem_rxStores_cons.mpr (.inl hs)
    have hrest : ∀ s ∈ rxStores dev vq mem pkts (i + 1) ds, s ∈ rxStores dev vq mem pkts i (d :: ds) := by
      intro s hs
      exact mem_rxStores_cons.mpr (.inr hs)
    have hcopy := copyMbufToDesc_eq h.mem h.desc (pkts i)
      (fun r hr => hsame r (hhead r hr)) (fun s hs r hr => hund.copies s (hfirst s hs) r (hhead r hr))
    have hcopy' := @shared_copyMbufToDesc_eq dev vq mem shared d h.mem h.desc (pkts i) hdesc
    unfold vhostRxLoop Vhost.vhostRxLoop
    rw [hcopy, hcopy']
    dsimp only
    rw [if_neg h.used, if_neg h.used, h.num.toNat_mask]
    generalize hstores : descStores dev vq mem (pkts i) d = stores at hcopy hcopy' hfirst ⊢
    generalize helem : (⟨d, (pkts i).len + hdrlen.toUInt32⟩ : VirtqUsedElem) = elem
    have hcopied : ∀ r, (∀ s ∈ stores, s.area.Apart r) → vq.usedArea.Apart r → AddrSpace.Same r mem'.bytes
        ((stores.foldl apply mem').setUsed vq.used (vq.lastUsedIdx.toNat % vq.num.toNat) elem).bytes := by
      intro r hstored hring
      exact (same_apply hstored).trans (same_elem hnum hslot hring)
    have hsame' : ∀ r ∈ rxDescAreas vq mem ds, AddrSpace.Same r mem.bytes
        ((stores.foldl apply mem').setUsed vq.used (vq.lastUsedIdx.toNat % vq.num.toNat) elem).bytes := by
      intro r hr
      have hmem : r ∈ rxDescAreas vq mem (d :: ds) := mem_rxDescAreas_cons.mpr (.inr hr)
      exact (hsame r hmem).trans (hcopied r (fun s hs => hund.copies s (hfirst s hs) r hmem) (hund.ring r hmem))
    have hdesc' : ((stores.foldl DescStore.apply shared).setUsed vq.used
        (vq.lastUsedIdx.toNat % vq.num.toNat) elem).desc = mem.desc :=
      (desc_apply stores).trans hdesc
    rcases ih (h.advance (vq.lastUsedIdx + 1)) hund.tail hsame' hdesc'
        ((hbuffers.apply stores).keep (fun _ hr => same_elem hnum hslot hr))
      with ⟨vq1, shared1, mem1, hloop, hloop', hbuf, hframe, hused⟩
    refine ⟨vq1, shared1, mem1, hloop, hloop', hbuf, ?_, ?_⟩
    . intro r hstored hring
      exact (hcopied r (fun s hs => hstored s (hfirst s hs)) hring).trans
        (hframe r (fun s hs => hstored s (hrest s hs)) hring)
    . intro hoff hbefore
      apply hused (fun s hs => hoff s (hrest s hs))
      apply used_setUsed hnum hslot
      have hkept := used_congr hnum (@same_apply mem' stores _ (fun s hs => hoff s (hfirst s hs)))
      rw [used_foldl_apply]
      exact hbefore.trans hkept

/-- So does the loop of `vhost_tx`, which stores into the used ring only. -/
theorem vhostTxLoop_sim {newMbuf : Nat → Bool} {descIdxs : List UInt16} (h : Ready dev vq)
    (hbuffers : SameBuffers vq shared mem)
    (hused : SameUsed vq.num.toNat (shared.used vq.used) (mem.used vq.used))
    : ∃ pkts pkts' vq1 shared1 mem1, Vhost.vhostTxLoop newMbuf dev vq shared i descIdxs = .ok (pkts, vq1, shared1)
        ∧ vhostTxLoop newMbuf dev vq mem i descIdxs = .ok (pkts', vq1, mem1)
        ∧ pkts'.length = pkts.length
        ∧ SameBuffers vq shared1 mem1
        ∧ (∀ r, vq.usedArea.Apart r → AddrSpace.Same r mem.bytes mem1.bytes)
        ∧ SameUsed vq.num.toNat (shared1.used vq.used) (mem1.used vq.used) := by
  induction descIdxs generalizing vq shared mem i with
  | nil =>
    refine ⟨[], [], vq, shared, mem, rfl, rfl, rfl, hbuffers, ?_, hused⟩
    intro r _
    exact .refl r _
  | cons d ds ih =>
    have hnum := h.num.le
    have hslot : (vq.lastUsedIdx % vq.num).toNat < vq.num.toNat := by
      rw [UInt32.toNat_mod]
      exact Nat.mod_lt _ h.num.pos
    unfold vhostTxLoop Vhost.vhostTxLoop
    -- The loop ends at the first packet without memory.
    cases hnew : newMbuf i with
    | false =>
      refine ⟨[], [], vq, shared, mem, rfl, rfl, rfl, hbuffers, ?_, hused⟩
      intro r _
      exact .refl r _
    | true =>
      rcases copyDescToMbuf_ok h.mem vq shared vhostNewMbuf d with ⟨mbuf, hmbuf⟩
      rcases copyDescToMbuf_ok h.mem vq mem.view vhostNewMbuf d with ⟨mbuf', hmbuf'⟩
      rw [if_pos rfl, if_pos rfl, hmbuf, hmbuf']
      dsimp only
      have hbuf0 : SameBuffers vq (shared.setUsed vq.used (vq.lastUsedIdx % vq.num).toNat ⟨d.toUInt32, 0⟩)
          (mem.setUsed vq.used (vq.lastUsedIdx % vq.num).toNat ⟨d.toUInt32, 0⟩) :=
        hbuffers.keep (fun _ hr => same_elem hnum hslot hr)
      rcases ih (h.advance (vq.lastUsedIdx + 1)) (i := i + 1) hbuf0 (used_setUsed hnum hslot hused _)
        with ⟨pkts, pkts', vq1, shared1, mem1, hloop, hloop', hlen, hbuf, hframe, hused'⟩
      rw [hloop, hloop']
      refine ⟨mbuf :: pkts, mbuf' :: pkts', vq1, shared1, mem1, rfl, rfl, ?_, hbuf, ?_, hused'⟩
      . rw [List.length_cons, List.length_cons, hlen]
      . intro r hring
        exact (same_elem hnum hslot hring).trans (hframe r hring)

end Loops

section Calls

variable {dev : VhostDev} {qidx : Fin maxMultiQueue}

/--
A call in one memory returns what it returns where rings and buffers are apart, and leaves the same in the
buffers. It changes nothing but the used ring and what its packets are copied to, and the used ring in the
same way if no packet is copied over it.
-/
structure Simulates (vq : Virtqueue) (stores : List DescStore) (mem : GuestMem) (shared : Vhost.Burst)
    (burst : Burst) : Prop where
  ret : burst.ret = shared.ret
  queue : burst.vq = shared.vq
  notified : burst.notified = shared.notified
  buffers : SameBuffers vq shared.mem burst.mem
  frame : ∀ r, (∀ s ∈ stores, s.area.Apart r) → vq.usedArea.Apart r
    → AddrSpace.Same r mem.bytes burst.mem.bytes
  used : (∀ s ∈ stores, s.area.Apart vq.usedArea)
    → SameUsed vq.num.toNat (shared.mem.used vq.used) (burst.mem.used vq.used)

/--
The descriptors that a call of `vhost_rx` takes from the avail ring.
-/
def rxDescIdxs (dev : VhostDev) (qidx : Fin maxMultiQueue) (mem : GuestMem) (npkts : Int) : List UInt32 :=
  (rxHeads dev qidx mem.view npkts).map UInt16.toUInt32

theorem sameUsed_view (mem : GuestMem) (vq : Virtqueue)
    : SameUsed vq.num.toNat (mem.view.used vq.used) (mem.used vq.used) :=
  ⟨rfl, fun _ _ => rfl⟩

theorem sameBuffers_view (mem : GuestMem) (vq : Virtqueue) : SameBuffers vq mem.view mem :=
  fun _ _ => rfl

/-- A call of `vhost_rx` that does not write over its descriptors runs as if the rings were apart. -/
theorem vhostRx_sim (h : Ready dev (dev.queue qidx)) (mem : GuestMem) (pkts : Nat → Mbuf) (npkts : Int)
    (hund : Undisturbed dev (dev.queue qidx) mem pkts 0 (rxDescIdxs dev qidx mem npkts))
    : ∃ shared burst, Vhost.vhostRx dev mem.view qidx pkts npkts = .ok shared
        ∧ vhostRx dev mem qidx pkts npkts = .ok burst
        ∧ Simulates (dev.queue qidx)
            (rxStores dev (dev.queue qidx) mem pkts 0 (rxDescIdxs dev qidx mem npkts)) mem shared burst := by
  unfold vhostRx Vhost.vhostRx
  dsimp only
  rw [if_neg h.avail, if_neg h.avail]
  split
  . refine ⟨_, _, rfl, rfl, ?_⟩
    constructor
    . rfl
    . rfl
    . rfl
    . exact sameBuffers_view mem _
    . intro r _ _
      exact .refl r _
    . intro _
      exact sameUsed_view mem _
  . have hheads : (List.range (min (min npkts (vhostRxNavail (dev.queue qidx) mem.view)) maxPktBurst).toNat).map
        (fun i => ((mem.view.avail (dev.queue qidx).avail).ring
          (((dev.queue qidx).lastUsedIdx + i.toUInt32) &&& ((dev.queue qidx).num - 1)).toNat).toUInt32)
        = rxDescIdxs dev qidx mem npkts :=
      map_rxHeads h.num mem.view _
    have hheads' := hheads
    change (List.range _).map (fun i => ((mem.avail (dev.queue qidx).avail).ring _).toUInt32) = _ at hheads'
    rw [hheads, hheads']
    rcases vhostRxLoop_sim h hund (fun r _ => .refl r _) rfl (sameBuffers_view mem _)
      with ⟨vq1, shared1, mem1, hloop, hloop', hbuf, hframe, hring⟩
    rcases vhostRxLoop_ok h pkts mem.view 0 (rxDescIdxs dev qidx mem npkts) with ⟨_, hmoved, _⟩
    rw [hloop] at hmoved
    cases hmoved
    rw [hloop, hloop']
    dsimp only
    rw [if_neg h.used, if_neg h.used]
    refine ⟨_, _, rfl, rfl, ?_⟩
    constructor
    . rfl
    . rfl
    . rfl
    . exact hbuf.keep (fun _ hr => same_usedIdx hr)
    . intro r hstores hr
      exact (hframe r hstores hr).trans (same_usedIdx hr)
    . intro hoff
      exact used_addUsedIdx h.num.le (hring hoff (sameUsed_view mem _)) _

/-- So does every call of `vhost_tx`, but for what its packets hold. -/
theorem vhostTx_sim (h : Ready dev (dev.queue vhostTxQidx)) (mem : GuestMem) (newMbuf : Nat → Bool)
    {npkts : UInt16} (hburst : npkts.toNat ≤ maxPktBurst)
    : ∃ shared burst, Vhost.vhostTx newMbuf dev mem.view npkts = .ok shared
        ∧ vhostTx newMbuf dev mem npkts = .ok burst
        ∧ Simulates (dev.queue vhostTxQidx) [] mem shared burst := by
  have hmem := h.mem.ne_none
  unfold vhostTx Vhost.vhostTx
  dsimp only
  rw [if_neg (by simp [hmem, h.desc, h.avail, h.used]), if_neg (fun hz => h.num.ne_zero hz.2),
    if_neg (by omega), if_neg (by simp [hmem, h.desc, h.avail, h.used]),
    if_neg (fun hz => h.num.ne_zero hz.2), if_neg (by omega)]
  have hheads := map_availHeads h.num mem.view npkts.toNat
  have hheads' := hheads
  change (List.range _).map (fun i => (mem.avail (dev.queue vhostTxQidx).avail).ring _) = _ at hheads'
  rw [hheads, hheads']
  rcases vhostTxLoop_sim h (sameBuffers_view mem _) (sameUsed_view mem _)
    with ⟨pkts, pkts', vq1, shared1, mem1, hloop, hloop', hlen, hbuf, hframe, hused⟩
  rcases vhostTxLoop_ok newMbuf h mem.view 0 (availHeads (dev.queue vhostTxQidx) mem.view npkts.toNat)
    with ⟨_, _, hmoved, _⟩
  rw [hloop] at hmoved
  cases hmoved
  rw [hloop, hloop']
  dsimp only
  rw [hlen]
  refine ⟨_, _, rfl, rfl, ?_⟩
  constructor
  . rfl
  . rfl
  . rfl
  . exact hbuf.keep (fun _ hr => same_usedIdx hr)
  . intro r _ hr
    exact (hframe r hr).trans (same_usedIdx hr)
  . intro _
    exact used_addUsedIdx h.num.le hused _

end Calls

end GuestMem

def VirtqDesc.bytes (desc : VirtqDesc) : List UInt8 :=
  Memory.ofUInt64 desc.addr ++ Memory.ofUInt32 desc.len ++ [0, 0] ++ Memory.ofUInt16 desc.next

/--
A memory that is zero but for these descriptors.
-/
def GuestMem.ofDescs (desc : UInt64) (descs : List VirtqDesc) : GuestMem :=
  GuestMem.write ⟨fun _ => 0⟩ desc (descs.flatMap VirtqDesc.bytes)

/--
A queue of four slots, a page for each of its parts.
-/
def Virtqueue.pages (base : UInt64) (last : UInt32) : Virtqueue where
  desc := base
  avail := base + 0x1000
  used := base + 0x2000
  kickfd := 5
  callfd := 6
  num := 4
  lastUsedIdx := last

/--
The guest has one region. Its queues are at the start of it, but for the one it sends over.
-/
def pagesDev (last : UInt32) : VhostDev :=
  VhostDev.setQueue { oneRegionDev with vq := .replicate maxMultiQueue (.pages 0x7f0000000000 last) }
    vhostTxQidx (.pages 0x7f0000008000 last)

theorem queue_pagesDev (last : UInt32) : (pagesDev last).queue vhostRxQidx = .pages 0x7f0000000000 last := by
  rw [pagesDev, queue_setQueue_ne (by decide)]
  rfl

theorem scannable_pagesDev (last : UInt32) : Scannable (pagesDev last) :=
  ⟨_, rfl, by decide⟩

theorem ready_pages {dev : VhostDev} (h : Scannable dev) {base : UInt64} (last : UInt32) (hdesc : base ≠ 0)
    (havail : base + 0x1000 ≠ 0) (hused : base + 0x2000 ≠ 0) : Ready dev (.pages base last) :=
  ⟨h, hdesc, havail, hused, 2, by decide, rfl⟩

end Vhost
