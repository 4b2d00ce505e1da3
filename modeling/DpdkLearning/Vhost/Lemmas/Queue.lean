import DpdkLearning.Lib.Circular
import DpdkLearning.Vhost.Impl.Virtqueue
import DpdkLearning.Vhost.Translation

/-!
This module contains what the calls of `vhost_tx` and `vhost_rx` do to a queue that is set up: which slots
of the used ring they fill and with what.
-/

open Lib

namespace Vhost

/--
The index of a ring of `num` entries is kept in 16 bits.
-/
def PowerOfTwo (num : UInt32) : Prop :=
  ∃ k, k ≤ 16 ∧ num.toNat = 2 ^ k

/--
There is a memory table, with no more regions than there is place for.
-/
def Scannable (dev : VhostDev) : Prop :=
  ∃ mem, dev.mem = some mem ∧ mem.nregions.toNat ≤ virtioMaxRegion

/--
The memory table and the queue are set up.
-/
structure Ready (dev : VhostDev) (vq : Virtqueue) : Prop where
  mem : Scannable dev
  desc : vq.desc ≠ 0
  avail : vq.avail ≠ 0
  used : vq.used ≠ 0
  num : PowerOfTwo vq.num

/--
The elements are in the slots of the used ring from `last` on, and nothing but these slots has changed in
the rings.
-/
structure UsedPut (n last : Nat) (used : UInt64) (elems : List VirtqUsedElem) (mem mem' : SharedMem)
    : Prop where
  ring : ∀ {start log}, (start + log.length) % n = last % n → Circular (mem.used used).ring n start log
    → Circular (mem'.used used).ring n start (log ++ elems)
  others : ∀ j, (∀ i < elems.length, (last + i) % n ≠ j) → (mem'.used used).ring j = (mem.used used).ring j
  idx : (mem'.used used).idx = (mem.used used).idx
  elsewhere : ∀ a, a ≠ used → mem'.used a = mem.used a
  desc : mem'.desc = mem.desc
  avail : mem'.avail = mem.avail

/--
A call has given back the elements of the burst.
-/
structure Put (vq : Virtqueue) (mem : SharedMem) (elems : List VirtqUsedElem) (burst : Burst) : Prop where
  ret : burst.ret = elems.length
  queue : burst.vq = { vq with lastUsedIdx := vq.lastUsedIdx + elems.length.toUInt32 }
  shared : ∃ mem1, UsedPut vq.num.toNat vq.lastUsedIdx.toNat vq.used elems mem mem1
    ∧ burst.mem = mem1.addUsedIdx vq.used elems.length

/--
How many of the `n` packets from `i` on are allocated before the memory runs out.
-/
def packetsFor (newMbuf : Nat → Bool) (i : Nat) : Nat → Nat
  | 0 => 0
  | n + 1 => if newMbuf i then packetsFor newMbuf (i + 1) n + 1 else 0

/--
What the slots of the avail ring from `last_used_idx` on hold.
-/
def availHeads (vq : Virtqueue) (mem : SharedMem) (n : Nat) : List UInt16 :=
  (List.range n).map (fun i =>
    (mem.avail vq.avail).ring ((vq.lastUsedIdx.toNat + i) % vq.num.toNat))

theorem packetsFor_le (newMbuf : Nat → Bool) (i n : Nat) : packetsFor newMbuf i n ≤ n := by
  induction n generalizing i with
  | zero => exact Nat.le_refl 0
  | succ n ih =>
    unfold packetsFor
    split
    . exact Nat.succ_le_succ (ih (i + 1))
    . exact Nat.zero_le _

@[simp]
theorem length_availHeads (vq : Virtqueue) (mem : SharedMem) (n : Nat)
    : (availHeads vq mem n).length = n := by
  simp [availHeads]

theorem take_availHeads (vq : Virtqueue) (mem : SharedMem) {m n : Nat} (h : m ≤ n)
    : (availHeads vq mem n).take m = availHeads vq mem m := by
  rw [availHeads, ← List.map_take, List.take_range, Nat.min_eq_left h]
  rfl

namespace PowerOfTwo

variable {num : UInt32}

theorem pos (h : PowerOfTwo num) : 0 < num.toNat := by
  rcases h with ⟨k, _, hk⟩
  rw [hk]
  exact Nat.two_pow_pos k

theorem le (h : PowerOfTwo num) : num.toNat ≤ 65536 := by
  rcases h with ⟨k, hle, hk⟩
  rw [hk]
  exact Nat.pow_le_pow_right (by decide) hle

theorem ne_zero (h : PowerOfTwo num) : num ≠ 0 := by
  rintro rfl
  exact absurd h.pos (by decide)

theorem dvd (h : PowerOfTwo num) : num.toNat ∣ 2 ^ 16 := by
  rcases h with ⟨k, hle, hk⟩
  rw [hk]
  exact Nat.pow_dvd_pow 2 hle

theorem dvd_size (h : PowerOfTwo num) : num.toNat ∣ 2 ^ 32 :=
  Nat.dvd_trans h.dvd (by decide)

theorem toNat_mod (h : PowerOfTwo num) (last : UInt32) (i : Nat)
    : ((last + i.toUInt32) % num).toNat = (last.toNat + i) % num.toNat := by
  rw [UInt32.toNat_mod, UInt32.toNat_add, Nat.mod_mod_of_dvd _ h.dvd_size]
  change (last.toNat + i % 2 ^ 32) % num.toNat = _
  rw [Nat.add_mod, Nat.mod_mod_of_dvd _ h.dvd_size, ← Nat.add_mod]

theorem toNat_and (h : PowerOfTwo num) (last : UInt32) (i : Nat)
    : ((last + i.toUInt32) &&& (num - 1)).toNat = (last.toNat + i) % num.toNat := by
  rw [← h.toNat_mod, UInt32.toNat_and, UInt32.toNat_mod]
  have hpos : (1 : UInt32).toNat ≤ num.toNat := h.pos
  rcases h with ⟨k, _, hk⟩
  have hmask : (num - 1).toNat = 2 ^ k - 1 := by
    rw [UInt32.toNat_sub_of_le num 1 (UInt32.le_iff_toNat_le.mpr hpos), hk]
    rfl
  rw [hmask, Nat.and_two_pow_sub_one_eq_mod, hk]

/-- The mask of the code is the remainder, and no more than 16 bits of it are lost. -/
theorem toNat_mask (h : PowerOfTwo num) (last : UInt32)
    : (last &&& (num - 1)).toUInt16.toNat = last.toNat % num.toNat := by
  have hand := h.toNat_and last 0
  have hle := h.le
  have hlt := Nat.mod_lt last.toNat h.pos
  simp at hand
  rw [UInt32.toNat_toUInt16, UInt32.toNat_and, hand]
  omega

theorem toNat_succ_mod (h : PowerOfTwo num) (last : UInt32)
    : (last + 1).toNat % num.toNat = (last.toNat + 1) % num.toNat := by
  rw [UInt32.toNat_add, Nat.mod_mod_of_dvd _ h.dvd_size]
  rfl

end PowerOfTwo

namespace UsedPut

variable {n last last' : Nat} {used : UInt64} {elem : VirtqUsedElem} {elems : List VirtqUsedElem}
  {mem mem' : SharedMem}

theorem nil : UsedPut n last used [] mem mem where
  ring _ h := by rwa [List.append_nil]
  others _ _ := rfl
  idx := rfl
  elsewhere _ _ := rfl
  desc := rfl
  avail := rfl

theorem setUsed_ring (mem : SharedMem) (used : UInt64) (i j : Nat) (elem : VirtqUsedElem)
    : ((mem.setUsed used i elem).used used).ring j
        = if j = i then elem else (mem.used used).ring j := by
  simp [SharedMem.setUsed]

theorem cons (hlast : last' % n = (last + 1) % n)
    (h : UsedPut n last' used elems (mem.setUsed used (last % n) elem) mem')
    : UsedPut n last used (elem :: elems) mem mem' where
  ring hstart hlog := by
    rw [List.append_cons]
    apply h.ring
    . rw [List.length_append, List.length_singleton, ← Nat.add_assoc, Nat.add_mod, hstart,
        ← Nat.add_mod, hlast]
    . apply hlog.push
      . rw [setUsed_ring, hstart, if_pos rfl]
      . intro i hi
        rw [hstart] at hi
        rw [setUsed_ring, if_neg hi]
  others j hj := by
    rw [h.others, setUsed_ring, if_neg]
    . rintro rfl
      exact hj 0 (Nat.succ_pos _) rfl
    . intro i hi hslot
      apply hj (i + 1) (Nat.succ_lt_succ hi)
      rw [← hslot, Nat.add_mod last', hlast, ← Nat.add_mod]
      congr 1
      omega
  idx := by
    rw [h.idx]
    simp [SharedMem.setUsed]
  elsewhere a ha := by
    rw [h.elsewhere a ha]
    simp [SharedMem.setUsed, ha]
  desc := h.desc
  avail := h.avail

theorem read (h : UsedPut n last used elems mem mem') (hfit : elems.length ≤ n)
    : (List.range elems.length).map (fun i => (mem'.used used).ring ((last + i) % n)) = elems := by
  have hring : Circular (mem'.used used).ring n last ([] ++ elems) := h.ring rfl .nil
  have := hring.read (c := 0) (m := elems.length) (by simp) (by simpa)
  simpa using this

end UsedPut

@[simp]
theorem queue_setQueue (dev : VhostDev) (qidx : Fin maxMultiQueue) (vq : Virtqueue)
    : (dev.setQueue qidx vq).queue qidx = vq := by
  simp [VhostDev.setQueue, VhostDev.queue]

theorem queue_setQueue_ne {dev : VhostDev} {qidx qidx' : Fin maxMultiQueue} {vq : Virtqueue}
    (h : qidx ≠ qidx') : (dev.setQueue qidx vq).queue qidx' = dev.queue qidx' := by
  simp [VhostDev.setQueue, VhostDev.queue, Fin.val_ne_of_ne h]

section Ready

variable {newMbuf : Nat → Bool} {dev : VhostDev} {vq : Virtqueue} {mem : SharedMem}

theorem Scannable.ne_none (h : Scannable dev) : dev.mem ≠ none := by
  rcases h with ⟨table, htable, _⟩
  rw [htable]
  exact Option.some_ne_none _

theorem gpaToHva_ok (h : Scannable dev) (addr : UInt64) : ∃ hva, dev.gpaToHva addr = .ok hva := by
  rcases h with ⟨table, htable, hn⟩
  unfold VhostDev.gpaToHva Vhost.gpaToHva
  rw [htable]
  dsimp only
  rw [scanRegions_eq _ (by simpa using hn)]
  exact ⟨_, rfl⟩

theorem gvaToHva_ok (h : Scannable dev) (addr : UInt64) : ∃ hva, dev.gvaToHva addr = .ok hva := by
  rcases h with ⟨table, htable, hn⟩
  unfold VhostDev.gvaToHva Vhost.gvaToHva
  rw [htable]
  dsimp only
  rw [scanRegions_eq _ (by simpa using hn)]
  exact ⟨_, rfl⟩

theorem copyDescToMbuf_ok (h : Scannable dev) (vq : Virtqueue) (mem : SharedMem) (mbuf : Mbuf)
    (descIdx : UInt16) : ∃ mbuf', copyDescToMbuf dev vq mem mbuf descIdx = .ok mbuf' := by
  rcases gpaToHva_ok h (mem.desc vq.desc descIdx.toNat).addr with ⟨hva, hhva⟩
  unfold copyDescToMbuf
  dsimp
  rw [hhva]
  dsimp
  split <;> exact ⟨_, rfl⟩

theorem copyMbufToDesc_ok (h : Scannable dev) (hdesc : vq.desc ≠ 0) (mem : SharedMem) (mbuf : Mbuf)
    (descIdx : UInt32)
    : ∃ mem', copyMbufToDesc dev vq mem mbuf descIdx = .ok mem' ∧ mem'.used = mem.used
        ∧ mem'.desc = mem.desc ∧ mem'.avail = mem.avail := by
  unfold copyMbufToDesc
  rw [if_neg hdesc]
  rcases gpaToHva_ok h (mem.desc vq.desc descIdx.toNat).addr with ⟨hva, hhva⟩
  dsimp
  rw [hhva]
  dsimp
  split
  . rcases gpaToHva_ok h ((mem.write hva (.replicate hdrlen 0)).desc vq.desc
      (mem.desc vq.desc descIdx.toNat).next.toNat).addr with ⟨hva', hhva'⟩
    rw [hhva']
    exact ⟨_, rfl, rfl, rfl, rfl⟩
  . exact ⟨_, rfl, rfl, rfl, rfl⟩

theorem Ready.advance (h : Ready dev vq) (last : UInt32)
    : Ready dev { vq with lastUsedIdx := last } :=
  ⟨h.mem, h.desc, h.avail, h.used, h.num⟩

theorem add_toUInt32_succ (last : UInt32) (n : Nat)
    : last + 1 + n.toUInt32 = last + (n + 1).toUInt32 := by
  change last + 1 + UInt32.ofNat n = last + UInt32.ofNat (n + 1)
  rw [UInt32.ofNat_add, UInt32.add_comm (UInt32.ofNat n), UInt32.add_assoc]
  rfl

/-- The loop of `vhost_tx` takes the packets that there is memory for and gives their heads back. -/
theorem vhostTxLoop_ok (newMbuf : Nat → Bool) (h : Ready dev vq) (mem : SharedMem) (i : Nat) (descIdxs : List UInt16)
    : ∃ pkts mem', vhostTxLoop newMbuf dev vq mem i descIdxs
          = .ok (pkts, { vq with
              lastUsedIdx := vq.lastUsedIdx + (packetsFor newMbuf i descIdxs.length).toUInt32 }, mem')
        ∧ pkts.map .ok = (descIdxs.take (packetsFor newMbuf i descIdxs.length)).map
            (copyDescToMbuf dev vq mem vhostNewMbuf)
        ∧ UsedPut vq.num.toNat vq.lastUsedIdx.toNat vq.used
            ((descIdxs.take (packetsFor newMbuf i descIdxs.length)).map (fun d => ⟨d.toUInt32, 0⟩))
            mem mem' := by
  induction descIdxs generalizing vq mem i with
  | nil => exact ⟨[], mem, by simp [vhostTxLoop, packetsFor], rfl, .nil⟩
  | cons d ds ih =>
    unfold vhostTxLoop
    rw [List.length_cons, packetsFor]
    -- The loop ends at the first packet without memory.
    cases hnew : newMbuf i with
    | false => exact ⟨[], mem, by simp, rfl, .nil⟩
    | true =>
      rcases copyDescToMbuf_ok h.mem vq mem vhostNewMbuf d with ⟨mbuf, hmbuf⟩
      rcases ih (h.advance (vq.lastUsedIdx + 1))
        (mem.setUsed vq.used (vq.lastUsedIdx % vq.num).toNat ⟨d.toUInt32, 0⟩) (i + 1)
        with ⟨pkts, mem', hloop, hpkts, hused⟩
      refine ⟨mbuf :: pkts, mem', ?_, ?_, ?_⟩
      . rw [if_pos rfl, hmbuf]
        dsimp at hloop ⊢
        rw [hloop]
        dsimp
        rw [add_toUInt32_succ]
      . rw [if_pos rfl, List.take_succ_cons, List.map_cons, List.map_cons, hmbuf, hpkts]
        rfl
      . rw [if_pos rfl, List.take_succ_cons, List.map_cons]
        apply UsedPut.cons (h.num.toNat_succ_mod vq.lastUsedIdx)
        rw [UInt32.toNat_mod] at hused
        exact hused

/-- The loop of `vhost_rx` fills every descriptor it is given and gives it back. -/
theorem vhostRxLoop_ok (h : Ready dev vq) (pkts : Nat → Mbuf) (mem : SharedMem) (i : Nat)
    (descIdxs : List UInt32)
    : ∃ mem', vhostRxLoop pkts dev vq mem i descIdxs
          = .ok ({ vq with lastUsedIdx := vq.lastUsedIdx + descIdxs.length.toUInt32 }, mem')
        ∧ UsedPut vq.num.toNat vq.lastUsedIdx.toNat vq.used
            (descIdxs.mapIdx (fun j d => ⟨d, (pkts (i + j)).len + hdrlen.toUInt32⟩)) mem mem' := by
  induction descIdxs generalizing vq mem i with
  | nil => exact ⟨mem, by simp [vhostRxLoop], .nil⟩
  | cons d ds ih =>
    rcases copyMbufToDesc_ok h.mem h.desc mem (pkts i) d with ⟨mem1, hmem1, hused1, hdesc1, havail1⟩
    unfold vhostRxLoop
    rw [hmem1]
    dsimp only
    rw [if_neg h.used, h.num.toNat_mask]
    rcases ih (h.advance (vq.lastUsedIdx + 1))
      (mem1.setUsed vq.used (vq.lastUsedIdx.toNat % vq.num.toNat) ⟨d, (pkts i).len + hdrlen.toUInt32⟩)
      (i + 1) with ⟨mem', hloop, hused⟩
    refine ⟨mem', ?_, ?_⟩
    . dsimp at hloop
      rw [hloop, List.length_cons, add_toUInt32_succ]
    . rw [List.mapIdx_cons]
      apply UsedPut.cons (h.num.toNat_succ_mod vq.lastUsedIdx)
      -- The copy of the packet leaves the descriptors and the rings as they are.
      have hcopied : UsedPut vq.num.toNat (vq.lastUsedIdx + 1).toNat vq.used
          (ds.mapIdx (fun j d => ⟨d, (pkts (i + 1 + j)).len + hdrlen.toUInt32⟩))
          (mem.setUsed vq.used (vq.lastUsedIdx.toNat % vq.num.toNat)
            ⟨d, (pkts i).len + hdrlen.toUInt32⟩) mem' := by
        have heq : ∀ slot elem, (mem1.setUsed vq.used slot elem).used
            = (mem.setUsed vq.used slot elem).used := by
          intro slot elem
          simp only [SharedMem.setUsed, hused1]
        constructor
        . rw [← heq]
          exact hused.ring
        . rw [← heq]
          exact hused.others
        . rw [← heq]
          exact hused.idx
        . rw [← heq]
          exact hused.elsewhere
        . rw [hused.desc]
          exact hdesc1
        . rw [hused.avail]
          exact havail1
      simpa only [Nat.add_assoc, Nat.add_comm 1, Nat.add_zero] using hcopied

theorem addUsedIdx_zero (mem : SharedMem) (used : UInt64) : mem.addUsedIdx used 0 = mem := by
  have hsame : ∀ a, (if a = used then { mem.used a with idx := (mem.used a).idx + Nat.toUInt16 0 }
      else mem.used a) = mem.used a := by
    intro a
    split
    . change { mem.used a with idx := (mem.used a).idx + 0 } = mem.used a
      rw [UInt16.add_zero]
    . rfl
  unfold SharedMem.addUsedIdx
  simp only [hsame]

/--
How many packets `vhost_rx` takes.
-/
def vhostRxCount (vq : Virtqueue) (mem : SharedMem) (npkts : Int) : Nat :=
  (min (min npkts (vhostRxNavail vq mem)) maxPktBurst).toNat

theorem map_availHeads (h : PowerOfTwo vq.num) (mem : SharedMem) (n : Nat)
    : (List.range n).map
        (fun i => (mem.avail vq.avail).ring ((vq.lastUsedIdx + i.toUInt32) % vq.num).toNat)
      = availHeads vq mem n := by
  simp only [availHeads, h.toNat_mod]

theorem vhostTx_ok (newMbuf : Nat → Bool) (h : Ready dev (dev.queue vhostTxQidx)) (mem : SharedMem)
    {npkts : UInt16} (hburst : npkts.toNat ≤ maxPktBurst)
    : ∃ burst, vhostTx newMbuf dev mem npkts = .ok burst
        ∧ Put (dev.queue vhostTxQidx) mem
            ((availHeads (dev.queue vhostTxQidx) mem (packetsFor newMbuf 0 npkts.toNat)).map
              (fun d => ⟨d.toUInt32, 0⟩)) burst
        ∧ burst.pkts.map .ok
            = (availHeads (dev.queue vhostTxQidx) mem (packetsFor newMbuf 0 npkts.toNat)).map
                (copyDescToMbuf dev (dev.queue vhostTxQidx) mem vhostNewMbuf) := by
  have hmem := h.mem.ne_none
  unfold vhostTx
  dsimp only
  rw [map_availHeads h.num]
  generalize dev.queue vhostTxQidx = vq at h ⊢
  rw [if_neg (by simp [hmem, h.desc, h.avail, h.used]), if_neg (fun hz => h.num.ne_zero hz.2),
    if_neg (by omega)]
  rcases vhostTxLoop_ok newMbuf h mem 0 (availHeads vq mem npkts.toNat)
    with ⟨pkts, mem', hloop, hpkts, hused⟩
  rw [length_availHeads, take_availHeads _ _ (packetsFor_le _ _ _)] at hpkts hused
  rw [hloop]
  have hlen : pkts.length = packetsFor newMbuf 0 npkts.toNat := by
    simpa using congrArg List.length hpkts
  refine ⟨_, rfl, ?_, hpkts⟩
  constructor
  . simpa using hlen
  . simp
  . refine ⟨mem', hused, ?_⟩
    simp [hlen]

theorem map_rxHeads (h : PowerOfTwo vq.num) (mem : SharedMem) (n : Nat)
    : (List.range n).map (fun i =>
        ((mem.avail vq.avail).ring ((vq.lastUsedIdx + i.toUInt32) &&& (vq.num - 1)).toNat).toUInt32)
      = (availHeads vq mem n).map UInt16.toUInt32 := by
  simp only [availHeads, h.toNat_and, List.map_map]
  rfl

theorem vhostRx_ok {qidx : Fin maxMultiQueue} (h : Ready dev (dev.queue qidx)) (mem : SharedMem)
    (pkts : Nat → Mbuf) (npkts : Int)
    : ∃ burst, vhostRx dev mem qidx pkts npkts = .ok burst
        ∧ Put (dev.queue qidx) mem
            ((availHeads (dev.queue qidx) mem (vhostRxCount (dev.queue qidx) mem npkts)).mapIdx
              (fun i d => ⟨d.toUInt32, (pkts i).len + hdrlen.toUInt32⟩)) burst := by
  unfold vhostRx
  dsimp only
  rw [if_neg h.avail]
  split
  . next hzero =>
    refine ⟨_, rfl, ?_⟩
    rw [vhostRxCount, hzero]
    constructor
    . rfl
    . simp [availHeads]
    . exact ⟨mem, .nil, (addUsedIdx_zero mem _).symm⟩
  . rw [map_rxHeads h.num]
    have hcount : (min (min npkts (vhostRxNavail (dev.queue qidx) mem)) maxPktBurst).toNat
        = vhostRxCount (dev.queue qidx) mem npkts := rfl
    rw [hcount]
    generalize vhostRxCount (dev.queue qidx) mem npkts = n
    generalize dev.queue qidx = vq at h ⊢
    rcases vhostRxLoop_ok h pkts mem 0 ((availHeads vq mem n).map UInt16.toUInt32)
      with ⟨mem', hloop, hused⟩
    rw [hloop]
    dsimp only
    rw [if_neg h.used]
    refine ⟨_, rfl, ?_⟩
    constructor
    . simp
    . simp
    . refine ⟨mem', ?_, by simp⟩
      have helems : ((availHeads vq mem n).map UInt16.toUInt32).mapIdx
          (fun j d => (⟨d, (pkts (0 + j)).len + hdrlen.toUInt32⟩ : VirtqUsedElem))
          = (availHeads vq mem n).mapIdx (fun i d => ⟨d.toUInt32, (pkts i).len + hdrlen.toUInt32⟩) := by
        apply List.ext_getElem
        . simp
        . simp
      rw [helems] at hused
      exact hused

end Ready

end Vhost
