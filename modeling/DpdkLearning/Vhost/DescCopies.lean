import DpdkLearning.Lib.AddrRun
import DpdkLearning.Vhost.Lemmas.Queue

/-!
This module contains the copies that `copy_desc_to_mbuf` makes, and for which descriptors they stay within a
mapped region and within the packet.
-/

open Lib

namespace Vhost

/--
What `copy_desc_to_mbuf` writes into the packet: `n` bytes from `src` on into the header or to the start of
the data, or the length.
-/
inductive MbufWrite where
  | hdr (src : UInt64) (n : Nat)
  | len (v : UInt32)
  | data (src : UInt64) (n : Nat)

namespace MbufWrite

def apply (mem : SharedMem) (mbuf : Mbuf) : MbufWrite → Mbuf
  | .hdr src n => { mbuf with hdr := mem.read src n }
  | .len v => { mbuf with len := v }
  | .data src n => { mbuf with data := mem.read src n }

/--
The addresses it reads.
-/
def reads : MbufWrite → List UInt64
  | .hdr src n => addrRun src n
  | .len _ => []
  | .data src n => addrRun src n

def dataBytes : MbufWrite → Nat
  | .hdr _ _ => 0
  | .len _ => 0
  | .data _ n => n

end MbufWrite

def descToMbufWrites (dev : VhostDev) (vq : Virtqueue) (mem : SharedMem) (descIdx : UInt16)
    : Except Misuse (List MbufWrite) :=
  let desc := mem.desc vq.desc descIdx.toNat
  match dev.gpaToHva desc.addr with
  | .error e => .error e
  | .ok descAddr =>
    let descPktLen := desc.len - hdrlen.toUInt32
    .ok (.hdr descAddr hdrlen ::
      if descPktLen > 0 then
        [.len descPktLen, .data (descAddr + hdrlen.toUInt64) descPktLen.toNat]
      else
        [])

/--
The regions of the memory table.
-/
def VhostDev.regions (dev : VhostDev) : List VhostUserRegion :=
  match dev.mem with
  | none => []
  | some mem => ((List.finRange virtioMaxRegion).take mem.nregions.toNat).map mem.regions.get

/--
Where the region is mapped.
-/
def VhostUserRegion.mapped (region : VhostUserRegion) : UInt64 :=
  region.guestAddress + region.mmapOffset

/--
The copies of a descriptor into a fresh packet read addresses of one mapped region only, and not `0`, write
no more data than there is place for, and leave the length of the descriptor without the header.
-/
def CopiesInBounds (dev : VhostDev) (vq : Virtqueue) (mem : SharedMem) (descIdx : UInt16) : Prop :=
  ∃ writes mbuf, descToMbufWrites dev vq mem descIdx = .ok writes
    ∧ copyDescToMbuf dev vq mem vhostNewMbuf descIdx = .ok mbuf
    ∧ (∃ region ∈ dev.regions, ∀ a ∈ writes.flatMap MbufWrite.reads, a - region.mapped < region.size)
    ∧ 0 ∉ writes.flatMap MbufWrite.reads
    ∧ (∀ w ∈ writes, w.dataBytes ≤ mbufDataLength.toNat)
    ∧ mbuf.len.toNat + hdrlen = (mem.desc vq.desc descIdx.toNat).len.toNat

/--
The first region whose addresses, the one behind its end included, have the address among them.
-/
def VhostDev.regionOf (dev : VhostDev) (gpaAddr : UInt64) : Option VhostUserRegion :=
  dev.regions.find? (fun region =>
    gpaAddr ≤ region.guestAddress + region.size ∧ gpaAddr ≥ region.guestAddress)

/--
The bytes are those of one mapped region, and the address `0` is not among them.
-/
def VhostDev.holds (dev : VhostDev) (hva : UInt64) (n : Nat) : Bool :=
  hva ≠ 0 && hva.toNat + n ≤ 2 ^ 64
    && dev.regions.any (fun region => (hva - region.mapped).toNat + n ≤ region.size.toNat)

/--
There is data behind the header, no more than a packet has place for, and it is in one mapped region, also
with the offset of the first region that has the address.
-/
def descFits (dev : VhostDev) (desc : VirtqDesc) : Bool :=
  hdrlen < desc.len.toNat && desc.len.toNat ≤ hdrlen + mbufDataLength.toNat
    && (dev.regionOf desc.addr).any (fun region => dev.holds (desc.addr + region.mmapOffset) desc.len.toNat)

variable {dev : VhostDev} {vq : Virtqueue} {mem : SharedMem} {mbuf : Mbuf} {descIdx : UInt16}
  {addr hva : UInt64} {region : VhostUserRegion} {n : Nat}

/-- The list of the writes is what the function does. -/
theorem copyDescToMbuf_eq (dev : VhostDev) (vq : Virtqueue) (mem : SharedMem) (mbuf : Mbuf) (descIdx : UInt16)
    : copyDescToMbuf dev vq mem mbuf descIdx
        = (descToMbufWrites dev vq mem descIdx).map (fun writes => writes.foldl (MbufWrite.apply mem) mbuf) := by
  unfold copyDescToMbuf descToMbufWrites
  dsimp only
  cases dev.gpaToHva (mem.desc vq.desc descIdx.toNat).addr with
  | error e => rfl
  | ok descAddr =>
    dsimp only
    split <;> rfl

section Table

theorem scanRegions_of_count {table : VhostUserMem} {hit : VhostUserRegion → Option UInt64} {i : Nat}
    (hi : i ≤ virtioMaxRegion)
    : table.scanRegions hit i n
        = (((((List.finRange virtioMaxRegion).drop i).take n).map (fun j => table.regions[j])).findSome? hit).elim
            (if i + n ≤ virtioMaxRegion then .ok 0 else .error .outOfBounds) .ok := by
  induction n generalizing i with
  | zero => simp [VhostUserMem.scanRegions, hi]
  | succ n ih =>
    unfold VhostUserMem.scanRegions
    split
    . next hlt =>
      rw [List.drop_eq_getElem_cons (by simpa using hlt)]
      simp only [List.getElem_finRange, List.take_succ_cons, List.map_cons, List.findSome?_cons]
      cases hhit : hit table.regions[i] with
      | none => simp [hhit, ih hlt, Nat.add_right_comm, Nat.add_assoc]
      | some hva => simp [hhit]
    . next hlt =>
      rw [List.drop_eq_nil_of_le (by simpa using Nat.le_of_not_lt hlt), if_neg (by omega)]
      simp

theorem gpaToHva_cases (dev : VhostDev) (addr : UInt64)
    : (∃ region, dev.regionOf addr = some region ∧ dev.gpaToHva addr = .ok (addr + region.mmapOffset))
      ∨ dev.regionOf addr = none ∧ (dev.gpaToHva addr = .ok 0 ∨ ∃ e, dev.gpaToHva addr = .error e) := by
  unfold VhostDev.gpaToHva Vhost.gpaToHva VhostDev.regionOf VhostDev.regions
  cases dev.mem with
  | none => exact .inr ⟨rfl, .inr ⟨_, rfl⟩⟩
  | some table =>
    dsimp only
    rw [scanRegions_of_count (Nat.zero_le _), List.drop_zero, findSome?_ite]
    cases List.find? _ _ with
    | some region => exact .inl ⟨region, rfl, rfl⟩
    | none =>
      refine .inr ⟨rfl, ?_⟩
      split
      . exact .inl rfl
      . exact .inr ⟨_, rfl⟩

end Table

theorem VhostDev.holds_iff (hn : 0 < n)
    : dev.holds hva n = true
        ↔ 0 ∉ addrRun hva n ∧ ∃ region ∈ dev.regions, ∀ a ∈ addrRun hva n, a - region.mapped < region.size := by
  simp only [VhostDev.holds, zero_notMem_addrRun hn, addrRun_within hn, Bool.and_eq_true, decide_eq_true_eq,
    List.any_eq_true]

section Writes

variable {len : UInt32}

theorem toNat_descPktLen (hlen : hdrlen ≤ len.toNat) : (len - hdrlen.toUInt32).toNat = len.toNat - hdrlen :=
  UInt32.toNat_sub_of_le len hdrlen.toUInt32 hlen

theorem toNat_descPktLen_wrap (hlen : len.toNat < hdrlen)
    : (len - hdrlen.toUInt32).toNat = 2 ^ 32 + len.toNat - hdrlen := by
  have hhdr : (hdrlen.toUInt32).toNat = hdrlen := rfl
  rw [UInt32.toNat_sub, hhdr]
  unfold hdrlen at hlen ⊢
  omega

theorem descPktLen_pos (hlen : len.toNat ≠ hdrlen) : len - hdrlen.toUInt32 > 0 := by
  have hzero : (0 : UInt32).toNat = 0 := rfl
  rw [gt_iff_lt, UInt32.lt_iff_toNat_lt, hzero]
  by_cases hlow : len.toNat < hdrlen
  . rw [toNat_descPktLen_wrap hlow]
    unfold hdrlen
    omega
  . rw [toNat_descPktLen (by omega)]
    omega

theorem reads_hdr_data (hva : UInt64) (hlen : hdrlen ≤ len.toNat)
    : [MbufWrite.hdr hva hdrlen, .len (len - hdrlen.toUInt32),
          .data (hva + hdrlen.toUInt64) (len - hdrlen.toUInt32).toNat].flatMap MbufWrite.reads
        = addrRun hva len.toNat := by
  rw [← Nat.add_sub_cancel' hlen, addrRun_add, toNat_descPktLen hlen]
  simp [MbufWrite.reads]

/--
What is asked of the writes for a descriptor of `len` bytes.
-/
structure WritesInBounds (dev : VhostDev) (mem : SharedMem) (len : UInt32) (writes : List MbufWrite) : Prop where
  region : ∃ region ∈ dev.regions, ∀ a ∈ writes.flatMap MbufWrite.reads, a - region.mapped < region.size
  nonzero : 0 ∉ writes.flatMap MbufWrite.reads
  place : ∀ w ∈ writes, w.dataBytes ≤ mbufDataLength.toNat
  length : (writes.foldl (MbufWrite.apply mem) vhostNewMbuf).len.toNat + hdrlen = len.toNat

theorem copiesInBounds_iff_writes
    : CopiesInBounds dev vq mem descIdx
        ↔ ∃ writes, descToMbufWrites dev vq mem descIdx = .ok writes
            ∧ WritesInBounds dev mem (mem.desc vq.desc descIdx.toNat).len writes := by
  unfold CopiesInBounds
  rw [copyDescToMbuf_eq]
  constructor
  . rintro ⟨writes, mbuf, hwrites, hmbuf, hregion, hzero, hplace, hlen⟩
    rw [hwrites] at hmbuf
    cases hmbuf
    exact ⟨writes, hwrites, hregion, hzero, hplace, hlen⟩
  . rintro ⟨writes, hwrites, h⟩
    exact ⟨writes, _, hwrites, by rw [hwrites]; rfl, h.region, h.nonzero, h.place, h.length⟩

theorem not_writesInBounds_header (hlen : len.toNat = hdrlen)
    : ¬WritesInBounds dev mem len [.hdr hva hdrlen] := by
  intro h
  have hresult := h.length
  rw [hlen] at hresult
  change mbufDataLength.toNat + hdrlen = hdrlen at hresult
  exact absurd hresult (by decide)

theorem not_writesInBounds_wrap (hlow : len.toNat < hdrlen)
    : ¬WritesInBounds dev mem len [.hdr hva hdrlen, .len (len - hdrlen.toUInt32),
        .data (hva + hdrlen.toUInt64) (len - hdrlen.toUInt32).toNat] := by
  intro h
  have hwrap := h.place _ (.tail _ (.tail _ (.head _)))
  rw [MbufWrite.dataBytes, toNat_descPktLen_wrap hlow] at hwrap
  have hsmall : mbufDataLength.toNat = 1024 := rfl
  unfold hdrlen at hwrap
  omega

theorem not_writesInBounds_zero {writes : List MbufWrite}
    : ¬WritesInBounds dev mem len (.hdr 0 hdrlen :: writes) := by
  intro h
  exact h.nonzero (List.mem_flatMap.mpr ⟨_, List.mem_cons_self, by decide⟩)

theorem writesInBounds_iff (hhigh : hdrlen < len.toNat)
    : WritesInBounds dev mem len [.hdr hva hdrlen, .len (len - hdrlen.toUInt32),
          .data (hva + hdrlen.toUInt64) (len - hdrlen.toUInt32).toNat]
        ↔ len.toNat ≤ hdrlen + mbufDataLength.toNat ∧ dev.holds hva len.toNat = true := by
  have hlen := toNat_descPktLen (Nat.le_of_lt hhigh)
  have hreads := reads_hdr_data hva (Nat.le_of_lt hhigh)
  rw [VhostDev.holds_iff (Nat.zero_lt_of_lt hhigh)]
  constructor
  . intro h
    have hplace := h.place _ (.tail _ (.tail _ (.head _)))
    rw [MbufWrite.dataBytes, hlen] at hplace
    refine ⟨by omega, ?_, ?_⟩
    . rw [← hreads]
      exact h.nonzero
    . rw [← hreads]
      exact h.region
  . rintro ⟨hfit, hzero, hregions⟩
    constructor
    . rw [hreads]
      exact hregions
    . rw [hreads]
      exact hzero
    . simp only [List.forall_mem_cons, MbufWrite.dataBytes, hlen]
      refine ⟨Nat.zero_le _, Nat.zero_le _, by omega, by simp⟩
    . simp only [List.foldl_cons, List.foldl_nil, MbufWrite.apply, hlen]
      omega

end Writes

/--
The copies stay in bounds exactly when there is data behind the header that has place in a packet, in one
mapped region.
-/
theorem copiesInBounds_iff (dev : VhostDev) (vq : Virtqueue) (mem : SharedMem) (descIdx : UInt16)
    : CopiesInBounds dev vq mem descIdx ↔ descFits dev (mem.desc vq.desc descIdx.toNat) = true := by
  rw [copiesInBounds_iff_writes]
  unfold descFits descToMbufWrites
  dsimp only
  generalize mem.desc vq.desc descIdx.toNat = desc
  rcases gpaToHva_cases dev desc.addr with ⟨region, hregion, hgpa⟩ | ⟨hregion, hgpa | ⟨e, hgpa⟩⟩
  . rw [hgpa, hregion]
    simp only [Except.ok.injEq, exists_eq_left', Option.any_some, Bool.and_eq_true, decide_eq_true_eq]
    by_cases hlen : desc.len.toNat = hdrlen
    . have hnone : ¬desc.len - hdrlen.toUInt32 > 0 := by
        have heq : desc.len = hdrlen.toUInt32 := UInt32.toNat_inj.mp hlen
        simp [heq]
      rw [if_neg hnone]
      apply iff_of_false (not_writesInBounds_header hlen)
      omega
    . rw [if_pos (descPktLen_pos hlen)]
      by_cases hlow : desc.len.toNat < hdrlen
      . apply iff_of_false (not_writesInBounds_wrap hlow)
        omega
      . have hhigh : hdrlen < desc.len.toNat := by omega
        rw [writesInBounds_iff hhigh, and_assoc, and_iff_right hhigh]
  . rw [hgpa, hregion]
    simp only [Except.ok.injEq, exists_eq_left', Option.any_none, Bool.and_false, Bool.false_eq_true,
      iff_false]
    exact not_writesInBounds_zero
  . rw [hgpa, hregion]
    simp

/--
One region of 64 KiB.
-/
def oneRegionDev : VhostDev where
  mem := some
    { nregions := 1
      regions := (Vector.replicate virtioMaxRegion ⟨0, 0, 0, 0⟩).setIfInBounds 0
        ⟨0, 0x10000, 0x7f0000000000, 0x7f0000000000⟩ }
  vq := .replicate maxMultiQueue virtqueueZero

/-- A descriptor with less than a header makes the data longer than any packet. -/
theorem not_copiesInBounds
    : ∃ dev vq mem descIdx, ¬CopiesInBounds dev vq mem descIdx := by
  refine ⟨oneRegionDev, virtqueueZero,
    { desc := fun _ _ => ⟨0x1000, 4, 0⟩
      avail := fun _ => ⟨0, fun _ => 0⟩
      used := fun _ => ⟨0, fun _ => ⟨0, 0⟩⟩
      bytes := fun _ => 0 }, 0, ?_⟩
  rintro ⟨writes, mbuf, hwrites, _, _, _, hdata, _⟩
  have hfirst : descToMbufWrites oneRegionDev virtqueueZero
      { desc := fun _ _ => ⟨0x1000, 4, 0⟩
        avail := fun _ => ⟨0, fun _ => 0⟩
        used := fun _ => ⟨0, fun _ => ⟨0, 0⟩⟩
        bytes := fun _ => 0 } 0
      = .ok [.hdr 0x7f0000001000 12, .len 0xfffffff8, .data 0x7f000000100c 0xfffffff8] := by
    rfl
  rw [hfirst] at hwrites
  cases hwrites
  exact absurd (hdata _ (.tail _ (.tail _ (.head _)))) (by decide)

end Vhost
