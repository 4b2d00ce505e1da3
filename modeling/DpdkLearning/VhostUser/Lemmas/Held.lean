import DpdkLearning.Lib.Circular
import DpdkLearning.Lib.Exchange
import DpdkLearning.Lib.Linked
import DpdkLearning.Lib.Simulation
import DpdkLearning.VhostUser.Impl.Vring

/-!
This module contains where the descriptors of a ring are while its two sides use it, as the slots of an
exchange, and what is kept of that even while the putting side does not get out of a loop.
-/

open Lib

namespace VhostUser

abbrev Places : Type := Exchange UInt16 (List UInt8)

/--
Where buffer `i` is in the shared memory.
-/
def bufOff (i : Nat) : Nat := vhostVringBytes + bufferSize * i

/--
The longest packet that `process_desc` takes: with its header it has to be shorter than the local buffer.
-/
def maxPacket : Nat := ethPacketSize - 1 - hdrLen

/--
The packet is in its buffer, as far as it can be delivered at all. A longer one may reach into the header of
the buffer behind.
-/
def Contents (v : VhostVring) (x : UInt16 × List UInt8) : Prop :=
  x.2.length ≤ maxPacket → v.bytes.load (bufOff x.1.toNat + hdrLen) x.2.length = x.2

/--
The descriptor has the length of the packet.
-/
def Described (v : VhostVring) (x : UInt16 × List UInt8) : Prop :=
  (v.desc x.1.toNat).len = (hdrLen + x.2.length).toUInt32

/--
What the taking side knows where it is in its loops.
-/
def GetOk (a : Places) (g : GetSide) : Prop :=
  match g.pc with
  | .idle => True
  | .scan aIdx _ => aIdx.toNat = g.vring.lastAvailIdx.toNat % vhostVringSize
  | .chain aIdx _ dIdx i buf =>
    aIdx.toNat = g.vring.lastAvailIdx.toNat % vhostVringSize ∧ i = dIdx ∧ buf = []
      ∧ ∃ p rest, a.offered = (dIdx, p) :: rest
  | .record aIdx _ dIdx buf =>
    aIdx.toNat = g.vring.lastAvailIdx.toNat % vhostVringSize
      ∧ ∃ p rest, a.offered = (dIdx, p) :: rest
        ∧ (buf = [] ∨ buf.length = hdrLen + p.length ∧ buf.drop hdrLen = p)
  | .finish _ => True

/-- More may come to be on offer. -/
theorem GetOk.concat {a b : Places} {g : GetSide} {x : UInt16 × List UInt8} (h : GetOk a g)
    (hoffered : b.offered = a.offered ++ [x]) : GetOk b g := by
  have hhead : ∀ y rest, a.offered = y :: rest → b.offered = y :: (rest ++ [x]) := by
    intro y rest heq
    rw [hoffered, heq, List.cons_append]
  unfold GetOk at h ⊢
  split at h
  . trivial
  . exact h
  . rcases h with ⟨hidx, hi, hbuf, p, rest, heq⟩
    exact ⟨hidx, hi, hbuf, p, _, hhead _ _ heq⟩
  . rcases h with ⟨hidx, p, rest, heq, hbuf⟩
    exact ⟨hidx, p, _, hhead _ _ heq, hbuf⟩
  . trivial

/--
What holds of the packets on offer even while the putting side goes on giving descriptors free. The length of
a descriptor may then be that of a free one.
-/
structure Held (mapPut mapGet : UInt64 → Option Nat) (a : Places) (s : Ring) : Prop where
  mapPut : ∀ i < vhostVringSize, mapPut (s.shm.desc i).addr = some (bufOff i)
  mapGet : ∀ i < vhostVringSize, mapGet (s.shm.desc i).addr = some (bufOff i)
  numPut : s.put.vring.num = vhostVringSize.toUInt32
  numGet : s.get.vring.num = vhostVringSize.toUInt32
  availIdx : s.shm.availIdx.toNat = s.get.vring.lastAvailIdx.toNat + a.offered.length
  usedIdx : s.get.vring.lastAvailIdx.toNat = s.shm.usedIdx.toNat + a.emptied.length
  lastUsed : s.get.vring.lastUsedIdx = s.get.vring.lastAvailIdx
  ring : Circular s.shm.availRing vhostVringSize s.get.vring.lastAvailIdx.toNat (a.offered.map Prod.fst)
  bounds : ∀ x ∈ a.offered, x.1.toNat < vhostVringSize ∧ x.2.length ≤ bufferSize
  contents : ∀ x ∈ a.offered, Contents s.shm x
  lens : ∀ x ∈ a.offered, Described s.shm x ∨ (s.shm.desc x.1.toNat).len = bufferSize.toUInt32
  flags : ∀ i < vhostVringSize, (s.shm.desc i).flags &&& virtioDescFNext = 0
  ids : ∀ j < vhostVringSize, j < s.get.vring.lastAvailIdx.toNat
    → (s.shm.usedRing j).id.toNat < vhostVringSize
  room : a.offered.length ≤ vhostVringSize
  getOk : GetOk a s.get

theorem slot_eq (idx : UInt16) : slot idx vhostVringSize.toUInt32 = .ok (idx.toNat % vhostVringSize) := by
  have hnum : vhostVringSize.toUInt32.toNat = vhostVringSize := rfl
  have hlt := Nat.mod_lt idx.toNat (show 0 < vhostVringSize by decide)
  rw [slot, if_neg (by decide), hnum, if_pos hlt]

theorem nextIdx_eq (idx : UInt16)
    : nextIdx idx vhostVringSize.toUInt32 = .ok ((idx.toNat + 1) % vhostVringSize).toUInt16 := by
  have hnum : vhostVringSize.toUInt32.toNat = vhostVringSize := rfl
  rw [nextIdx, if_neg (by decide), hnum]

theorem toNat_mod_size (n : Nat) : (n % vhostVringSize).toUInt16.toNat = n % vhostVringSize := by
  have := Nat.mod_lt n (show 0 < vhostVringSize by decide)
  have hsize : vhostVringSize = 32768 := rfl
  rw [Nat.toUInt16_eq, UInt16.toNat_ofNat']
  omega

namespace Held

variable {mapPut mapGet : UInt64 → Option Nat} {a : Places} {s : Ring}

theorem get_idle (h : Held mapPut mapGet a s) (hpc : s.get.pc = .idle)
    : ∃ aIdx, getStep mapGet s.shm s.get = .ok (s.shm, { s.get with pc := .scan aIdx 0 }, .quiet)
      ∧ GetOk a { s.get with pc := .scan aIdx 0 } := by
  refine ⟨(s.get.vring.lastAvailIdx.toNat % vhostVringSize).toUInt16, ?_, ?_⟩
  . unfold getStep
    rw [hpc, h.numGet, slot_eq]
  . exact toNat_mod_size _

theorem get_scan {aIdx : UInt16} {count : UInt32} (h : Held mapPut mapGet a s)
    (hpc : s.get.pc = .scan aIdx count)
    : ∃ pc, getStep mapGet s.shm s.get = .ok (s.shm, { s.get with pc }, .quiet)
      ∧ GetOk a { s.get with pc } ∧ ∀ aIdx count dIdx buf, pc ≠ .record aIdx count dIdx buf := by
  have hok := h.getOk
  simp only [GetOk, hpc] at hok
  unfold getStep
  rw [hpc]
  dsimp only
  by_cases hend : s.get.vring.lastAvailIdx = s.shm.availIdx
  . rw [if_pos hend]
    exact ⟨.finish count, rfl, trivial, nofun⟩
  . have hlt := Nat.mod_lt s.get.vring.lastAvailIdx.toNat (show 0 < vhostVringSize by decide)
    rw [if_neg hend, if_pos (by rwa [hok])]
    -- The indices differ, so that something is on offer.
    cases hoffered : a.offered with
    | nil =>
      have := h.availIdx
      rw [hoffered, List.length_nil, Nat.add_zero, UInt16.toNat_inj] at this
      exact absurd this.symm hend
    | cons x rest =>
      have hslot := h.ring 0 x.1 (by rw [hoffered]; rfl)
      rw [Nat.add_zero, Nat.zero_add, ← hok, List.length_map] at hslot
      rw [hslot h.room]
      exact ⟨_, rfl, ⟨hok, rfl, rfl, x.2, rest, hoffered⟩, nofun⟩

/-- The copy of a packet, or the end of the loop where it does not fit. -/
theorem round_eq {dIdx : UInt16} {p : List UInt8} {rest : List (UInt16 × List UInt8)}
    (h : Held mapPut mapGet a s) (hoffered : a.offered = (dIdx, p) :: rest)
    : ∃ buf, processDescRound mapGet s.shm dIdx [] = .ok (buf, none)
      ∧ (buf = [] ∨ buf.length = hdrLen + p.length ∧ buf.drop hdrLen = p)
      ∧ (Described s.shm (dIdx, p) → (buf = [] ↔ maxPacket < p.length)) := by
  have hmem : (dIdx, p) ∈ a.offered := by simp [hoffered]
  have hbounds := h.bounds _ hmem
  have hcontents := h.contents _ hmem
  have hlens := h.lens _ hmem
  have hflags := h.flags _ hbounds.1
  have hsize : bufferSize = 1528 := rfl
  have heth : ethPacketSize = 1518 := rfl
  have hmax : maxPacket = 1507 := rfl
  have hhdr : hdrLen = 10 := rfl
  have hlen : Described s.shm (dIdx, p) → (s.shm.desc dIdx.toNat).len.toNat = hdrLen + p.length := by
    intro hdesc
    rw [Described] at hdesc
    dsimp only at hdesc hbounds
    rw [hdesc, Nat.toUInt32_eq, UInt32.toNat_ofNat']
    omega
  unfold processDescRound
  rw [if_pos hbounds.1]
  dsimp only
  rw [List.length_nil, show Nat.toUInt32 0 = 0 from rfl, UInt32.zero_add]
  by_cases hfits : (s.shm.desc dIdx.toNat).len.toNat < ethPacketSize
  . -- A descriptor of a free one's length is too long, so that this one is as it was offered.
    have hdesc : Described s.shm (dIdx, p) := by
      rcases hlens with hdesc | hfree
      . exact hdesc
      . rw [hfree] at hfits
        exact absurd hfits (by decide)
    have hp : p.length ≤ maxPacket := by
      have := hlen hdesc
      omega
    rw [if_pos hfits, if_pos (by omega), h.mapGet _ hbounds.1, hlen hdesc]
    dsimp only
    rw [if_neg (by rw [hflags]; decide), List.nil_append]
    refine ⟨_, rfl, .inr ⟨Memory.length_load, ?_⟩, ?_⟩
    . rw [Memory.load_add, List.drop_left' Memory.length_load]
      exact hcontents hp
    . intro _
      rw [← List.length_eq_zero_iff, Memory.length_load]
      omega
  . rw [if_neg hfits]
    refine ⟨[], rfl, .inl rfl, ?_⟩
    intro hdesc
    have := hlen hdesc
    simp only [true_iff]
    omega

theorem get_chain {aIdx dIdx i : UInt16} {count : UInt32} {buf : List UInt8} (h : Held mapPut mapGet a s)
    (hpc : s.get.pc = .chain aIdx count dIdx i buf)
    : ∃ buf p rest, a.offered = (dIdx, p) :: rest
      ∧ getStep mapGet s.shm s.get = .ok (s.shm, { s.get with pc := .record aIdx count dIdx buf }, .quiet)
      ∧ GetOk a { s.get with pc := .record aIdx count dIdx buf }
      ∧ (Described s.shm (dIdx, p) → (buf = [] ↔ maxPacket < p.length)) := by
  have hok := h.getOk
  simp only [GetOk, hpc] at hok
  rcases hok with ⟨hidx, rfl, rfl, p, rest, hoffered⟩
  rcases h.round_eq hoffered with ⟨buf, hround, hbuf, hiff⟩
  refine ⟨buf, p, rest, hoffered, ?_, ⟨hidx, p, rest, hoffered, hbuf⟩, hiff⟩
  unfold getStep
  rw [hpc]
  dsimp only
  rw [hround]

/-- The state of the places when the packet at the head has been taken, whether it was delivered or not. -/
def taken (a : Places) (dIdx : UInt16) (rest : List (UInt16 × List UInt8)) : Places :=
  { a with offered := rest, emptied := a.emptied ++ [dIdx] }

/-- The state of the places when the used index has been written. -/
def handedBack (a : Places) : Places :=
  { a with emptied := [], returned := a.returned ++ a.emptied }

theorem toNat_succ (h : Held mapPut mapGet a s) (hoffered : a.offered ≠ [])
    : (s.get.vring.lastAvailIdx + 1).toNat = s.get.vring.lastAvailIdx.toNat + 1 := by
  have havail := h.availIdx
  have hlt := s.shm.availIdx.toNat_lt
  have := List.length_pos_iff.mpr hoffered
  rw [UInt16.toNat_add, UInt16.toNat_one]
  omega

theorem advance {dIdx : UInt16} {p : List UInt8} {rest : List (UInt16 × List UInt8)} {n : UInt32}
    {usedRing : Nat → VringUsedElem} (h : Held mapPut mapGet a s) (hoffered : a.offered = (dIdx, p) :: rest)
    (hids : ∀ j < vhostVringSize, j < s.get.vring.lastAvailIdx.toNat + 1
      → (usedRing j).id.toNat < vhostVringSize)
    : Held mapPut mapGet (taken a dIdx rest)
      { s with
        shm := { s.shm with usedRing }
        get := {
          vring := { s.get.vring with
            lastAvailIdx := s.get.vring.lastAvailIdx + 1, lastUsedIdx := s.get.vring.lastUsedIdx + 1 }
          pc := .scan ((s.get.vring.lastAvailIdx.toNat + 1) % vhostVringSize).toUInt16 n } } := by
  have hsucc := h.toNat_succ (by simp [hoffered])
  have hsub : ∀ x ∈ rest, x ∈ a.offered := by
    intro x hx
    rw [hoffered]
    exact List.mem_cons_of_mem _ hx
  have havail := h.availIdx
  have hused := h.usedIdx
  rw [hoffered, List.length_cons] at havail
  exact {
    mapPut := h.mapPut
    mapGet := h.mapGet
    numPut := h.numPut
    numGet := h.numGet
    availIdx := by
      dsimp only [taken]
      omega
    usedIdx := by
      simp only [taken, List.length_append, List.length_singleton]
      omega
    lastUsed := by
      dsimp only
      rw [h.lastUsed]
    ring := by
      have hring := h.ring
      rw [hoffered, List.map_cons] at hring
      dsimp only
      rw [hsucc]
      exact hring.tail
    bounds := fun x hx => h.bounds x (hsub x hx)
    contents := fun x hx => h.contents x (hsub x hx)
    lens := fun x hx => h.lens x (hsub x hx)
    flags := h.flags
    ids := by
      intro j hj hlt
      apply hids j hj
      rwa [← hsucc]
    room := by
      have := h.room
      rw [hoffered, List.length_cons] at this
      dsimp only [taken]
      omega
    getOk := by
      dsimp only [GetOk]
      rw [hsucc]
      apply toNat_mod_size }

theorem get_record {aIdx dIdx : UInt16} {count : UInt32} {buf : List UInt8} (h : Held mapPut mapGet a s)
    (hpc : s.get.pc = .record aIdx count dIdx buf)
    : ∃ p rest usedRing e, a.offered = (dIdx, p) :: rest
      ∧ getStep mapGet s.shm s.get = .ok ({ s.shm with usedRing }, {
          vring := { s.get.vring with
            lastAvailIdx := s.get.vring.lastAvailIdx + 1, lastUsedIdx := s.get.vring.lastUsedIdx + 1 }
          pc := .scan ((s.get.vring.lastAvailIdx.toNat + 1) % vhostVringSize).toUInt16 (count + 1) }, e)
      ∧ (buf = [] ∧ usedRing = s.shm.usedRing ∧ e = .dropped
        ∨ buf ≠ [] ∧ usedRing = Function.update s.shm.usedRing
            (s.get.vring.lastAvailIdx.toNat % vhostVringSize)
            { id := dIdx.toUInt32, len := (hdrLen + p.length).toUInt32 }
          ∧ e = .handled dIdx p p.length.toUInt64) := by
  have hok := h.getOk
  simp only [GetOk, hpc] at hok
  rcases hok with ⟨hidx, p, rest, hoffered, hbuf⟩
  have hnext : ((aIdx.toNat + 1) % vhostVringSize).toUInt16
      = ((s.get.vring.lastAvailIdx.toNat + 1) % vhostVringSize).toUInt16 := by
    rw [hidx, Nat.mod_add_mod]
  unfold getStep
  rw [hpc]
  dsimp only
  unfold processDescEnd
  rw [h.numGet, slot_eq, nextIdx_eq, hnext, h.lastUsed]
  dsimp only
  cases buf with
  | nil =>
    refine ⟨p, rest, s.shm.usedRing, .dropped, hoffered, ?_, .inl ⟨rfl, rfl, rfl⟩⟩
    rw [← h.lastUsed]
    rfl
  | cons b bs =>
    rcases hbuf with hbuf | ⟨hlen, hdrop⟩
    . contradiction
    . refine ⟨p, rest, _, _, hoffered, ?_, .inr ⟨nofun, rfl, rfl⟩⟩
      have hsize : (b :: bs).length.toUInt64 - hdrLen.toUInt64 = p.length.toUInt64 := by
        rw [hlen, Nat.toUInt64_eq, UInt64.ofNat_add, UInt64.add_comm]
        apply UInt64.add_sub_cancel
      rw [hdrop, hsize, hlen, ← h.lastUsed]
      rfl

theorem finish (h : Held mapPut mapGet a s)
    : Held mapPut mapGet (handedBack a)
      { s with shm := { s.shm with usedIdx := s.get.vring.lastUsedIdx }, get := { s.get with pc := .idle } } where
  mapPut := h.mapPut
  mapGet := h.mapGet
  numPut := h.numPut
  numGet := h.numGet
  availIdx := h.availIdx
  usedIdx := by
    dsimp only [handedBack]
    rw [h.lastUsed, List.length_nil, Nat.add_zero]
  lastUsed := h.lastUsed
  ring := h.ring
  bounds := h.bounds
  contents := h.contents
  lens := h.lens
  flags := h.flags
  ids := h.ids
  room := h.room
  getOk := trivial

/-- The putting side has written a descriptor, which is that of a free one if it is still on offer. -/
theorem setDesc {put : PutSide} (h : Held mapPut mapGet a s) (i : UInt16) (desc : VringDesc)
    (haddr : desc.addr = (s.shm.desc i.toNat).addr) (hflags : desc.flags &&& virtioDescFNext = 0)
    (hlen : ∀ x ∈ a.offered, x.1 = i → desc.len = bufferSize.toUInt32)
    (hnum : put.vring.num = vhostVringSize.toUInt32)
    : Held mapPut mapGet a
      { s with shm := { s.shm with desc := Function.update s.shm.desc i.toNat desc }, put } := by
  have haddrs : ∀ j, (Function.update s.shm.desc i.toNat desc j).addr = (s.shm.desc j).addr := by
    intro j
    by_cases hj : j = i.toNat
    . rw [hj, Function.update_self, haddr]
    . rw [Function.update_of_ne hj]
  exact {
    h with
    mapPut := by
      intro j hj
      rw [haddrs]
      exact h.mapPut j hj
    mapGet := by
      intro j hj
      rw [haddrs]
      exact h.mapGet j hj
    numPut := hnum
    contents := h.contents
    lens := by
      intro x hx
      dsimp only [Described]
      by_cases hxi : x.1 = i
      . rw [hxi, Function.update_self]
        exact .inr (hlen x hx hxi)
      . rw [Function.update_of_ne (fun heq => hxi (UInt16.toNat_inj.mp heq))]
        exact h.lens x hx
    flags := by
      intro j hj
      dsimp only
      by_cases hji : j = i.toNat
      . rw [hji, Function.update_self, hflags]
      . rw [Function.update_of_ne hji]
        exact h.flags j hj
    ids := h.ids }

end Held

end VhostUser
