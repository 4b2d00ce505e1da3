import DpdkLearning.VhostUser.Lemmas.Held

/-!
This module contains the ring as it is meant to be: the tables in the shared memory tell where each descriptor
is, and the steps of both sides are moves of the exchange.
-/

open Lib

namespace VhostUser

def Event.seen : Event → List (Exchange.Seen (List UInt8))
  | .accepted _ buf => [.accepted buf]
  | .handled _ buf _ => [.delivered buf]
  | .dropped => [.lost]
  | _ => []

/--
How many descriptors the putting side has taken back, modulo the size of the ring.
-/
def PutSide.reclaimed (p : PutSide) : Nat :=
  match p.pc with
  | .reclaim uIdx => uIdx.toNat
  | _ => p.vring.lastUsedIdx.toNat

/--
What the writes of a call of `put_vring` have done so far.
-/
def PutOk (a : Places) (v : VhostVring) (p : PutSide) : Prop :=
  match p.pc with
  | .idle => a.filling = none
  | .copy aIdx destBuf buf => a.filling = some (aIdx, buf) ∧ destBuf = bufOff aIdx.toNat
  | .describe aIdx buf => a.filling = some (aIdx, buf) ∧ Contents v (aIdx, buf)
  | .offer aIdx buf => a.filling = some (aIdx, buf) ∧ Contents v (aIdx, buf) ∧ Described v (aIdx, buf)
  | .publish aIdx buf =>
    a.filling = some (aIdx, buf) ∧ Contents v (aIdx, buf) ∧ Described v (aIdx, buf)
      ∧ v.availRing (v.availIdx.toNat % vhostVringSize) = aIdx
  | .reclaim _ => a.filling = none

/--
The used ring, when the putting side has taken `n` descriptors back and not yet gone round.
-/
structure BackOk (a : Places) (v : VhostVring) (n : Nat) : Prop where
  returned : v.usedIdx.toNat = n + a.returned.length
  lt : n < vhostVringSize
  used : Circular (fun j => (v.usedRing j).id) vhostVringSize n
    ((a.returned ++ a.emptied).map UInt16.toUInt32)

theorem BackOk.congr {a : Places} {v v' : VhostVring} {n : Nat} (h : BackOk a v n)
    (hidx : v'.usedIdx = v.usedIdx) (hring : v'.usedRing = v.usedRing) : BackOk a v' n where
  returned := by
    rw [hidx]
    exact h.returned
  lt := h.lt
  used := by
    rw [hring]
    exact h.used

/--
The descriptors of the ring.
-/
def allSlots : List UInt16 := (List.range vhostVringSize).map Nat.toUInt16

structure Sound (mapPut mapGet : UInt64 → Option Nat) (a : Places) (s : Ring) : Prop
    extends Held mapPut mapGet a s where
  slots : a.slots.Perm allSlots
  back : BackOk a s.shm s.put.reclaimed
  described : ∀ x ∈ a.offered, Described s.shm x
  free : Linked (fun i => (s.shm.desc i.toNat).next) vringIdxNone s.put.vring.lastAvailIdx a.free
  freeLen : ∀ i ∈ a.free, (s.shm.desc i.toNat).len = bufferSize.toUInt32
  filling : ∀ x ∈ a.filling, x.2.length ≤ bufferSize
  putOk : PutOk a s.shm s.put
  recorded : ∀ aIdx count dIdx buf p rest, s.get.pc = .record aIdx count dIdx buf
    → a.offered = (dIdx, p) :: rest → (buf = [] ↔ maxPacket < p.length)

theorem toNat_toUInt16 {n : Nat} (h : n < vhostVringSize) : n.toUInt16.toNat = n := by
  have hsize : vhostVringSize = 32768 := rfl
  rw [Nat.toUInt16_eq, UInt16.toNat_ofNat']
  omega

theorem nodup_allSlots : allSlots.Nodup := by
  refine List.Nodup.map_on ?_ List.nodup_range
  intro i hi j hj hij
  rw [List.mem_range] at hi hj
  rw [← toNat_toUInt16 hi, hij, toNat_toUInt16 hj]

theorem mem_allSlots {i : UInt16} : i ∈ allSlots ↔ i.toNat < vhostVringSize := by
  rw [allSlots, List.mem_map]
  constructor
  . rintro ⟨n, hn, rfl⟩
    rw [List.mem_range] at hn
    rwa [toNat_toUInt16 hn]
  . intro hi
    refine ⟨i.toNat, List.mem_range.mpr hi, ?_⟩
    rw [← UInt16.toNat_inj, toNat_toUInt16 hi]

namespace Sound

variable {mapPut mapGet : UInt64 → Option Nat} {a : Places} {s : Ring}

theorem nodup (h : Sound mapPut mapGet a s) : a.slots.Nodup :=
  h.slots.nodup_iff.mpr nodup_allSlots

theorem lt_of_mem {i : UInt16} (h : Sound mapPut mapGet a s) (hi : i ∈ a.slots) : i.toNat < vhostVringSize :=
  mem_allSlots.mp (h.slots.mem_iff.mp hi)

theorem length_eq (h : Sound mapPut mapGet a s)
    : a.free.length + a.filling.toList.length + a.returned.length + a.emptied.length + a.offered.length
        = vhostVringSize := by
  have hlen := h.slots.length_eq
  simp only [Exchange.slots, allSlots, List.length_append, List.length_map, List.length_range] at hlen
  exact hlen

/-- The taking side has moved on to another place in its loops, and nothing else. -/
theorem setGetPc {pc : GetPc} (h : Sound mapPut mapGet a s) (hok : GetOk a { s.get with pc })
    (hrecorded : ∀ aIdx count dIdx buf p rest, pc = .record aIdx count dIdx buf
      → a.offered = (dIdx, p) :: rest → (buf = [] ↔ maxPacket < p.length))
    : Sound mapPut mapGet a { s with get := { s.get with pc } } :=
  { h with getOk := hok, recorded := hrecorded }

/-- A packet of proper length has been taken and delivered. -/
theorem record {dIdx : UInt16} {count : UInt32} {p : List UInt8} {rest : List (UInt16 × List UInt8)}
    (h : Sound mapPut mapGet a s) (hoffered : a.offered = (dIdx, p) :: rest)
    : Sound mapPut mapGet (Held.taken a dIdx rest)
      { s with
        shm := { s.shm with
          usedRing := Function.update s.shm.usedRing (s.get.vring.lastAvailIdx.toNat % vhostVringSize)
            { id := dIdx.toUInt32, len := (hdrLen + p.length).toUInt32 } }
        get := {
          vring := { s.get.vring with
            lastAvailIdx := s.get.vring.lastAvailIdx + 1, lastUsedIdx := s.get.vring.lastUsedIdx + 1 }
          pc := .scan ((s.get.vring.lastAvailIdx.toNat + 1) % vhostVringSize).toUInt16 count } } := by
  have hdIdx := h.bounds (dIdx, p) (by simp [hoffered])
  have hstep : Exchange.step a .deliver = .ok (Held.taken a dIdx rest, [.delivered p]) := by
    simp only [Exchange.step, hoffered]
    rfl
  refine {
    h.toHeld.advance hoffered ?_ with
    slots := (Exchange.slots_perm_of_step hstep).trans h.slots
    back := ?_
    described := ?_
    free := h.free
    freeLen := h.freeLen
    filling := h.filling
    putOk := ?_
    recorded := nofun }
  . intro j hj hlt
    by_cases hslot : j = s.get.vring.lastAvailIdx.toNat % vhostVringSize
    . rw [hslot, Function.update_self]
      exact hdIdx.1
    . rw [Function.update_of_ne hslot]
      apply h.ids j hj
      -- The slot is another than that of the counter, which it would be if they were equal.
      have hne : j ≠ s.get.vring.lastAvailIdx.toNat := by
        rintro rfl
        exact hslot (Nat.mod_eq_of_lt hj).symm
      omega
  . -- The entry goes behind those of the descriptors that are not taken back yet.
    have hplace : s.put.reclaimed + ((a.returned ++ a.emptied).map UInt16.toUInt32).length
        = s.get.vring.lastAvailIdx.toNat := by
      have hused := h.usedIdx
      have hreturned := h.back.returned
      simp only [List.length_map, List.length_append]
      omega
    refine ⟨h.back.returned, h.back.lt, ?_⟩
    rw [Held.taken, ← List.append_assoc, List.map_append]
    apply Circular.push h.back.used
    . dsimp only
      rw [hplace, Function.update_self]
    . intro i hi
      rw [hplace] at hi
      dsimp only
      rw [Function.update_of_ne hi]
  . intro x hx
    apply h.described x
    rw [hoffered]
    exact List.mem_cons_of_mem _ hx
  . exact h.putOk

theorem finish (h : Sound mapPut mapGet a s)
    : Sound mapPut mapGet (Held.handedBack a)
      { s with shm := { s.shm with usedIdx := s.get.vring.lastUsedIdx }, get := { s.get with pc := .idle } } where
  toHeld := h.toHeld.finish
  slots := by
    have hstep : Exchange.step a .handBack = .ok (Held.handedBack a, []) := rfl
    exact (Exchange.slots_perm_of_step hstep).trans h.slots
  back := by
    have hused := h.usedIdx
    have hreturned := h.back.returned
    constructor
    . simp only [Held.handedBack, List.length_append, h.lastUsed]
      omega
    . exact h.back.lt
    . simp only [Held.handedBack, List.append_nil]
      exact h.back.used
  described := h.described
  free := h.free
  freeLen := h.freeLen
  filling := h.filling
  putOk := h.putOk
  recorded := nofun

end Sound

end VhostUser
