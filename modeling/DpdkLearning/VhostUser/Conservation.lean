import DpdkLearning.VhostUser.Lemmas.Runs

/-!
This module contains the proof that the tables of a ring tell of each descriptor where it is, and that it is
in one place only.
-/

open Lib

namespace VhostUser

/--
The descriptor that a call of `put_vring` has taken and not yet put on the available ring.
-/
def PutSide.inHand (p : PutSide) : List UInt16 :=
  match p.pc with
  | .copy aIdx _ _ => [aIdx]
  | .describe aIdx _ => [aIdx]
  | .offer aIdx _ => [aIdx]
  | .publish aIdx _ => [aIdx]
  | _ => []

namespace Ring

/--
The entries of the available ring that the taking side has not counted.
-/
def availEntries (s : Ring) : List UInt16 :=
  (List.range (s.shm.availIdx.toNat - s.get.vring.lastAvailIdx.toNat)).map
    (fun k => s.shm.availRing ((s.get.vring.lastAvailIdx.toNat + k) % vhostVringSize))

/--
The entries of the used ring that the putting side has not taken back, with those behind the used index.
-/
def usedEntries (s : Ring) : List UInt16 :=
  (List.range (s.get.vring.lastAvailIdx.toNat - s.put.reclaimed)).map
    (fun k => (s.shm.usedRing ((s.put.reclaimed + k) % vhostVringSize)).id.toUInt16)

/--
The free list along `next`, as far as there are descriptors that are not elsewhere.
-/
def freeEntries (s : Ring) : List UInt16 :=
  chain (fun i => (s.shm.desc i.toNat).next) s.put.vring.lastAvailIdx
    (vhostVringSize - s.put.inHand.length - (s.shm.availIdx.toNat - s.put.reclaimed))

end Ring

variable {base : Nat} {v : VhostVring} {mapPut mapGet : UInt64 → Option Nat} {a : Places} {s t : Ring}
  {tr : List Step}

namespace Sound

theorem inHand_eq (h : Sound mapPut mapGet a s) : s.put.inHand = a.filling.toList.map Prod.fst := by
  have hok := h.putOk
  cases hpc : s.put.pc
  all_goals
    simp only [PutOk, hpc] at hok
    simp [PutSide.inHand, hpc, hok]

/-- A log that fits into the ring is in its slots from the start on. -/
theorem entries_eq {α : Type} {slot : Nat → α} {start : Nat} {log : List α}
    (h : Circular slot vhostVringSize start log) (hroom : log.length ≤ vhostVringSize)
    : (List.range log.length).map (fun k => slot ((start + k) % vhostVringSize)) = log := by
  have hread := h.read (c := 0) (m := log.length) (by omega) (by omega)
  simpa using hread

theorem availEntries_eq (h : Sound mapPut mapGet a s) : s.availEntries = a.offered.map Prod.fst := by
  have hlen : s.shm.availIdx.toNat - s.get.vring.lastAvailIdx.toNat = (a.offered.map Prod.fst).length := by
    rw [h.availIdx, Nat.add_sub_cancel_left, List.length_map]
  rw [Ring.availEntries, hlen]
  apply entries_eq h.ring
  rw [List.length_map]
  exact h.room

theorem usedEntries_eq (h : Sound mapPut mapGet a s) : s.usedEntries = a.returned ++ a.emptied := by
  have hused := h.usedIdx
  have hreturned := h.back.returned
  have hlen := h.length_eq
  have hcount : s.get.vring.lastAvailIdx.toNat - s.put.reclaimed
      = ((a.returned ++ a.emptied).map UInt16.toUInt32).length := by
    rw [List.length_map, List.length_append]
    omega
  have hentries := entries_eq h.back.used (by
    rw [List.length_map, List.length_append]
    omega)
  have hmap := congrArg (List.map UInt32.toUInt16) hentries
  rw [List.map_map, List.map_map, ← hcount] at hmap
  have hid : UInt32.toUInt16 ∘ UInt16.toUInt32 = id := by
    funext i
    simp
  rw [hid, List.map_id] at hmap
  exact hmap

theorem freeEntries_eq (h : Sound mapPut mapGet a s) : s.freeEntries = a.free := by
  have hlen := h.length_eq
  have havail := h.availIdx
  have hused := h.usedIdx
  have hreturned := h.back.returned
  have hcount : vhostVringSize - s.put.inHand.length - (s.shm.availIdx.toNat - s.put.reclaimed)
      = a.free.length := by
    rw [h.inHand_eq, List.length_map]
    omega
  rw [Ring.freeEntries, hcount]
  exact h.free.eq_chain.symm

end Sound

/--
In every run of both sides whose accepted packets are of at most 1507 bytes, as long as the putting side is not
stuck, each descriptor is in one place: on the free list that begins at the kept head and ends with
`VRING_IDX_NONE`, in the hands of a call of `put_vring`, on the available ring, or on the used ring.
-/
theorem conserves (hbase : bufferAlignment ∣ base) (hput : Finds base mapPut) (hget : Finds base mapGet)
    (h : Machine.Run (ring mapPut mapGet) (.init (newVring base v)) tr t)
    (hshort : ∀ p ∈ accepted tr, p.length ≤ maxPacket) (hstuck : t.stuck = false)
    : (t.freeEntries ++ t.put.inHand ++ t.usedEntries ++ t.availEntries).Perm allSlots
      ∧ Linked (fun i => (t.shm.desc i.toNat).next) vringIdxNone t.put.vring.lastAvailIdx t.freeEntries := by
  have hdrop := dropped_of_short hbase hput hget h hshort
  rcases reach_of_run (reach_init hbase hput hget) h hdrop with ⟨_, b, _, _, hreach⟩
  have hsound := sound_of_not_stuck hreach hstuck
  rw [hsound.freeEntries_eq, hsound.inHand_eq, hsound.usedEntries_eq, hsound.availEntries_eq]
  refine ⟨?_, hsound.free⟩
  have hslots := hsound.slots
  rwa [Exchange.slots, List.append_assoc _ b.returned] at hslots

/-- One packet has come back, one is taken, one is on offer and one is being put. -/
theorem conserves_four
    : ∃ tr t, Machine.Run (ring (mappedAt 4096 pageSize) (mappedAt 4096 pageSize))
        (.init (newVring 4096 blankShm)) tr t
      ∧ t.availEntries = [1] ∧ t.usedEntries = [0] ∧ t.put.inHand = [2]
      ∧ (t.freeEntries ++ [2] ++ [0] ++ [1]).Perm allSlots := by
  have hbase : bufferAlignment ∣ 4096 := by decide
  have hfinds : Finds 4096 (mappedAt 4096 pageSize) := finds_mappedAt (by decide)
  have hcheck : (ring (mappedAt 4096 pageSize) (mappedAt 4096 pageSize)).check
      (.init (freshVring 4096 blankShm))
      (List.replicate 5 (.put (.putVring [1, 2])) ++ List.replicate 4 .get
        ++ List.replicate 7 (.put (.putVring [3])))
      (fun tr t => decide (accepted tr = [[1, 2], [3]]) && decide (t.availEntries = [1])
        && decide (t.usedEntries = [0]) && decide (t.put.inHand = [2]) && !t.stuck) = true := by
    decide +kernel
  rcases Machine.exists_run_of_check hcheck with ⟨tr, t, hrun, _, htest⟩
  rw [← newVring_eq hbase] at hrun
  simp only [Bool.and_eq_true, decide_eq_true_eq, Bool.not_eq_true'] at htest
  rcases htest with ⟨⟨⟨⟨haccepted, havail⟩, hused⟩, hhand⟩, hstuck⟩
  have hshort : ∀ p ∈ accepted tr, p.length ≤ maxPacket := by
    rw [haccepted]
    decide
  refine ⟨tr, t, hrun, havail, hused, hhand, ?_⟩
  have hplaces := (conserves hbase hfinds hfinds hrun hshort hstuck).1
  rwa [havail, hused, hhand] at hplaces

end VhostUser
