import DpdkLearning.VhostUser.Lemmas.PutStep

/-!
This module contains the two kinds of states that a ring gets into, the one it is meant to be in and the one
where the loop of `process_used_vring` looks for an index that the ring does not have, and that no step leaves
both of them.
-/

open Lib

namespace VhostUser

/--
The used index has gone beyond the ring while the putting side waits for it to come round.
-/
structure Hung (mapPut mapGet : UInt64 → Option Nat) (a : Places) (s : Ring) : Prop
    extends Held mapPut mapGet a s where
  looping : ∃ uIdx, s.put.pc = .reclaim uIdx ∧ uIdx.toNat < vhostVringSize
  gone : vhostVringSize ≤ s.shm.usedIdx.toNat

def Reach (mapPut mapGet : UInt64 → Option Nat) (a : Places) (s : Ring) : Prop :=
  Sound mapPut mapGet a s ∨ Hung mapPut mapGet a s

variable {mapPut mapGet : UInt64 → Option Nat} {a : Places} {s : Ring}

theorem putStep_reclaim {uIdx i : UInt16} (hpc : s.put.pc = .reclaim uIdx)
    (hnum : s.put.vring.num = vhostVringSize.toUInt32) (hne : uIdx ≠ s.shm.usedIdx)
    (hu : uIdx.toNat < vhostVringSize) (hid : (s.shm.usedRing uIdx.toNat).id = i.toUInt32)
    (hi : i.toNat < vhostVringSize) (call : PutCall)
    : putStep mapPut call s.shm s.put
        = .ok ((Sound.reclaimedOne s uIdx i).shm, (Sound.reclaimedOne s uIdx i).put, .quiet) := by
  have hnext : nextIdx uIdx s.put.vring.num = .ok ((uIdx.toNat + 1) % vhostVringSize).toUInt16 := by
    rw [hnum, nextIdx_eq]
  unfold putStep
  rw [hpc]
  dsimp only
  rw [if_pos hne, if_pos hu]
  unfold freeVring
  dsimp only
  rw [hid, UInt16.toNat_toUInt32, if_pos hi]
  dsimp only
  rw [hnext, UInt16.toUInt16_toUInt32]
  rfl

theorem Sound.hung {uIdx : UInt16} (h : Sound mapPut mapGet a s) (hpc : s.put.pc = .reclaim uIdx)
    (hgone : vhostVringSize ≤ s.shm.usedIdx.toNat) : Hung mapPut mapGet a s := by
  have hlt := h.back.lt
  rw [PutSide.reclaimed, hpc] at hlt
  exact { h.toHeld with looping := ⟨uIdx, hpc, hlt⟩, gone := hgone }

/-- The loop frees what the used ring holds, whatever it is, and goes on. -/
theorem Hung.put (h : Hung mapPut mapGet a s) (call : PutCall)
    : ∃ shm put, putStep mapPut call s.shm s.put = .ok (shm, put, .quiet)
      ∧ Hung mapPut mapGet a { s with shm, put } := by
  rcases h.looping with ⟨uIdx, hpc, hu⟩
  have hsize : vhostVringSize = 32768 := rfl
  have hgone := h.gone
  have hused := h.usedIdx
  have hid := h.ids uIdx.toNat hu (by omega)
  have hround : (s.shm.usedRing uIdx.toNat).id = (s.shm.usedRing uIdx.toNat).id.toUInt16.toUInt32 := by
    rw [← UInt32.toNat_inj, UInt16.toNat_toUInt32, UInt32.toNat_toUInt16]
    omega
  generalize (s.shm.usedRing uIdx.toNat).id.toUInt16 = i at hround
  rw [hround, UInt16.toNat_toUInt32] at hid
  have hne : uIdx ≠ s.shm.usedIdx := by
    rintro rfl
    omega
  refine ⟨_, _, putStep_reclaim hpc h.numPut hne hu hround hid call, ?_⟩
  exact {
    h.setDesc i (Sound.freed s i) rfl (by
      rw [Sound.freed, Sound.or_write_land_next]
      exact h.flags _ hid) (fun _ _ _ => rfl) h.numPut with
    looping := by
      refine ⟨_, rfl, ?_⟩
      rw [toNat_mod_size]
      exact Nat.mod_lt _ (by decide)
    gone := h.gone }

/-- The moves of the exchange that are seen, to a state that is related to the ring. -/
abbrev Moves (R : Places → Ring → Prop) (a : Places) (seen : List (Exchange.Seen (List UInt8))) (t : Ring)
    : Prop :=
  Machine.Matches (Exchange.machine UInt16 (List UInt8)) Edge.out R a seen t

theorem moves_of_step {R : Places → Ring → Prop} {b : Places} {e : Event} {t : Ring}
    (op : Exchange.Op (List UInt8)) (hstep : Exchange.step a op = .ok (b, e.seen)) (h : R b t) : Moves R a e.seen t :=
  Machine.Matches.step (n := Exchange.machine UInt16 (List UInt8)) (g := Edge.out) hstep h

theorem Hung.get (h : Hung mapPut mapGet a s)
    : ∃ shm get e, getStep mapGet s.shm s.get = .ok (shm, get, e)
      ∧ Moves (Hung mapPut mapGet) a e.seen { s with shm, get } := by
  have hsize : vhostVringSize = 32768 := rfl
  have hgone := h.gone
  have hused := h.usedIdx
  cases hpc : s.get.pc with
  | idle =>
    rcases h.get_idle hpc with ⟨aIdx, hstep, hok⟩
    exact ⟨_, _, _, hstep, .refl { h with getOk := hok }⟩
  | scan aIdx count =>
    rcases h.get_scan hpc with ⟨pc, hstep, hok, _⟩
    exact ⟨_, _, _, hstep, .refl { h with getOk := hok }⟩
  | chain aIdx count dIdx i buf =>
    rcases h.get_chain hpc with ⟨buf, p, rest, _, hstep, hok, _⟩
    exact ⟨_, _, _, hstep, .refl { h with getOk := hok }⟩
  | record aIdx count dIdx buf =>
    rcases h.get_record hpc with ⟨p, rest, usedRing, e, hoffered, hstep, hcases⟩
    refine ⟨_, _, _, hstep, ?_⟩
    have hids : ∀ j < vhostVringSize, j < s.get.vring.lastAvailIdx.toNat + 1
        → (usedRing j).id.toNat < vhostVringSize := by
      intro j hj _
      rcases hcases with ⟨_, rfl, _⟩ | ⟨_, rfl, _⟩
      . exact h.ids j hj (by omega)
      . by_cases hslot : j = s.get.vring.lastAvailIdx.toNat % vhostVringSize
        . rw [hslot, Function.update_self]
          exact (h.bounds (dIdx, p) (by simp [hoffered])).1
        . rw [Function.update_of_ne hslot]
          exact h.ids j hj (by omega)
    have hheld := h.toHeld.advance (n := count + 1) hoffered hids
    have hhung : Hung mapPut mapGet (Held.taken a dIdx rest) _ :=
      { hheld with looping := h.looping, gone := h.gone }
    rcases hcases with ⟨_, _, rfl⟩ | ⟨_, _, rfl⟩
    . refine moves_of_step .lose ?_ hhung
      simp only [Exchange.step, hoffered]
      rfl
    . refine moves_of_step .deliver ?_ hhung
      simp only [Exchange.step, hoffered]
      rfl
  | finish count =>
    refine ⟨_, _, _, by unfold getStep; rw [hpc], ?_⟩
    refine moves_of_step .handBack rfl ?_
    exact {
      h.toHeld.finish with
      looping := h.looping
      gone := by
        dsimp only
        rw [h.lastUsed]
        omega }

/--
The taking side is about to account for a descriptor.
-/
def GetPc.taking : GetPc → Bool
  | .record _ _ _ _ => true
  | _ => false

/-- A packet is dropped if it is too long, and otherwise the taking side goes on as the exchange does. -/
theorem Sound.get (h : Sound mapPut mapGet a s)
    : ∃ shm get e, getStep mapGet s.shm s.get = .ok (shm, get, e)
      ∧ (e = .dropped
        ↔ s.get.pc.taking = true ∧ ∃ x rest, a.offered = x :: rest ∧ maxPacket < x.2.length)
      ∧ (e ≠ .dropped → Moves (Sound mapPut mapGet) a e.seen { s with shm, get }) := by
  cases hpc : s.get.pc with
  | idle =>
    rcases h.get_idle hpc with ⟨aIdx, hstep, hok⟩
    exact ⟨_, _, _, hstep, by simp [GetPc.taking], fun _ => .refl (h.setGetPc hok nofun)⟩
  | scan aIdx count =>
    rcases h.get_scan hpc with ⟨pc, hstep, hok, hne⟩
    refine ⟨_, _, _, hstep, by simp [GetPc.taking], fun _ => .refl (h.setGetPc hok ?_)⟩
    intro aIdx count dIdx buf p rest heq
    exact absurd heq (hne _ _ _ _)
  | chain aIdx count dIdx i buf =>
    rcases h.get_chain hpc with ⟨buf, p, rest, hoffered, hstep, hok, hiff⟩
    refine ⟨_, _, _, hstep, by simp [GetPc.taking], fun _ => .refl (h.setGetPc hok ?_)⟩
    rintro _ _ _ _ p' rest' heq hoffered'
    cases heq
    rw [hoffered] at hoffered'
    cases hoffered'
    exact hiff (h.described (dIdx, p) (by simp [hoffered]))
  | record aIdx count dIdx buf =>
    rcases h.get_record hpc with ⟨p, rest, usedRing, e, hoffered, hstep, hcases⟩
    have hiff := h.recorded _ _ _ _ _ _ hpc hoffered
    refine ⟨_, _, _, hstep, ?_⟩
    rcases hcases with ⟨hbuf, _, rfl⟩ | ⟨hbuf, rfl, rfl⟩
    . refine ⟨?_, fun hne => absurd rfl hne⟩
      simp [GetPc.taking, hoffered, hiff.mp hbuf]
    . constructor
      . simpa [GetPc.taking, hoffered] using mt hiff.mpr hbuf
      . intro _
        refine moves_of_step .deliver ?_ (h.record hoffered)
        simp only [Exchange.step, hoffered]
        rfl
  | finish count =>
    refine ⟨_, _, _, by unfold getStep; rw [hpc], by simp [GetPc.taking], ?_⟩
    intro _
    exact moves_of_step .handBack rfl h.finish

/-- The putting side goes on as the exchange does, unless it puts a packet and no descriptor is free. -/
theorem Sound.put (h : Sound mapPut mapGet a s) (call : PutCall)
    : (s.put.pc = .idle ∧ (∃ buf, call = .putVring buf) ∧ a.free = []
        ∧ putStep mapPut call s.shm s.put = .error .outOfBounds)
      ∨ ∃ shm put e, putStep mapPut call s.shm s.put = .ok (shm, put, e) ∧ e ≠ .dropped
        ∧ Moves (Reach mapPut mapGet) a e.seen { s with shm, put } := by
  cases hpc : s.put.pc with
  | idle =>
    cases call with
    | putVring buf =>
      by_cases hfree : a.free = []
      . exact .inl ⟨rfl, ⟨buf, rfl⟩, hfree, h.put_exhausted hpc hfree⟩
      . right
        by_cases hbuf : buf.length ≤ bufferSize
        . rcases h.put_take hpc hfree hbuf with ⟨hstep, i, free, hfilling, hhead, hsound⟩
          refine ⟨_, _, _, hstep, by simp, moves_of_step (.take buf) ?_ (.inl hsound)⟩
          simp only [Exchange.step, hfilling, hhead]
          rfl
        . have hstep := h.put_refused hpc hfree (Nat.lt_of_not_le hbuf)
          rw [← hpc] at hstep
          exact ⟨_, _, _, hstep, by simp, .refl (.inl h)⟩
    | processUsedVring =>
      right
      rcases h.put_begin_reclaim hpc with ⟨hstep, hsound⟩
      exact ⟨_, _, _, hstep, by simp, .refl (.inl hsound)⟩
  | copy aIdx destBuf buf =>
    rcases h.put_copy hpc call with ⟨bytes, hstep, hsound⟩
    exact .inr ⟨_, _, _, hstep, by simp, .refl (.inl hsound)⟩
  | describe aIdx buf =>
    rcases h.put_describe hpc call with ⟨desc, hstep, hsound⟩
    exact .inr ⟨_, _, _, hstep, by simp, .refl (.inl hsound)⟩
  | offer aIdx buf =>
    rcases h.put_offer hpc call with ⟨availRing, hstep, hsound⟩
    exact .inr ⟨_, _, _, hstep, by simp, .refl (.inl hsound)⟩
  | publish aIdx buf =>
    rcases h.put_publish hpc call with ⟨hfilling, hstep, hsound⟩
    refine .inr ⟨_, _, _, hstep, by simp, moves_of_step .offer ?_ (.inl hsound)⟩
    simp only [Exchange.step, hfilling]
    rfl
  | reclaim uIdx =>
    right
    by_cases hgone : vhostVringSize ≤ s.shm.usedIdx.toNat
    . rcases (h.hung hpc hgone).put call with ⟨shm, put, hstep, hhung⟩
      exact ⟨_, _, _, hstep, by simp, .refl (.inr hhung)⟩
    . by_cases hne : uIdx = s.shm.usedIdx
      . rcases h.put_end_reclaim hpc hne call with ⟨hstep, hsound⟩
        exact ⟨_, _, _, hstep, by simp, .refl (.inl hsound)⟩
      . rcases h.put_reclaim hpc hne (by omega) with ⟨i, returned, hreturned, hid, hsound⟩
        have hlt := h.back.lt
        rw [PutSide.reclaimed, hpc] at hlt
        have hi := (h.returned_apart hreturned).1
        refine ⟨_, _, _, putStep_reclaim hpc h.numPut hne hlt hid hi call, by simp, ?_⟩
        refine moves_of_step .reclaim ?_ (.inl hsound)
        simp only [Exchange.step, hreturned]
        rfl

end VhostUser
