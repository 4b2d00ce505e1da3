import DpdkLearning.VhostUser.Lemmas.Sound

/-!
This module contains what each step of the putting side does to a ring that is as it is meant to be.
-/

open Lib

namespace VhostUser

namespace Sound

variable {mapPut mapGet : UInt64 → Option Nat} {a : Places} {s : Ring}

/-- The descriptor that is being filled is not free and not on offer. -/
theorem filling_apart {i : UInt16} {buf : List UInt8} (h : Sound mapPut mapGet a s)
    (hfilling : a.filling = some (i, buf))
    : i.toNat < vhostVringSize ∧ (∀ x ∈ a.offered, x.1 ≠ i) ∧ ∀ j ∈ a.free, j ≠ i := by
  have hnodup := h.nodup
  have hlt := h.lt_of_mem (i := i) (by simp [Exchange.slots, hfilling])
  simp only [Exchange.slots, hfilling, Option.toList_some, List.map_cons, List.map_nil,
    List.nodup_append, List.mem_append, List.mem_map, List.mem_singleton] at hnodup
  refine ⟨hlt, ?_, ?_⟩
  . intro x hx heq
    exact hnodup.2.2 i (.inl (.inl (.inr rfl))) x.1 ⟨x, hx, rfl⟩ heq.symm
  . intro j hj heq
    exact hnodup.1.1.1.2.2 j hj i rfl heq

/-- Nor is one that comes back. -/
theorem returned_apart {i : UInt16} {rest : List UInt16} (h : Sound mapPut mapGet a s)
    (hreturned : a.returned = i :: rest)
    : i.toNat < vhostVringSize ∧ (∀ x ∈ a.offered, x.1 ≠ i) ∧ ∀ j ∈ a.free, j ≠ i := by
  have hnodup := h.nodup
  have hlt := h.lt_of_mem (i := i) (by simp [Exchange.slots, hreturned])
  simp only [Exchange.slots, hreturned, List.nodup_append, List.mem_append, List.mem_map,
    List.mem_cons] at hnodup
  refine ⟨hlt, ?_, ?_⟩
  . intro x hx heq
    exact hnodup.2.2 i (.inl (.inr (.inl rfl))) x.1 ⟨x, hx, rfl⟩ heq.symm
  . intro j hj heq
    exact hnodup.1.1.2.2 j (.inl hj) i (.inl rfl) heq

theorem toNat_ne {i j : UInt16} (h : i ≠ j) : i.toNat ≠ j.toNat :=
  fun heq => h (UInt16.toNat_inj.mp heq)

/-- A packet that is written into a buffer touches none that can be delivered from another one. -/
theorem contents_store {v : VhostVring} {i : UInt16} {buf : List UInt8} {x : UInt16 × List UInt8}
    (h : Contents v x) (hne : x.1 ≠ i) (hlen : buf.length ≤ bufferSize)
    : Contents { v with
        bytes := (v.bytes.store (bufOff i.toNat) (List.replicate hdrLen 0)).store (bufOff i.toNat + hdrLen) buf }
      x := by
  have hsize : bufferSize = 1528 := rfl
  have hhdr : hdrLen = 10 := rfl
  have hmax : maxPacket = 1507 := rfl
  intro hfits
  have hnat := toNat_ne hne
  have hoff : ∀ k l : Nat, k < l → bufOff k + bufferSize ≤ bufOff l := by
    intro k l hkl
    have := Nat.mul_le_mul_left bufferSize hkl
    rw [Nat.mul_succ] at this
    unfold bufOff
    omega
  dsimp only
  have hapart : bufOff x.1.toNat + bufferSize ≤ bufOff i.toNat
      ∨ bufOff i.toNat + bufferSize ≤ bufOff x.1.toNat := by
    rcases Nat.lt_or_gt_of_ne hnat with hlt | hlt
    . exact .inl (hoff _ _ hlt)
    . exact .inr (hoff _ _ hlt)
  rw [Memory.load_store_apart, Memory.load_store_apart]
  . exact h hfits
  . rw [List.length_replicate]
    omega
  . omega

/-- Outside the loop of `process_used_vring` the count is the one that is kept between calls. -/
theorem back_eq (h : Sound mapPut mapGet a s) (hpc : ∀ uIdx, s.put.pc ≠ .reclaim uIdx)
    : BackOk a s.shm s.put.vring.lastUsedIdx.toNat := by
  have hback := h.back
  unfold PutSide.reclaimed at hback
  split at hback
  . next uIdx heq => exact absurd heq (hpc uIdx)
  . exact hback

theorem put_copy {aIdx : UInt16} {destBuf : Nat} {buf : List UInt8} (h : Sound mapPut mapGet a s)
    (hpc : s.put.pc = .copy aIdx destBuf buf) (call : PutCall)
    : ∃ bytes, putStep mapPut call s.shm s.put
        = .ok ({ s.shm with bytes }, { s.put with pc := .describe aIdx buf }, .quiet)
      ∧ Sound mapPut mapGet a
        { s with shm := { s.shm with bytes }, put := { s.put with pc := .describe aIdx buf } } := by
  have hok := h.putOk
  simp only [PutOk, hpc] at hok
  rcases hok with ⟨hfilling, rfl⟩
  have hlen : buf.length ≤ bufferSize := h.filling (aIdx, buf) hfilling
  rcases h.filling_apart hfilling with ⟨_, hoffered, _⟩
  refine ⟨_, by unfold putStep; rw [hpc], ?_⟩
  exact {
    h with
    contents := fun x hx => contents_store (h.contents x hx) (hoffered x hx) hlen
    back := (h.back_eq (by simp [hpc])).congr rfl rfl
    putOk := by
      refine ⟨hfilling, ?_⟩
      intro _
      exact Memory.load_store rfl }

theorem desc_kept {desc : Nat → VringDesc} {d : VringDesc} {i j : UInt16} (hne : j ≠ i)
    : Function.update desc i.toNat d j.toNat = desc j.toNat :=
  Function.update_of_ne (toNat_ne hne) _ _

theorem put_describe {aIdx : UInt16} {buf : List UInt8} (h : Sound mapPut mapGet a s)
    (hpc : s.put.pc = .describe aIdx buf) (call : PutCall)
    : ∃ desc, putStep mapPut call s.shm s.put
        = .ok ({ s.shm with desc }, { s.put with pc := .offer aIdx buf }, .quiet)
      ∧ Sound mapPut mapGet a
        { s with shm := { s.shm with desc }, put := { s.put with pc := .offer aIdx buf } } := by
  have hok := h.putOk
  simp only [PutOk, hpc] at hok
  rcases hok with ⟨hfilling, hcontents⟩
  rcases h.filling_apart hfilling with ⟨_, hoffered, hfree⟩
  refine ⟨_, by unfold putStep; rw [hpc], ?_⟩
  exact {
    h.setDesc aIdx ({ s.shm.desc aIdx.toNat with
      len := (hdrLen + buf.length).toUInt32, flags := 0, next := vringIdxNone }) rfl
      (show (0 : UInt16) &&& virtioDescFNext = 0 by decide)
      (fun x hx heq => absurd heq (hoffered x hx)) h.numPut with
    slots := h.slots
    back := (h.back_eq (by simp [hpc])).congr rfl rfl
    described := by
      intro x hx
      dsimp only [Described]
      rw [desc_kept (hoffered x hx)]
      exact h.described x hx
    free := by
      apply h.free.congr
      intro j hj
      dsimp only
      rw [desc_kept (hfree j hj)]
    freeLen := by
      intro j hj
      dsimp only
      rw [desc_kept (hfree j hj)]
      exact h.freeLen j hj
    filling := h.filling
    putOk := by
      refine ⟨hfilling, hcontents, ?_⟩
      dsimp only [Described]
      rw [Function.update_self]
    recorded := h.recorded }

/-- How far the counters can have come. -/
theorem availIdx_lt {x : UInt16 × List UInt8} (h : Sound mapPut mapGet a s) (hfilling : a.filling = some x)
    : s.shm.availIdx.toNat + 1 < 2 * vhostVringSize ∧ a.offered.length < vhostVringSize := by
  have hlen := h.length_eq
  have havail := h.availIdx
  have hused := h.usedIdx
  have hback := h.back.returned
  have hlt := h.back.lt
  rw [hfilling, Option.toList_some, List.length_singleton] at hlen
  omega

theorem put_offer {aIdx : UInt16} {buf : List UInt8} (h : Sound mapPut mapGet a s)
    (hpc : s.put.pc = .offer aIdx buf) (call : PutCall)
    : ∃ availRing, putStep mapPut call s.shm s.put
        = .ok ({ s.shm with availRing }, { s.put with pc := .publish aIdx buf }, .quiet)
      ∧ Sound mapPut mapGet a
        { s with shm := { s.shm with availRing }, put := { s.put with pc := .publish aIdx buf } } := by
  have hok := h.putOk
  simp only [PutOk, hpc] at hok
  rcases hok with ⟨hfilling, hcontents, hdescribed⟩
  refine ⟨Function.update s.shm.availRing (s.shm.availIdx.toNat % vhostVringSize) aIdx, ?_, ?_⟩
  . unfold putStep
    rw [hpc]
    dsimp only
    rw [h.numPut, slot_eq]
  . exact {
      h with
      ring := by
        -- The entry behind those on offer, as there are fewer of them than the ring has entries.
        intro k i hk hlen
        have hlt := (h.availIdx_lt hfilling).2
        have hk' := (List.getElem?_eq_some_iff.mp hk).1
        rw [List.length_map] at hk'
        dsimp only
        rw [Function.update_of_ne]
        . exact h.ring k i hk hlen
        . intro heq
          rw [h.availIdx] at heq
          have := Circular.eq_of_slot_eq (by omega) (by omega) heq
          omega
      contents := h.contents
      lens := h.lens
      ids := h.ids
      back := (h.back_eq (by simp [hpc])).congr rfl rfl
      putOk := by
        refine ⟨hfilling, hcontents, hdescribed, ?_⟩
        apply Function.update_self }

theorem put_publish {aIdx : UInt16} {buf : List UInt8} (h : Sound mapPut mapGet a s)
    (hpc : s.put.pc = .publish aIdx buf) (call : PutCall)
    : a.filling = some (aIdx, buf)
      ∧ putStep mapPut call s.shm s.put
        = .ok ({ s.shm with availIdx := s.shm.availIdx + 1 }, { s.put with pc := .idle }, .accepted aIdx buf)
      ∧ Sound mapPut mapGet { a with filling := none, offered := a.offered ++ [(aIdx, buf)] }
        { s with
          shm := { s.shm with availIdx := s.shm.availIdx + 1 }, put := { s.put with pc := .idle } } := by
  have hok := h.putOk
  simp only [PutOk, hpc] at hok
  rcases hok with ⟨hfilling, hcontents, hdescribed, hring⟩
  have hstep : Exchange.step a .offer
      = .ok ({ a with filling := none, offered := a.offered ++ [(aIdx, buf)] }, [.accepted buf]) := by
    simp only [Exchange.step, hfilling]
  have hsize : vhostVringSize = 32768 := rfl
  rcases h.availIdx_lt hfilling with ⟨hlt, hroom⟩
  refine ⟨hfilling, by unfold putStep; rw [hpc], ?_⟩
  exact {
    h with
    availIdx := by
      dsimp only
      rw [UInt16.toNat_add, UInt16.toNat_one, Nat.mod_eq_of_lt (by omega), h.availIdx, List.length_append,
        List.length_singleton, Nat.add_assoc]
    ring := by
      dsimp only
      rw [List.map_append]
      refine Circular.push h.ring ?_ (fun _ _ => rfl)
      rw [List.length_map, ← h.availIdx]
      exact hring
    bounds := by
      rw [List.forall_mem_append, List.forall_mem_singleton]
      exact ⟨h.bounds, (h.filling_apart hfilling).1, h.filling (aIdx, buf) hfilling⟩
    contents := by
      rw [List.forall_mem_append, List.forall_mem_singleton]
      exact ⟨h.contents, hcontents⟩
    lens := by
      rw [List.forall_mem_append, List.forall_mem_singleton]
      exact ⟨h.lens, .inl hdescribed⟩
    ids := h.ids
    room := by
      dsimp only
      rw [List.length_append, List.length_singleton]
      exact hroom
    getOk := h.getOk.concat rfl
    slots := (Exchange.slots_perm_of_step hstep).trans h.slots
    back := by
      have hback := h.back_eq (by simp [hpc])
      exact ⟨hback.returned, hback.lt, hback.used⟩
    described := by
      rw [List.forall_mem_append, List.forall_mem_singleton]
      exact ⟨h.described, hdescribed⟩
    filling := by rintro _ ⟨⟩
    putOk := rfl
    recorded := by
      intro aIdx' count dIdx buf' p rest hget hoffered
      have hok := h.getOk
      simp only [GetOk] at hok hget
      rw [hget] at hok
      rcases hok with ⟨_, p', rest', hold, _⟩
      dsimp only at hoffered
      rw [hold, List.cons_append, List.cons.injEq, Prod.mk.injEq] at hoffered
      rw [← hoffered.1.2]
      exact h.recorded _ _ _ _ _ _ hget hold }

/-- The head of the free list, which is none that the table has where nothing is free. -/
theorem lastAvailIdx_lt_iff (h : Sound mapPut mapGet a s)
    : s.put.vring.lastAvailIdx.toNat < vhostVringSize ↔ a.free ≠ [] := by
  constructor
  . rintro hlt hnil
    rw [h.free.eq_nil_iff.mpr hnil] at hlt
    exact absurd hlt (by decide)
  . intro hne
    rcases h.free.pop (mt h.free.eq_nil_iff.mp hne) with ⟨rest, hfree, _⟩
    apply h.lt_of_mem
    rw [Exchange.slots, hfree]
    simp

theorem put_exhausted {buf : List UInt8} (h : Sound mapPut mapGet a s) (hpc : s.put.pc = .idle)
    (hfree : a.free = []) : putStep mapPut (.putVring buf) s.shm s.put = .error .outOfBounds := by
  have hlt := mt h.lastAvailIdx_lt_iff.mp (not_not.mpr hfree)
  unfold putStep
  rw [hpc]
  dsimp only
  unfold putVring
  dsimp only
  rw [if_neg hlt]

theorem toNat_bufferSize : bufferSize.toUInt32.toNat = bufferSize := rfl

theorem put_refused {buf : List UInt8} (h : Sound mapPut mapGet a s) (hpc : s.put.pc = .idle)
    (hfree : a.free ≠ []) (hbuf : bufferSize < buf.length)
    : putStep mapPut (.putVring buf) s.shm s.put = .ok (s.shm, { s.put with pc := .idle }, .refused) := by
  have hlt := h.lastAvailIdx_lt_iff.mpr hfree
  rcases h.free.pop (mt h.free.eq_nil_iff.mp hfree) with ⟨rest, hhead, _⟩
  have hlen := h.freeLen s.put.vring.lastAvailIdx (by simp [hhead])
  unfold putStep
  rw [hpc]
  dsimp only
  unfold putVring
  dsimp only
  rw [if_pos hlt, hlen, toNat_bufferSize, if_pos hbuf]

/--
The putting side once it has taken the head of the free list for a packet.
-/
def took (s : Ring) (buf : List UInt8) : PutSide where
  vring := { s.put.vring with lastAvailIdx := (s.shm.desc s.put.vring.lastAvailIdx.toNat).next }
  pc := .copy s.put.vring.lastAvailIdx (bufOff s.put.vring.lastAvailIdx.toNat) buf

theorem put_take {buf : List UInt8} (h : Sound mapPut mapGet a s) (hpc : s.put.pc = .idle)
    (hfree : a.free ≠ []) (hbuf : buf.length ≤ bufferSize)
    : putStep mapPut (.putVring buf) s.shm s.put = .ok (s.shm, took s buf, .quiet)
      ∧ ∃ i free, a.filling = none ∧ a.free = i :: free
        ∧ Sound mapPut mapGet { a with free, filling := some (i, buf) } { s with put := took s buf } := by
  have hlt := h.lastAvailIdx_lt_iff.mpr hfree
  rcases h.free.pop (mt h.free.eq_nil_iff.mp hfree) with ⟨rest, hhead, hrest⟩
  have hlen := h.freeLen s.put.vring.lastAvailIdx (by simp [hhead])
  have hok := h.putOk
  simp only [PutOk, hpc] at hok
  have hstep : Exchange.step a (.take buf)
      = .ok ({ a with free := rest, filling := some (s.put.vring.lastAvailIdx, buf) }, []) := by
    simp only [Exchange.step, hok, hhead]
  constructor
  . unfold putStep
    rw [hpc]
    dsimp only
    unfold putVring
    dsimp only
    rw [if_pos hlt, hlen, toNat_bufferSize, if_neg (Nat.not_lt.mpr hbuf), h.mapPut _ hlt]
    rfl
  . refine ⟨s.put.vring.lastAvailIdx, rest, hok, hhead, ?_⟩
    exact {
      h with
      numPut := h.numPut
      contents := h.contents
      lens := h.lens
      ids := h.ids
      slots := (Exchange.slots_perm_of_step hstep).trans h.slots
      back := by
        have hback := h.back_eq (by simp [hpc])
        exact ⟨hback.returned, hback.lt, hback.used⟩
      free := hrest
      freeLen := by
        intro i hi
        apply h.freeLen
        rw [hhead]
        exact List.mem_cons_of_mem _ hi
      filling := by
        intro x hx
        cases hx
        exact hbuf
      putOk := ⟨rfl, rfl⟩ }

theorem put_begin_reclaim (h : Sound mapPut mapGet a s) (hpc : s.put.pc = .idle)
    : putStep mapPut .processUsedVring s.shm s.put
        = .ok (s.shm, { s.put with pc := .reclaim s.put.vring.lastUsedIdx }, .quiet)
      ∧ Sound mapPut mapGet a { s with put := { s.put with pc := .reclaim s.put.vring.lastUsedIdx } } := by
  have hok := h.putOk
  simp only [PutOk, hpc] at hok
  refine ⟨by unfold putStep; rw [hpc], ?_⟩
  exact {
    h with
    numPut := h.numPut
    contents := h.contents
    lens := h.lens
    ids := h.ids
    back := h.back_eq (by simp [hpc])
    putOk := hok }

/-- The loop of `process_used_vring` has come to its end. -/
theorem put_end_reclaim {uIdx : UInt16} (h : Sound mapPut mapGet a s) (hpc : s.put.pc = .reclaim uIdx)
    (hend : uIdx = s.shm.usedIdx) (call : PutCall)
    : putStep mapPut call s.shm s.put
        = .ok (s.shm, { vring := { s.put.vring with lastUsedIdx := uIdx }, pc := .idle }, .reclaimed)
      ∧ Sound mapPut mapGet a
        { s with put := { vring := { s.put.vring with lastUsedIdx := uIdx }, pc := .idle } } := by
  have hok := h.putOk
  have hback := h.back
  simp only [PutOk, hpc] at hok
  rw [PutSide.reclaimed, hpc] at hback
  refine ⟨by unfold putStep; rw [hpc]; exact if_neg (not_not.mpr hend), ?_⟩
  exact {
    h with
    numPut := h.numPut
    contents := h.contents
    lens := h.lens
    ids := h.ids
    back := hback
    putOk := hok }

/--
The descriptor `i` as `free_vring` leaves it.
-/
def freed (s : Ring) (i : UInt16) : VringDesc :=
  { s.shm.desc i.toNat with
    len := bufferSize.toUInt32
    flags := (s.shm.desc i.toNat).flags ||| virtioDescFWrite
    next := s.put.vring.lastAvailIdx }

/--
The ring after a round of the loop of `process_used_vring` that frees descriptor `i`.
-/
def reclaimedOne (s : Ring) (uIdx i : UInt16) : Ring :=
  { s with
    shm := { s.shm with desc := Function.update s.shm.desc i.toNat (freed s i) }
    put := {
      vring := { s.put.vring with lastAvailIdx := i }
      pc := .reclaim ((uIdx.toNat + 1) % vhostVringSize).toUInt16 } }

theorem or_write_land_next (f : UInt16) : (f ||| virtioDescFWrite) &&& virtioDescFNext = f &&& virtioDescFNext := by
  have hnone : virtioDescFWrite.toBitVec &&& virtioDescFNext.toBitVec = 0#16 := by decide
  rw [← UInt16.toBitVec_inj, UInt16.toBitVec_and, UInt16.toBitVec_or, BitVec.and_or_distrib_right, hnone,
    BitVec.or_zero, UInt16.toBitVec_and]

/-- A round of the loop of `process_used_vring`, as long as the used index is one of the ring. -/
theorem put_reclaim {uIdx : UInt16} (h : Sound mapPut mapGet a s) (hpc : s.put.pc = .reclaim uIdx)
    (hne : uIdx ≠ s.shm.usedIdx) (hlt : s.shm.usedIdx.toNat < vhostVringSize)
    : ∃ i returned, a.returned = i :: returned ∧ (s.shm.usedRing uIdx.toNat).id = i.toUInt32
      ∧ Sound mapPut mapGet { a with free := i :: a.free, returned } (reclaimedOne s uIdx i) := by
  have hok := h.putOk
  have hback := h.back
  have hsize : vhostVringSize = 32768 := rfl
  simp only [PutOk, hpc] at hok
  rw [PutSide.reclaimed, hpc] at hback
  dsimp only at hback
  cases hreturned : a.returned with
  | nil =>
    have := hback.returned
    rw [hreturned, List.length_nil, Nat.add_zero, UInt16.toNat_inj] at this
    exact absurd this.symm hne
  | cons i returned =>
    have hstep : Exchange.step a .reclaim = .ok ({ a with free := i :: a.free, returned }, []) := by
      simp only [Exchange.step, hreturned]
    rcases h.returned_apart hreturned with ⟨hi, hoffered, hfree⟩
    have hcount := hback.returned
    have hlen := h.length_eq
    have hused := hback.used
    rw [hreturned, List.length_cons] at hcount hlen
    rw [hreturned, List.cons_append, List.map_cons] at hused
    -- The oldest entry that has not been read is that of the descriptor that comes back first.
    have hid : (s.shm.usedRing uIdx.toNat).id = i.toUInt32 := by
      have := hused 0 i.toUInt32 rfl
      rw [Nat.add_zero, Nat.mod_eq_of_lt hback.lt] at this
      apply this
      rw [List.length_cons, List.length_map, List.length_append]
      omega
    have hnext : ((uIdx.toNat + 1) % vhostVringSize).toUInt16.toNat = uIdx.toNat + 1 := by
      rw [toNat_mod_size, Nat.mod_eq_of_lt (by omega)]
    have hiNone : i ≠ vringIdxNone := by
      rintro rfl
      exact absurd hi (by decide)
    refine ⟨i, returned, rfl, hid, ?_⟩
    exact {
      h.setDesc i (freed s i) rfl (by
        rw [freed, or_write_land_next]
        exact h.flags _ hi) (fun _ _ _ => rfl) h.numPut with
      slots := (Exchange.slots_perm_of_step hstep).trans h.slots
      back := by
        constructor
        . simp only [PutSide.reclaimed, reclaimedOne, hnext]
          omega
        . simp only [PutSide.reclaimed, reclaimedOne, hnext]
          omega
        . simp only [PutSide.reclaimed, reclaimedOne, hnext]
          exact hused.tail
      described := by
        intro x hx
        dsimp only [Described, reclaimedOne]
        rw [desc_kept (hoffered x hx)]
        exact h.described x hx
      free := by
        apply h.free.push hiNone
        . simp [reclaimedOne, freed]
        . intro j hj
          simp only [reclaimedOne]
          rw [desc_kept (hfree j hj)]
      freeLen := by
        rw [List.forall_mem_cons]
        constructor
        . simp [reclaimedOne, freed]
        . intro j hj
          simp only [reclaimedOne]
          rw [desc_kept (hfree j hj)]
          exact h.freeLen j hj
      filling := h.filling
      putOk := hok
      recorded := h.recorded }

end Sound

end VhostUser
