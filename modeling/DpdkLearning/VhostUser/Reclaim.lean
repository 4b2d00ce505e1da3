import DpdkLearning.VhostUser.Delivery

/-!
This module contains the proofs of when the calls for a ring come to an end: the loop of `process_used_vring`
counts modulo the size of the ring towards an index that does not, and `put_vring` takes the head of the free
list without a look whether there is one.
-/

open Lib

namespace VhostUser

variable {base : Nat} {v : VhostVring} {mapPut mapGet : UInt64 → Option Nat} {a : Places} {s t : Ring}
  {tr : List Step} {act : Act} {uIdx : UInt16}

/-- The putting side alone brings the loop to its end, as long as the used index is one of the ring. -/
theorem Sound.reclaims (h : Sound mapPut mapGet a s) (hpc : s.put.pc = .reclaim uIdx)
    (hlt : s.shm.usedIdx.toNat < vhostVringSize)
    : ∃ tr t, Machine.Run (ring mapPut mapGet) s tr t ∧ ∃ e ∈ tr, e.out = .reclaimed := by
  have hle : uIdx.toNat ≤ s.shm.usedIdx.toNat := by
    have := h.back.returned
    rw [PutSide.reclaimed, hpc] at this
    dsimp only at this
    omega
  generalize hk : s.shm.usedIdx.toNat - uIdx.toNat = k
  induction k generalizing s a uIdx with
  | zero =>
    have hend : uIdx = s.shm.usedIdx := by
      rw [← UInt16.toNat_inj]
      omega
    have hstep : (ring mapPut mapGet).step s _ = _ := ring_step_put (h.put_end_reclaim hpc hend .processUsedVring).1
    exact ⟨_, _, .snoc .nil hstep, _, List.mem_append_right _ (List.mem_singleton_self _), rfl⟩
  | succ k ih =>
    have hne : uIdx ≠ s.shm.usedIdx := by
      rintro rfl
      omega
    rcases h.put_reclaim hpc hne hlt with ⟨i, returned, hreturned, hid, hsound⟩
    have hu := h.back.lt
    rw [PutSide.reclaimed, hpc] at hu
    have hstep : (ring mapPut mapGet).step s _ = _ := ring_step_put
      (putStep_reclaim hpc h.numPut hne hu hid (h.returned_apart hreturned).1 .processUsedVring)
    have hnext : ((uIdx.toNat + 1) % vhostVringSize).toUInt16.toNat = uIdx.toNat + 1 := by
      rw [toNat_mod_size, Nat.mod_eq_of_lt (by omega)]
    have hused : (Sound.reclaimedOne s uIdx i).shm.usedIdx = s.shm.usedIdx := rfl
    rcases ih hsound rfl hlt (by rw [hnext, hused]; omega) (by rw [hnext, hused]; omega)
      with ⟨tr, t, hrun, e, he, hout⟩
    exact ⟨_, t, .cons hstep hrun, e, List.mem_cons_of_mem _ he, hout⟩

/-- No step of a ring that is stuck ends the loop. -/
theorem Hung.not_reclaimed {e : Event} (h : Hung mapPut mapGet a s)
    (hstep : (ring mapPut mapGet).step s act = .ok (t, e)) : e ≠ .reclaimed := by
  rintro rfl
  rcases ring_step_cases hstep with ⟨call, shm, put, rfl, hput, _⟩ | ⟨shm, get, rfl, hget, _⟩
  . rcases h.put call with ⟨_, _, hput', _⟩
    rw [hput] at hput'
    cases hput'
  . exact (getStep_cases hget).1.ne_reclaimed rfl

variable (hbase : bufferAlignment ∣ base) (hput : Finds base mapPut) (hget : Finds base mapGet)
include hbase hput hget

/--
After a run whose accepted packets are of at most 1507 bytes, a call of `process_used_vring` that is in its loop
can come back, in whichever way the two sides go on, exactly if the used index is one of the ring. From the
32768th packet on it is not, and the call never comes back.
-/
theorem reclaims_iff (h : Machine.Run (ring mapPut mapGet) (.init (newVring base v)) tr t)
    (hshort : ∀ p ∈ accepted tr, p.length ≤ maxPacket) (hpc : t.put.pc = .reclaim uIdx)
    : (∃ tr' t', Machine.Run (ring mapPut mapGet) t tr' t' ∧ ∃ e ∈ tr', e.out = .reclaimed)
        ↔ t.shm.usedIdx.toNat < vhostVringSize := by
  have hdrop := dropped_of_short hbase hput hget h hshort
  rcases reach_of_run (reach_init hbase hput hget) h hdrop with ⟨_, b, _, _, hreach⟩
  have hstuck : t.stuck = decide (vhostVringSize ≤ t.shm.usedIdx.toNat) := by
    rw [Ring.stuck, hpc]
  constructor
  . rintro ⟨tr', t', hrun, e, he, hout⟩
    by_contra hgone
    have hhung : Hung mapPut mapGet b t := by
      rw [← stuck_iff hreach, hstuck, decide_eq_true_eq]
      omega
    -- The ring is still stuck where the loop is said to end.
    rcases List.append_of_mem he with ⟨tr1, tr2, rfl⟩
    rcases hrun.at_edge with ⟨h1, hstep, _⟩
    rcases hung_of_run hhung h1 with ⟨_, c, _, _, hpre⟩
    exact hpre.not_reclaimed hstep hout
  . intro hlt
    have hsound : Sound mapPut mapGet b t := by
      apply sound_of_not_stuck hreach
      rw [hstuck, decide_eq_false_iff_not]
      omega
    exact hsound.reclaims hpc hlt

omit hbase hput hget in
/-- A packet has come back, and `process_used_vring` has begun. -/
theorem reclaims_one
    : ∃ tr t, Machine.Run (ring (mappedAt 4096 pageSize) (mappedAt 4096 pageSize))
        (.init (newVring 4096 blankShm)) tr t
      ∧ t.put.pc = .reclaim 0 ∧ t.shm.usedIdx = 1
      ∧ ∃ tr' t', Machine.Run (ring (mappedAt 4096 pageSize) (mappedAt 4096 pageSize)) t tr' t'
        ∧ ∃ e ∈ tr', e.out = .reclaimed := by
  have hbase : bufferAlignment ∣ 4096 := by decide
  have hfinds : Finds 4096 (mappedAt 4096 pageSize) := finds_mappedAt (by decide)
  have hcheck : (ring (mappedAt 4096 pageSize) (mappedAt 4096 pageSize)).check
      (.init (freshVring 4096 blankShm))
      (List.replicate 5 (.put (.putVring [1, 2])) ++ List.replicate 6 .get ++ [.put .processUsedVring])
      (fun tr t => decide (accepted tr = [[1, 2]]) && decide (t.put.pc = .reclaim 0)
        && decide (t.shm.usedIdx = 1)) = true := by
    decide +kernel
  rcases Machine.exists_run_of_check hcheck with ⟨tr, t, hrun, _, htest⟩
  rw [← newVring_eq hbase] at hrun
  simp only [Bool.and_eq_true, decide_eq_true_eq] at htest
  rcases htest with ⟨⟨haccepted, hpc⟩, hused⟩
  have hshort : ∀ p ∈ accepted tr, p.length ≤ maxPacket := by
    rw [haccepted]
    decide
  refine ⟨tr, t, hrun, hpc, hused, ?_⟩
  apply (reclaims_iff hbase hfinds hfinds hrun hshort hpc).mpr
  rw [hused]
  decide

omit hbase hput hget in
/-- Between calls the counters tell whether all descriptors are under way. -/
theorem Sound.free_eq_nil_iff (h : Sound mapPut mapGet a s) (hpc : s.put.pc = .idle)
    : a.free = [] ↔ s.shm.availIdx.toNat = s.put.vring.lastUsedIdx.toNat + vhostVringSize := by
  have hlen := h.length_eq
  have havail := h.availIdx
  have hused := h.usedIdx
  have hback := (h.back_eq (by simp [hpc])).returned
  have hok := h.putOk
  simp only [PutOk, hpc] at hok
  rw [hok, Option.toList_none, List.length_nil] at hlen
  rw [← List.length_eq_zero_iff]
  omega

/--
After a run whose accepted packets are of at most 1507 bytes, the steps of both sides can always be taken, but
for a call of `put_vring` when all descriptors are under way: it reads behind the end of the table.
-/
theorem halts_iff (h : Machine.Run (ring mapPut mapGet) (.init (newVring base v)) tr t)
    (hshort : ∀ p ∈ accepted tr, p.length ≤ maxPacket) (act : Act) (err : Halt)
    : (ring mapPut mapGet).step t act = .error err
        ↔ err = .outOfBounds ∧ t.put.pc = .idle ∧ (∃ buf, act = .put (.putVring buf))
          ∧ t.shm.availIdx.toNat = t.put.vring.lastUsedIdx.toNat + vhostVringSize := by
  have hdrop := dropped_of_short hbase hput hget h hshort
  rcases reach_of_run (reach_init hbase hput hget) h hdrop with ⟨_, b, _, _, hreach⟩
  constructor
  . intro herr
    rcases hreach with hsound | hhung
    . cases act with
      | get =>
        rcases hsound.get with ⟨shm, get, e, hstep, _⟩
        rw [ring_step_get hstep] at herr
        cases herr
      | put call =>
        rcases hsound.put call with ⟨hidle, ⟨buf, rfl⟩, hfree, hstep⟩ | ⟨shm, put, e, hstep, _⟩
        . simp only [ring, hstep] at herr
          cases herr
          exact ⟨rfl, hidle, ⟨buf, rfl⟩, (hsound.free_eq_nil_iff hidle).mp hfree⟩
        . rw [ring_step_put hstep] at herr
          cases herr
    . -- The loop goes on freeing, and the other side takes what is on offer.
      cases act with
      | get =>
        rcases hhung.get with ⟨shm, get, e, hstep, _⟩
        rw [ring_step_get hstep] at herr
        cases herr
      | put call =>
        rcases hhung.put call with ⟨shm, put, hstep, _⟩
        rw [ring_step_put hstep] at herr
        cases herr
  . rintro ⟨rfl, hidle, ⟨buf, rfl⟩, hall⟩
    have hsound : Sound mapPut mapGet b t := by
      apply sound_of_not_stuck hreach
      rw [Ring.stuck, hidle]
    have hfree := (hsound.free_eq_nil_iff hidle).mpr hall
    simp only [ring, hsound.put_exhausted hidle hfree]

omit hbase hput hget in
/-- With one packet under way either side can take its next step. -/
theorem halts_one
    : ∃ tr t, Machine.Run (ring (mappedAt 4096 pageSize) (mappedAt 4096 pageSize))
        (.init (newVring 4096 blankShm)) tr t
      ∧ accepted tr = [[1, 2]]
      ∧ ∀ act err, (ring (mappedAt 4096 pageSize) (mappedAt 4096 pageSize)).step t act ≠ .error err := by
  have hbase : bufferAlignment ∣ 4096 := by decide
  have hfinds : Finds 4096 (mappedAt 4096 pageSize) := finds_mappedAt (by decide)
  have hcheck : (ring (mappedAt 4096 pageSize) (mappedAt 4096 pageSize)).check
      (.init (freshVring 4096 blankShm))
      (List.replicate 5 (.put (.putVring [1, 2])))
      (fun tr t => decide (accepted tr = [[1, 2]]) && decide (t.shm.availIdx = 1)) = true := by
    decide +kernel
  rcases Machine.exists_run_of_check hcheck with ⟨tr, t, hrun, _, htest⟩
  rw [← newVring_eq hbase] at hrun
  simp only [Bool.and_eq_true, decide_eq_true_eq] at htest
  rcases htest with ⟨haccepted, havail⟩
  have hshort : ∀ p ∈ accepted tr, p.length ≤ maxPacket := by
    rw [haccepted]
    decide
  refine ⟨tr, t, hrun, haccepted, ?_⟩
  intro act err herr
  have hall := ((halts_iff hbase hfinds hfinds hrun hshort act err).mp herr).2.2.2
  have hsize : vhostVringSize = 32768 := rfl
  rw [havail, UInt16.toNat_one] at hall
  omega

end VhostUser
