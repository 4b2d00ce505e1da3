import DpdkLearning.VhostUser.Delivery

/-!
This module contains the proof of which packets are lost: `put_vring` takes all that fit into a buffer without
their header, but `process_desc` has room for fewer bytes.
-/

open Lib

namespace VhostUser

variable {base : Nat} {v : VhostVring} {mapPut mapGet : UInt64 → Option Nat} {a : Places} {s t : Ring}
  {tr : List Step} {act : Act} {e : Event}

/--
The taking side is about to account for a descriptor, and the putting side is not stuck.
-/
def Ring.taking (s : Ring) : Bool :=
  s.get.pc.taking && !s.stuck

/-- Where nothing was lost before, the length of the next packet decides. -/
theorem dropped_iff (h : Sound mapPut mapGet a s) (hstep : (ring mapPut mapGet).step s act = .ok (t, e))
    : e = .dropped
        ↔ act = .get ∧ s.get.pc.taking = true ∧ ∃ x rest, a.offered = x :: rest ∧ maxPacket < x.2.length := by
  rcases ring_step_cases hstep with ⟨call, shm, put, rfl, hput, rfl⟩ | ⟨shm, get, rfl, hget, rfl⟩
  . rcases h.put call with ⟨_, _, _, hput'⟩ | ⟨_, _, e', hput', hne, _⟩
    . rw [hput] at hput'
      cases hput'
    . rw [hput] at hput'
      cases hput'
      simp [hne]
  . rcases h.get with ⟨_, _, e', hget', hiff, _⟩
    rw [hget] at hget'
    cases hget'
    simp [hiff]

variable (hbase : bufferAlignment ∣ base) (hput : Finds base mapPut) (hget : Finds base mapGet)
include hbase hput hget

/--
In every run, with packets of any length, a packet is lost before the putting side is stuck exactly if the
taking side comes to one that is longer than 1507 bytes. `put_vring` accepts up to 1528.
-/
theorem drops_iff (h : Machine.Run (ring mapPut mapGet) (.init (newVring base v)) tr t)
    : (∀ e ∈ tr, e.pre.stuck = false → e.out ≠ .dropped)
        ↔ ∀ tr1 e tr2, tr = tr1 ++ e :: tr2 → e.act = .get → e.pre.taking = true
          → ∀ p, (accepted tr1)[e.pre.get.vring.lastAvailIdx.toNat]? = some p → p.length ≤ maxPacket := by
  have hplaces : (∀ e ∈ tr, e.pre.stuck = false → e.out ≠ .dropped)
      ↔ ∀ tr1 e tr2, tr = tr1 ++ e :: tr2 → e.pre.stuck = false → e.out ≠ .dropped := by
    constructor
    . rintro hall tr1 e tr2 rfl
      apply hall
      simp
    . intro hall e he
      rcases List.append_of_mem he with ⟨tr1, tr2, rfl⟩
      exact hall tr1 e tr2 rfl
  rw [hplaces]
  refine h.forall_edge_iff_past_guard
    (I := fun tr t => Machine.Run (ring mapPut mapGet) (.init (newVring base v)) tr t
      ∧ ∀ e ∈ tr, e.pre.stuck = false → e.out ≠ .dropped)
    (P := fun _ e => e.pre.stuck = false → e.out ≠ .dropped)
    (C := fun tr1 e => e.act = .get → e.pre.taking = true
      → ∀ p, (accepted tr1)[e.pre.get.vring.lastAvailIdx.toNat]? = some p → p.length ≤ maxPacket)
    ⟨.nil, by simp⟩ ?_ ?_
  . rintro tr t act e u ⟨hrun, hpast⟩ hlast hstep
    refine ⟨.snoc hrun hstep, ?_⟩
    rw [List.forall_mem_append, List.forall_mem_singleton]
    exact ⟨hpast, hlast⟩
  . rintro tr t act e u ⟨hrun, hpast⟩ hstep
    dsimp only
    cases hstuck : t.stuck with
    | true => simp [Ring.taking, hstuck]
    | false =>
      have hdrop : ∀ e ∈ tr, e.out = .dropped → e.pre.stuck = true := by
        intro e he hout
        by_contra hnot
        exact hpast e he (by simpa using hnot) hout
      rcases sound_of_run hbase hput hget hrun hdrop hstuck with ⟨b, hsound, hall, hcount⟩
      -- The next packet of those accepted is the first on offer.
      have hnext : (accepted tr)[t.get.vring.lastAvailIdx.toNat]? = b.offered.head?.map Prod.snd := by
        rw [← hall, ← hcount, List.getElem?_append_right (Nat.le_refl _), Nat.sub_self, ← List.head?_eq_getElem?,
          List.head?_map]
      rw [hnext, ne_eq, dropped_iff hsound hstep]
      cases hoffered : b.offered with
      | nil => simp
      | cons x rest => simp [Ring.taking, hstuck]

omit hbase hput hget in
/-- A packet of the greatest length gets through. -/
theorem drops_longest
    : ∃ tr t, Machine.Run (ring (mappedAt 4096 pageSize) (mappedAt 4096 pageSize))
        (.init (newVring 4096 blankShm)) tr t
      ∧ accepted tr = [List.replicate maxPacket 7] ∧ t.get.vring.lastAvailIdx = 1
      ∧ ∀ e ∈ tr, e.pre.stuck = false → e.out ≠ .dropped := by
  have hbase : bufferAlignment ∣ 4096 := by decide
  have hfinds : Finds 4096 (mappedAt 4096 pageSize) := finds_mappedAt (by decide)
  have hcheck : (ring (mappedAt 4096 pageSize) (mappedAt 4096 pageSize)).check
      (.init (freshVring 4096 blankShm))
      (List.replicate 5 (.put (.putVring (List.replicate maxPacket 7))) ++ List.replicate 4 .get)
      (fun tr t => decide (accepted tr = [List.replicate maxPacket 7])
        && decide (t.get.vring.lastAvailIdx = 1)) = true := by
    decide +kernel
  rcases Machine.exists_run_of_check hcheck with ⟨tr, t, hrun, _, htest⟩
  rw [← newVring_eq hbase] at hrun
  simp only [Bool.and_eq_true, decide_eq_true_eq] at htest
  rcases htest with ⟨haccepted, htaken⟩
  refine ⟨tr, t, hrun, haccepted, htaken, ?_⟩
  apply (drops_iff hbase hfinds hfinds hrun).mpr
  rintro tr1 e tr2 rfl _ _ p hp
  have hmem : p ∈ accepted (tr1 ++ e :: tr2) := by
    rw [accepted_append]
    exact List.mem_append_left _ (List.mem_of_getElem? hp)
  rw [haccepted, List.mem_singleton] at hmem
  rw [hmem, List.length_replicate]

end VhostUser
