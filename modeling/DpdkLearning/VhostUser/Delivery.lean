import DpdkLearning.VhostUser.Lemmas.Runs

/-!
This module contains the proof that packets go through a ring of two processes whole, once and in order,
whichever of their steps come between which.
-/

open Lib

namespace VhostUser

variable {base : Nat} {v : VhostVring} {mapPut mapGet : UInt64 → Option Nat} {a : Places} {s t : Ring}
  {tr : List Step} {act : Act} {e : Event}

/-- The available index counts the packets that are accepted. -/
theorem availIdx_step (h : Reach mapPut mapGet a s) (hstep : (ring mapPut mapGet).step s act = .ok (t, e))
    : t.shm.availIdx.toNat = s.shm.availIdx.toNat + (Exchange.accepted e.seen).length := by
  rcases ring_step_cases hstep with ⟨call, shm, put, rfl, hput, rfl⟩ | ⟨shm, get, rfl, hget, rfl⟩
  . rcases putStep_cases hput with ⟨hmove, _, ⟨hne, hsame⟩ | ⟨⟨aIdx, buf, hpc, rfl⟩, hsucc⟩, _⟩
    . rw [hsame, hmove.accepted hne]
      rfl
    . -- A loop that does not end does not come to put anything.
      have hsound : Sound mapPut mapGet a s := by
        apply sound_of_not_stuck h
        rw [Ring.stuck, hpc]
      have hlt := (hsound.availIdx_lt (hsound.put_publish hpc call).1).1
      have hsize : vhostVringSize = 32768 := rfl
      dsimp only
      rw [hsucc, UInt16.toNat_add, UInt16.toNat_one, Nat.mod_eq_of_lt (by omega)]
      rfl
  . rcases getStep_cases hget with ⟨hmove, hsame, _⟩
    rw [hsame, hmove.accepted]
    rfl

/-- The handler is told the size of the packet that it is given. -/
theorem size_of_step {dIdx : UInt16} {buf : List UInt8} {size : UInt64} (h : Reach mapPut mapGet a s)
    (hstep : (ring mapPut mapGet).step s act = .ok (t, .handled dIdx buf size))
    : size = buf.length.toUInt64 := by
  have hheld : Held mapPut mapGet a s := by
    rcases h with h | h
    . exact h.toHeld
    . exact h.toHeld
  rcases ring_step_cases hstep with ⟨call, shm, put, rfl, hput, rfl⟩ | ⟨shm, get, rfl, hget, rfl⟩
  . exact absurd rfl ((putStep_cases hput).1.ne_handled dIdx buf size)
  . rcases (getStep_cases hget).1.of_handled with ⟨aIdx, count, all, hpc⟩
    rcases hheld.get_record hpc with ⟨p, rest, usedRing, e, _, hget', hcases⟩
    rw [hget] at hget'
    cases hget'
    rcases hcases with ⟨_, _, heq⟩ | ⟨_, _, heq⟩
    . cases heq
    . cases heq
      rfl

variable (hbase : bufferAlignment ∣ base) (hput : Finds base mapPut) (hget : Finds base mapGet)
include hbase hput hget

theorem length_accepted (h : Machine.Run (ring mapPut mapGet) (.init (newVring base v)) tr t)
    (hdrop : ∀ e ∈ tr, e.out = .dropped → e.pre.stuck = true) : (accepted tr).length = t.shm.availIdx.toNat := by
  refine h.history_of_past_guard (P := fun tr t => (accepted tr).length = t.shm.availIdx.toNat)
    (C := fun tr _ => ∀ e ∈ tr, e.out = .dropped → e.pre.stuck = true) rfl ?_ ?_
  . rintro tr1 e tr2 rfl e' he'
    exact hdrop e' (List.mem_append_left _ he')
  . intro tr t act e u hrun hlen hdrop hstep
    rcases reach_of_run (reach_init hbase hput hget) hrun hdrop with ⟨_, b, _, _, hreach⟩
    rw [accepted_append, List.length_append, hlen, availIdx_step hreach hstep, accepted, seen_singleton]

/-- What is on offer are the last of the packets, those that the taking side has not counted. -/
theorem sound_of_run (h : Machine.Run (ring mapPut mapGet) (.init (newVring base v)) tr t)
    (hdrop : ∀ e ∈ tr, e.out = .dropped → e.pre.stuck = true) (hstuck : t.stuck = false)
    : ∃ b, Sound mapPut mapGet b t ∧ delivered tr ++ b.offered.map Prod.snd = accepted tr
        ∧ (delivered tr).length = t.get.vring.lastAvailIdx.toNat := by
  have hlen := length_accepted hbase hput hget h hdrop
  rcases reach_of_run (reach_init hbase hput hget) h hdrop with ⟨tr', b, hmoves, hseen, hreach⟩
  have hsound := sound_of_not_stuck hreach hstuck
  have hlost := lost_seen_eq_zero (not_dropped_of_run hbase hput hget h hdrop hstuck)
  rw [← hseen] at hlost
  have hall := Exchange.Run.delivered_eq hmoves rfl hlost
  rw [hseen] at hall
  refine ⟨b, hsound, hall, ?_⟩
  have havail := hsound.availIdx
  have := congrArg List.length hall
  rw [List.length_append, List.length_map] at this
  unfold accepted at hlen
  unfold delivered
  omega

/--
In every run of both sides of a ring, step by step in any order, whose accepted packets the taking side has room
for (at most 1507 bytes), the handler gets packets that were accepted, each at most once and in their order, and
is told their sizes. As long as the putting side is not stuck it has got all that the taking side has counted.
The available index counts all packets there ever were, without coming round.
-/
theorem ring_delivers (h : Machine.Run (ring mapPut mapGet) (.init (newVring base v)) tr t)
    (hshort : ∀ p ∈ accepted tr, p.length ≤ maxPacket)
    : (delivered tr).Sublist (accepted tr)
      ∧ (∀ e ∈ tr, ∀ dIdx buf size, e.out = .handled dIdx buf size → size = buf.length.toUInt64)
      ∧ (t.stuck = false → delivered tr = (accepted tr).take t.get.vring.lastAvailIdx.toNat)
      ∧ (accepted tr).length = t.shm.availIdx.toNat := by
  have hdrop := dropped_of_short hbase hput hget h hshort
  have hlen := length_accepted hbase hput hget h hdrop
  rcases reach_of_run (reach_init hbase hput hget) h hdrop with ⟨tr', b, hmoves, hseen, hreach⟩
  have hsub := Exchange.Run.delivered_sublist hmoves rfl
  rw [hseen] at hsub
  refine ⟨(List.sublist_append_left _ _).trans hsub.1, ?_, ?_, hlen⟩
  . intro e he dIdx buf size hout
    rcases List.append_of_mem he with ⟨tr1, tr2, rfl⟩
    rcases h.at_edge with ⟨h1, hstep, _⟩
    rcases reach_of_run (reach_init hbase hput hget) h1
      (fun e he => hdrop e (List.mem_append_left _ he)) with ⟨_, _, _, _, hpre⟩
    rw [hout] at hstep
    exact size_of_step hpre hstep
  . intro hstuck
    rcases sound_of_run hbase hput hget h hdrop hstuck with ⟨b, _, hall, hcount⟩
    rw [← hcount, ← hall, List.take_left]

omit hbase hput hget in
/-- Two packets are put while the other side takes the first one. -/
theorem ring_delivers_two
    : ∃ tr t, Machine.Run (ring (mappedAt 4096 pageSize) (mappedAt 4096 pageSize))
        (.init (newVring 4096 blankShm)) tr t
      ∧ accepted tr = [[1, 2], [3]] ∧ delivered tr = [[1, 2]] := by
  have hbase : bufferAlignment ∣ 4096 := by decide
  have hfinds : Finds 4096 (mappedAt 4096 pageSize) := finds_mappedAt (by decide)
  have hcheck : (ring (mappedAt 4096 pageSize) (mappedAt 4096 pageSize)).check
      (.init (freshVring 4096 blankShm))
      (List.replicate 5 (.put (.putVring [1, 2])) ++ [.get, .get, .put (.putVring [3]), .get]
        ++ List.replicate 4 (.put .processUsedVring) ++ [.get])
      (fun tr t => decide (accepted tr = [[1, 2], [3]]) && decide (t.get.vring.lastAvailIdx = 1)
        && !t.stuck) = true := by
    decide +kernel
  rcases Machine.exists_run_of_check hcheck with ⟨tr, t, hrun, _, htest⟩
  rw [← newVring_eq hbase] at hrun
  simp only [Bool.and_eq_true, decide_eq_true_eq, Bool.not_eq_true'] at htest
  rcases htest with ⟨⟨haccepted, htaken⟩, hstuck⟩
  have hshort : ∀ p ∈ accepted tr, p.length ≤ maxPacket := by
    rw [haccepted]
    decide
  refine ⟨tr, t, hrun, haccepted, ?_⟩
  rw [(ring_delivers hbase hfinds hfinds hrun hshort).2.2.1 hstuck, haccepted, htaken]
  rfl

end VhostUser
