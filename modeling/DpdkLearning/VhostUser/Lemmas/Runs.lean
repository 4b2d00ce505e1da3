import DpdkLearning.VhostUser.Lemmas.Moves
import DpdkLearning.VhostUser.Lemmas.NewVring

/-!
This module contains what is true in every run of a ring: which packets were dropped, and that a ring is as it
is meant to be as long as its putting side is not stuck.
-/

open Lib

namespace VhostUser

abbrev Step : Type := Edge Ring Act Event

def seen (tr : List Step) : List (Exchange.Seen (List UInt8)) :=
  tr.flatMap (fun e => e.out.seen)

/--
The packets that `put_vring` has accepted.
-/
def accepted (tr : List Step) : List (List UInt8) := Exchange.accepted (seen tr)

/--
The packets that the handler was called with.
-/
def delivered (tr : List Step) : List (List UInt8) := Exchange.delivered (seen tr)

/--
The loop of `process_used_vring` looks for an index that the ring does not have.
-/
def Ring.stuck (s : Ring) : Bool :=
  match s.put.pc with
  | .reclaim _ => decide (vhostVringSize ≤ s.shm.usedIdx.toNat)
  | _ => false

variable {base : Nat} {v : VhostVring} {mapPut mapGet : UInt64 → Option Nat} {a : Places} {s t : Ring}
  {tr tr1 tr2 : List Step} {act : Act} {e : Event}

@[simp]
theorem seen_append : seen (tr1 ++ tr2) = seen tr1 ++ seen tr2 := by
  apply List.flatMap_append

@[simp]
theorem seen_singleton {e : Step} : seen [e] = e.out.seen := by
  apply List.flatMap_singleton

@[simp]
theorem accepted_append : accepted (tr1 ++ tr2) = accepted tr1 ++ accepted tr2 := by
  simp [accepted]

@[simp]
theorem delivered_append : delivered (tr1 ++ tr2) = delivered tr1 ++ delivered tr2 := by
  simp [delivered]

theorem stuck_iff (h : Reach mapPut mapGet a s) : s.stuck = true ↔ Hung mapPut mapGet a s := by
  constructor
  . intro hstuck
    unfold Ring.stuck at hstuck
    split at hstuck
    . next uIdx hpc =>
      rw [decide_eq_true_eq] at hstuck
      rcases h with h | h
      . exact h.hung hpc hstuck
      . exact h
    . contradiction
  . intro hhung
    rcases hhung.looping with ⟨uIdx, hpc, _⟩
    unfold Ring.stuck
    rw [hpc]
    exact decide_eq_true hhung.gone

theorem sound_of_not_stuck (h : Reach mapPut mapGet a s) (hstuck : s.stuck = false) : Sound mapPut mapGet a s := by
  rcases h with h | h
  . exact h
  . rw [(stuck_iff (.inr h)).mpr h] at hstuck
    contradiction

/-- A step of the ring is one of its sides. -/
theorem ring_step_cases (h : (ring mapPut mapGet).step s act = .ok (t, e))
    : (∃ call shm put, act = .put call ∧ putStep mapPut call s.shm s.put = .ok (shm, put, e)
        ∧ t = { s with shm, put })
      ∨ ∃ shm get, act = .get ∧ getStep mapGet s.shm s.get = .ok (shm, get, e) ∧ t = { s with shm, get } := by
  cases act with
  | put call =>
    dsimp only [ring] at h
    split at h
    . contradiction
    . next shm put e' hput =>
      cases h
      exact .inl ⟨call, shm, put, rfl, hput, rfl⟩
  | get =>
    dsimp only [ring] at h
    split at h
    . contradiction
    . next shm get e' hget =>
      cases h
      exact .inr ⟨shm, get, rfl, hget, rfl⟩

theorem ring_step_put {call : PutCall} {shm : VhostVring} {put : PutSide}
    (h : putStep mapPut call s.shm s.put = .ok (shm, put, e))
    : (ring mapPut mapGet).step s (.put call) = .ok ({ s with shm, put }, e) := by
  dsimp only [ring]
  rw [h]

theorem ring_step_get {shm : VhostVring} {get : GetSide} (h : getStep mapGet s.shm s.get = .ok (shm, get, e))
    : (ring mapPut mapGet).step s .get = .ok ({ s with shm, get }, e) := by
  dsimp only [ring]
  rw [h]

theorem ring_put_error {call : PutCall} {err : Halt}
    : (ring mapPut mapGet).step s (.put call) = .error err ↔ putStep mapPut call s.shm s.put = .error err := by
  dsimp only [ring]
  cases putStep mapPut call s.shm s.put with
  | error e => simp
  | ok r => simp

theorem ring_get_error {err : Halt}
    : (ring mapPut mapGet).step s .get = .error err ↔ getStep mapGet s.shm s.get = .error err := by
  dsimp only [ring]
  cases getStep mapGet s.shm s.get with
  | error e => simp
  | ok r => simp

theorem Hung.step (h : Hung mapPut mapGet a s) (hstep : (ring mapPut mapGet).step s act = .ok (t, e))
    : Moves (Hung mapPut mapGet) a e.seen t := by
  rcases ring_step_cases hstep with ⟨call, shm, put, rfl, hput, rfl⟩ | ⟨shm, get, rfl, hget, rfl⟩
  . rcases h.put call with ⟨shm', put', hput', hhung⟩
    rw [hput] at hput'
    cases hput'
    exact .refl hhung
  . rcases h.get with ⟨shm', get', e', hget', hmoves⟩
    rw [hget] at hget'
    cases hget'
    exact hmoves

theorem Reach.step (h : Reach mapPut mapGet a s) (hstep : (ring mapPut mapGet).step s act = .ok (t, e))
    (hdrop : e = .dropped → s.stuck = true) : Moves (Reach mapPut mapGet) a e.seen t := by
  rcases h with h | h
  . rcases ring_step_cases hstep with ⟨call, shm, put, rfl, hput, rfl⟩ | ⟨shm, get, rfl, hget, rfl⟩
    . rcases h.put call with ⟨_, _, _, hput'⟩ | ⟨shm', put', e', hput', _, hmoves⟩
      . rw [hput] at hput'
        contradiction
      . rw [hput] at hput'
        cases hput'
        exact hmoves
    . by_cases he : e = .dropped
      . have hhung := (stuck_iff (.inl h)).mp (hdrop he)
        exact (hhung.step hstep).mono (fun _ => .inr)
      . rcases h.get with ⟨shm', get', e', hget', _, hmoves⟩
        rw [hget] at hget'
        cases hget'
        exact (hmoves he).mono (fun _ => .inl)
  . exact (h.step hstep).mono (fun _ => .inr)

/-- In a run that drops nothing before it is stuck, the ring gets into no other kind of state. -/
theorem reach_of_run (h0 : Reach mapPut mapGet a s) (h : Machine.Run (ring mapPut mapGet) s tr t)
    (hdrop : ∀ e ∈ tr, e.out = .dropped → e.pre.stuck = true) : Moves (Reach mapPut mapGet) a (seen tr) t := by
  refine h.matched_of_past_guard (f := fun e => e.out.seen)
    (C := fun _ e => e.out = .dropped → e.pre.stuck = true) h0 ?_ ?_
  . rintro tr1 e tr2 rfl
    apply hdrop
    simp
  . intro tr b t act e u _ hreach hdrop hstep
    exact hreach.step hstep hdrop

theorem hung_of_run (h0 : Hung mapPut mapGet a s) (h : Machine.Run (ring mapPut mapGet) s tr t)
    : Moves (Hung mapPut mapGet) a (seen tr) t := by
  refine h.matched_of_past_guard (f := fun e => e.out.seen) (C := fun _ _ => True) h0 ?_ ?_
  . intros
    trivial
  . intro tr b t act e u _ hhung _ hstep
    exact hhung.step hstep

/-- Once stuck, the putting side stays so. -/
theorem stuck_of_run (h0 : Reach mapPut mapGet a s) (h : Machine.Run (ring mapPut mapGet) s tr t)
    (hstuck : s.stuck = true) : t.stuck = true := by
  rcases hung_of_run ((stuck_iff h0).mp hstuck) h with ⟨_, b, _, _, hhung⟩
  exact (stuck_iff (.inr hhung)).mpr hhung

theorem lost_seen_eq_zero (h : ∀ e ∈ tr, e.out ≠ .dropped) : Exchange.lost (seen tr) = 0 := by
  induction tr with
  | nil => rfl
  | cons e tr ih =>
    rw [List.forall_mem_cons] at h
    have hone : Exchange.lost e.out.seen = 0 := by
      have hne := h.1
      cases hout : e.out with
      | dropped => exact absurd hout hne
      | _ => rfl
    rw [← List.singleton_append, seen_append, seen_singleton, Exchange.lost_append, hone, ih h.2]

variable (hbase : bufferAlignment ∣ base) (hput : Finds base mapPut) (hget : Finds base mapGet)
include hbase hput hget

/-- A ring just made is as it is meant to be. -/
theorem reach_init : Reach mapPut mapGet (.fresh allSlots) (.init (newVring base v)) :=
  .inl (sound_init hbase hput hget)

/-- Nothing was dropped in a run that did not get stuck. -/
theorem not_dropped_of_run (h : Machine.Run (ring mapPut mapGet) (.init (newVring base v)) tr t)
    (hdrop : ∀ e ∈ tr, e.out = .dropped → e.pre.stuck = true) (hstuck : t.stuck = false)
    : ∀ e ∈ tr, e.out ≠ .dropped := by
  intro e he hout
  have hpre := hdrop e he hout
  rcases List.append_of_mem he with ⟨tr1, tr2, rfl⟩
  rcases h.split with ⟨u, h1, h2⟩
  rcases reach_of_run (reach_init hbase hput hget) h1
    (fun e he => hdrop e (List.mem_append_left _ he)) with ⟨_, b, _, _, hreach⟩
  rw [h2.cons_inv.1] at hpre
  rw [stuck_of_run hreach h2 hpre] at hstuck
  exact Bool.noConfusion hstuck

/-- A packet that the taking side has room for is dropped only where the putting side is stuck. -/
theorem dropped_of_short (h : Machine.Run (ring mapPut mapGet) (.init (newVring base v)) tr t)
    (hshort : ∀ p ∈ accepted tr, p.length ≤ maxPacket)
    : ∀ e ∈ tr, e.out = .dropped → e.pre.stuck = true := by
  refine h.history_of_past_guard
    (P := fun tr _ => ∀ e ∈ tr, e.out = .dropped → e.pre.stuck = true)
    (C := fun tr _ => ∀ p ∈ accepted tr, p.length ≤ maxPacket) (List.forall_mem_nil _) ?_ ?_
  . rintro tr1 e tr2 rfl p hp
    apply hshort p
    rw [accepted_append]
    exact List.mem_append_left _ hp
  . intro tr t act e u hrun hpast hshort hstep
    rw [List.forall_mem_append, List.forall_mem_singleton]
    refine ⟨hpast, ?_⟩
    rintro rfl
    rcases reach_of_run (reach_init hbase hput hget) hrun hpast with ⟨tr', b, hmoves, hseen, hreach⟩
    rcases hreach with hsound | hhung
    . -- What is on offer has been accepted, so that it is not too long.
      have hoffered := (Exchange.Run.delivered_sublist hmoves rfl).1
      rw [hseen] at hoffered
      rcases ring_step_cases hstep with ⟨call, shm, put, rfl, hput, _⟩ | ⟨shm, get, rfl, hget, _⟩
      . rcases hsound.put call with ⟨_, _, _, hput'⟩ | ⟨_, _, e', hput', hne, _⟩
        . rw [hput] at hput'
          cases hput'
        . rw [hput] at hput'
          cases hput'
          exact absurd rfl hne
      . rcases hsound.get with ⟨_, _, e', hget', hiff, _⟩
        rw [hget] at hget'
        cases hget'
        rcases (hiff.mp rfl).2 with ⟨x, rest, hhead, hlong⟩
        have := hshort x.2 (hoffered.subset (by simp [hhead]))
        omega
    . exact (stuck_iff (.inr hhung)).mpr hhung

end VhostUser
