import DpdkLearning.Vring.History

/-!
This module contains the proof that the turns of `produce` and `consume` neither lose a descriptor nor have
it in two places.
-/

open Lib

namespace VirtioTest

variable {π : Type} {n : Nat} {tr : List (Step π)} {v v' : Vring π} {act : Act π} {out : Out π}

/--
The avail entries that are not fetched yet.
-/
def Vring.unfetched (v : Vring π) : List Nat :=
  (List.range (v.availIdx - v.lastAvailIdx)).map
    (fun i => v.availRing ((v.lastAvailIdx + i) % v.ringSize))

/--
The next `count` used entries to reclaim.
-/
def Vring.unreclaimed (v : Vring π) (count : Nat) : List Nat :=
  (List.range count).map (fun i => v.usedRing ((v.lastUsedIndex + i) % v.ringSize))

/--
How many entries have been used and not been reclaimed.
-/
def outstanding (tr : List (Step π)) : Nat :=
  (fetched tr).length - (detached tr).length

def Act.reclaims : Act π → Bool
  | .freeUsedIndex => true
  | _ => false

def Act.puts : Act π → Bool
  | .putRing _ => true
  | _ => false

/--
Every descriptor is in one place, and each reclaim gets all that there is to reclaim.
-/
structure Conserves (n : Nat) (tr : List (Step π)) (v : Vring π) : Prop where
  places : (v.freeList ++ v.unfetched ++ v.unreclaimed (outstanding tr)).Perm (List.range n)
  reclaims : ∀ tr1 e tr2, tr = tr1 ++ e :: tr2 → e.act.reclaims = true
    → e.out.detached = e.pre.unreclaimed (outstanding tr1)

inductive Turn (π : Type) where
  | produce (pkt : π)
  | consume

/--
The calls in the loops of `produce` and `consume`.
-/
def Turn.acts : Turn π → List (Act π)
  | .produce pkt => [.freeUsedIndex, .putRing pkt]
  | .consume => [.getRing]

/--
The run ends with a call of `free_used_index`.
-/
def justReclaimed (tr : List (Step π)) : Bool :=
  tr.getLast?.any (fun e => e.act.reclaims)

/--
What the turns keep: the flag is only set on a ring that is all pending.
-/
structure Paced (n : Nat) (tr : List (Step π)) (v : Vring π) : Prop where
  history : History n tr v
  full : v.loopFlag = true → v.availIdx = v.lastAvailIdx + v.ringSize
  caughtUp : justReclaimed tr = true → (detached tr).length = v.lastAvailIdx

section Places

variable {heads : List Nat} {pkts : List π} {freed : Nat}

theorem Sound.unfetched_eq (h : Sound n heads pkts freed v) : v.unfetched = heads.drop v.lastAvailIdx := by
  have hnum := h.freeNum_eq
  have hfetched := h.fetchedLe
  have hfreed := h.freedLe
  have hread := h.avail.read (c := v.lastAvailIdx) (m := heads.length - v.lastAvailIdx)
    (by omega) (by omega)
  simp only [Nat.zero_add] at hread
  rw [Vring.unfetched, h.ringSize, h.availIdx, hread, List.take_of_length_le]
  rw [List.length_drop]

theorem Sound.unreclaimed_eq (h : Sound n heads pkts freed v)
    : v.unreclaimed (v.lastAvailIdx - freed) = (heads.take v.lastAvailIdx).drop freed := by
  have hnum := h.freeNum_eq
  have hfetched := h.fetchedLe
  have hfreed := h.freedLe
  have hlen : (heads.take v.lastAvailIdx).length = v.lastAvailIdx := by
    rw [List.length_take, Nat.min_eq_left hfetched]
  have hread := h.used.read (c := freed) (m := v.lastAvailIdx - freed) (by omega) (by omega)
  simp only [Nat.zero_add] at hread
  rw [Vring.unreclaimed, h.ringSize, h.lastUsed]
  simp only [Nat.mod_add_mod]
  rw [hread, List.take_of_length_le]
  rw [List.length_drop, hlen]

theorem Sound.partition (h : Sound n heads pkts freed v)
    : (v.freeList ++ v.unfetched ++ v.unreclaimed (v.lastAvailIdx - freed)).Perm (List.range n) := by
  refine .trans ?_ h.places
  rw [h.unfetched_eq, h.unreclaimed_eq, h.split, List.append_assoc]
  exact List.perm_append_comm.append_left _

end Places

theorem History.outstanding_eq (h : History n tr v)
    : outstanding tr = v.lastAvailIdx - (detached tr).length := by
  rw [outstanding, h.inOrder, List.length_take, Nat.min_eq_left h.sound.fetchedLe]

theorem History.places (h : History n tr v)
    : (v.freeList ++ v.unfetched ++ v.unreclaimed (outstanding tr)).Perm (List.range n) := by
  rw [h.outstanding_eq]
  exact h.sound.partition

/-- A reclaim gets back what is outstanding. -/
theorem History.reclaims (h : History n tr v) (hact : act.reclaims = true)
    (hstep : (machine π).step v act = .ok (v', out)) : out.detached = v.unreclaimed (outstanding tr) := by
  cases act with
  | putRing pkt => contradiction
  | getRing => contradiction
  | freeUsedIndex =>
    change v.freeUsedIndex = .ok (v', out) at hstep
    rcases freeUsedIndex_sound h.sound with ⟨v1, out1, hfree, _, _, _, hdetached, _⟩
    rw [hstep] at hfree
    cases hfree
    rw [hdetached, h.outstanding_eq, h.sound.unreclaimed_eq]

namespace Paced

theorem readable (h : Paced n tr v) (act : Act π) : v.readable act = true := by
  cases act with
  | putRing pkt => rfl
  | freeUsedIndex => rfl
  | getRing =>
    unfold Vring.readable
    cases hflag : v.loopFlag with
    | false => rfl
    | true => simp [h.full hflag]

theorem exists_step (h : Paced n tr v) (act : Act π) : ∃ v' out, (machine π).step v act = .ok (v', out) := by
  have hsound := h.history.sound
  cases act with
  | putRing pkt =>
    rcases putRing_sound hsound pkt with ⟨_, hput⟩ | ⟨_, _, _, hput⟩
    . exact ⟨_, _, hput⟩
    . exact ⟨_, _, hput⟩
  | getRing =>
    have hfull : v.loopFlag = true → (accepted tr).length = v.lastAvailIdx + n := by
      intro hflag
      rw [← hsound.availIdx, h.full hflag, hsound.ringSize]
    rcases getRing_sound hsound hfull with ⟨v', out, hget, _⟩
    exact ⟨v', out, hget⟩
  | freeUsedIndex =>
    rcases freeUsedIndex_sound hsound with ⟨v', out, hfree, _⟩
    exact ⟨v', out, hfree⟩

/-- A put after a reclaim sets the flag only if all descriptors are pending. -/
theorem step (h : Paced n tr v) (hpace : act.puts = true → justReclaimed tr = true)
    (hstep : (machine π).step v act = .ok (v', out)) : Paced n (tr ++ [⟨v, act, out, v'⟩]) v' := by
  have hhistory := h.history.step (h.readable act) hstep
  have hsound := h.history.sound
  have hnum := hsound.freeNum_eq
  cases act with
  | putRing pkt =>
    change v.putRing pkt = .ok (v', out) at hstep
    refine ⟨hhistory, ?_, by simp [justReclaimed, Act.reclaims]⟩
    have hfetched := hsound.fetchedLe
    -- Right after a reclaim, everything fetched is free again.
    have hcaught := h.caughtUp (hpace rfl)
    rcases putRing_sound hsound pkt with ⟨_, hput⟩ | ⟨hfree, _, _, hput⟩
    . rw [hput] at hstep
      cases hstep
      exact h.full
    . rw [hput] at hstep
      cases hstep
      intro hflag
      have hlast : v.freeNum - 1 = 0 := of_decide_eq_true hflag
      change v.availIdx + 1 = v.lastAvailIdx + v.ringSize
      rw [hsound.availIdx, hsound.ringSize]
      omega
  | getRing =>
    change v.getRing = .ok (v', out) at hstep
    refine ⟨hhistory, ?_, by simp [justReclaimed, Act.reclaims]⟩
    have hfull : v.loopFlag = true → (accepted tr).length = v.lastAvailIdx + n := by
      intro hflag
      rw [← hsound.availIdx, h.full hflag, hsound.ringSize]
    rcases getRing_sound hsound hfull with ⟨v1, out1, hget, _, _, _, _, _, hflag, _⟩
    rw [hstep] at hget
    cases hget
    rw [hflag]
    intro hflag
    contradiction
  | freeUsedIndex =>
    change v.freeUsedIndex = .ok (v', out) at hstep
    rcases freeUsedIndex_sound hsound
      with ⟨v1, out1, hfree, haccepted, _, _, hdetached, hlast, hflag, hafter⟩
    rw [hstep] at hfree
    cases hfree
    refine ⟨hhistory, ?_, ?_⟩
    . rw [hflag, hlast, hafter.availIdx, hafter.ringSize, ← hsound.availIdx, ← hsound.ringSize]
      exact h.full
    . intro _
      have hfreed := hsound.freedLe
      rw [detached_append, List.length_append, hlast]
      dsimp only
      rw [hdetached, hsound.length_used]
      omega

end Paced

theorem any_getLast_cons {α : Type} {p : α → Bool} {a : α} {as : List α} (h : as.getLast?.any p = true)
    : (a :: as).getLast?.any p = true := by
  cases hlast : as.getLast? with
  | none => simp [hlast] at h
  | some b =>
    rw [hlast] at h
    rw [List.getLast?_cons, hlast]
    exact h

theorem concat_prefix_cons {α : Type} {as bs : List α} {a b : α} (h : as ++ [a] <+: b :: bs)
    : as = [] ∧ a = b ∨ ∃ as', as = b :: as' ∧ as' ++ [a] <+: bs := by
  cases as with
  | nil =>
    rw [List.nil_append, List.cons_prefix_cons] at h
    exact .inl ⟨rfl, h.1⟩
  | cons c as =>
    rw [List.cons_append, List.cons_prefix_cons] at h
    rcases h with ⟨rfl, h⟩
    exact .inr ⟨as, rfl, h⟩

theorem reclaims_before_put {turns : List (Turn π)} {as : List (Act π)} (hact : act.puts = true)
    (h : as ++ [act] <+: turns.flatMap Turn.acts) : as.getLast?.any Act.reclaims = true := by
  induction turns generalizing as with
  | nil =>
    rw [List.flatMap_nil, List.prefix_nil] at h
    simp at h
  | cons turn turns ih =>
    rw [List.flatMap_cons] at h
    cases turn with
    | consume =>
      change as ++ [act] <+: .getRing :: turns.flatMap Turn.acts at h
      rcases concat_prefix_cons h with ⟨_, rfl⟩ | ⟨as, rfl, hrest⟩
      . contradiction
      . exact any_getLast_cons (ih hrest)
    | produce pkt =>
      change as ++ [act] <+: .freeUsedIndex :: .putRing pkt :: turns.flatMap Turn.acts at h
      rcases concat_prefix_cons h with ⟨_, rfl⟩ | ⟨as, rfl, hput⟩
      . contradiction
      . rcases concat_prefix_cons hput with ⟨rfl, _⟩ | ⟨as, rfl, hrest⟩
        . rfl
        . exact any_getLast_cons (any_getLast_cons (ih hrest))

theorem paced_of_run (hn : 0 < n) {turns : List (Turn π)} (h : Run (.new n) tr v)
    (hacts : tr.map Edge.act <+: turns.flatMap Turn.acts) : Paced n tr v := by
  refine h.history_of_past_guard (P := Paced n)
    (C := fun tr1 e => e.act.puts = true → justReclaimed tr1 = true) ⟨history_new hn, ?_, ?_⟩ ?_ ?_
  . intro hflag
    contradiction
  . intro hlast
    contradiction
  . rintro tr1 e tr2 rfl hact
    have hpast : tr1.map Edge.act ++ [e.act] <+: turns.flatMap Turn.acts := by
      rw [List.map_append, List.map_cons, List.append_cons] at hacts
      exact (List.prefix_append _ _).trans hacts
    have hlast := reclaims_before_put hact hpast
    rwa [List.getLast?_map, Option.any_map] at hlast
  . intro tr v act out v' _ hP hpace hstep
    exact hP.step hpace hstep

/--
Any number of turns of the producer and the consumer, in any order, runs through. All along it conserves the
descriptors.
-/
theorem turns_conserve (hn : 0 < n) (turns : List (Turn π))
    : (∃ tr v, Run (.new n) tr v ∧ tr.map Edge.act = turns.flatMap Turn.acts)
        ∧ ∀ tr v, Run (.new n) tr v → tr.map Edge.act <+: turns.flatMap Turn.acts → Conserves n tr v := by
  constructor
  -- The ring that the calls so far leave tells that the next one comes back.
  . have hpre : ∀ as, as <+: turns.flatMap Turn.acts
        → ∃ tr v, Run (.new n) tr v ∧ tr.map Edge.act = as := by
      intro as has
      induction as using List.reverseRecOn with
      | nil => exact ⟨[], _, .nil, rfl⟩
      | append_singleton as act ih =>
        have hpast : as <+: turns.flatMap Turn.acts := (List.prefix_append as [act]).trans has
        rcases ih hpast with ⟨tr, v, hrun, hacts⟩
        rw [← hacts] at hpast
        rcases (paced_of_run hn hrun hpast).exists_step act with ⟨v', out, hstep⟩
        refine ⟨_, v', .snoc hrun hstep, ?_⟩
        rw [List.map_append, hacts]
        rfl
    exact hpre _ (List.prefix_refl _)
  . intro tr v h hacts
    constructor
    . exact (paced_of_run hn h hacts).history.places
    . rintro tr1 e tr2 rfl hact
      rcases h.at_edge with ⟨h1, hstep, _⟩
      rw [List.map_append] at hacts
      exact (paced_of_run hn h1 ((List.prefix_append _ _).trans hacts)).history.reclaims hact hstep

/-- A producer that has a whole lap read, and starts over. -/
theorem turns_conserve_lap
    : 0 < 10 ∧ ∃ tr v, Run (.new 10 : Vring Nat) tr v ∧ (detached tr).length = 10 ∧ Conserves 10 tr v := by
  let turns : List (Turn Nat) := (List.range 10).map .produce ++ [.consume, .produce 10]
  have hcheck : (machine Nat).check (.new 10) (turns.flatMap Turn.acts)
      (fun tr _ => decide ((detached tr).length = 10)) = true := by
    decide +kernel
  rcases Machine.exists_run_of_check hcheck with ⟨tr, v, hrun, hacts, htest⟩
  rw [decide_eq_true_eq] at htest
  have hall : tr.map Edge.act <+: turns.flatMap Turn.acts := ⟨[], by rw [List.append_nil, hacts]⟩
  exact ⟨by decide, tr, v, hrun, htest, (turns_conserve (by decide) turns).2 tr v hrun hall⟩

end VirtioTest
