import DpdkLearning.Vring.History

/-!
This module contains the proof that `get_ring` hands out what `put_ring` has accepted, once and in order, as
long as it does not take the flag of a full lap for a full ring.
-/

open Lib

namespace VirtioTest

variable {π : Type} {n : Nat} {tr : List (Step π)} {v v' : Vring π} {act : Act π} {out : Out π}

/--
What has been delivered is a prefix of what has been accepted.
-/
def Delivers (tr : List (Step π)) : Prop :=
  delivered tr <+: (acceptedPkts tr).map some

theorem History.delivers (h : History n tr v) : Delivers tr := by
  unfold Delivers
  rw [h.contents]
  exact (List.take_prefix _ _).map some

theorem length_getRingLoop {i k : Nat} {pkts : List (Option π)} {hs : List Nat}
    (h : v.getRingLoop i k = .ok (pkts, hs, v')) : pkts.length = k := by
  induction k generalizing i v pkts hs v' with
  | zero =>
    simp only [Vring.getRingLoop, Except.ok.injEq, Prod.mk.injEq] at h
    rw [← h.1]
    rfl
  | succ k ih =>
    unfold Vring.getRingLoop at h
    dsimp only at h
    split at h
    . split at h
      . contradiction
      . next hloop =>
        simp only [Except.ok.injEq, Prod.mk.injEq] at h
        rw [← h.1, List.length_cons, ih hloop]
    . contradiction

theorem getRing_flagged (h : v.getRing = .ok (v', out)) (hflag : v.loopFlag = true)
    (hfree : v.freeNum < v.ringSize) : out.accepted = [] ∧ (out.pkts.getD []).length = v.ringSize := by
  unfold Vring.getRing at h
  rw [if_pos hfree, hflag] at h
  dsimp only at h
  split at h
  . contradiction
  . next hloop =>
    cases h
    exact ⟨rfl, length_getRingLoop hloop⟩

theorem not_delivers_of_flagged (h : History n tr v) (hread : v.readable act = false)
    (hstep : (machine π).step v act = .ok (v', out)) : ¬Delivers (tr ++ [⟨v, act, out, v'⟩]) := by
  have hsound := h.sound
  have hnum := hsound.freeNum_eq
  have hfetched := hsound.fetchedLe
  have hfreed := hsound.freedLe
  cases act with
  | putRing pkt => contradiction
  | freeUsedIndex => contradiction
  | getRing =>
    change v.getRing = .ok (v', out) at hstep
    simp only [Vring.readable, Bool.or_eq_false_iff, Bool.not_eq_false', decide_eq_false_iff_not] at hread
    rcases hread with ⟨hflag, hpartial⟩
    have hpending := hsound.flagged hflag
    rw [hsound.availIdx, hsound.ringSize] at hpartial
    rcases getRing_flagged hstep hflag (by rw [hsound.ringSize]; omega) with ⟨haccepted, hlen⟩
    intro hpre
    have hle := hpre.length_le
    rw [delivered_append, acceptedPkts_append, h.contents] at hle
    dsimp only [putPkts] at hle
    rw [List.append_nil, List.length_append, hlen, List.length_map, List.length_map, List.length_take,
      hsound.length, hsound.ringSize] at hle
    omega

/--
A ring delivers all along a run exactly when every fetch that finds its flag set finds all descriptors
pending.
-/
theorem delivers_iff (hn : 0 < n) (h : Run (.new n) tr v)
    : (∀ tr' v', tr' <+: tr → Run (.new n) tr' v' → Delivers tr')
        ↔ ∀ e ∈ tr, e.pre.readable e.act = true := by
  refine Machine.Run.forall_prefix_iff_past_guard (P := fun tr _ => Delivers tr)
    (C := fun v act => v.readable act = true) h (List.nil_prefix) ?_
  intro tr v act out v' hrun hpast _ hstep
  have hhistory : History n tr v :=
    hrun.history_of_guard (P := History n) (history_new hn) hpast (fun _ hP hread hs => hP.step hread hs)
  constructor
  . intro hdelivers
    cases hread : v.readable act with
    | true => rfl
    | false => exact absurd hdelivers (not_delivers_of_flagged hhistory hread hstep)
  . intro hread
    exact (hhistory.step hread hstep).delivers

/-- A ring of ten that is filled up and read, a part of it twice. -/
theorem delivers_iff_lap
    : 0 < 10 ∧ ∃ tr v, Run (.new 10 : Vring Nat) tr v ∧ (acceptedPkts tr).length = 25
        ∧ ∀ tr' v', tr' <+: tr → Run (.new 10) tr' v' → Delivers tr' := by
  have hcheck : (machine Nat).check (.new 10)
      ((List.range 10).map .putRing ++ [.getRing, .freeUsedIndex]
        ++ (List.range 5).map .putRing ++ [.getRing, .freeUsedIndex]
        ++ (List.range 10).map .putRing ++ [.getRing])
      (fun tr _ => decide ((acceptedPkts tr).length = 25)
        && tr.all (fun e => e.pre.readable e.act)) = true := by
    decide +kernel
  rcases Machine.exists_run_of_check hcheck with ⟨tr, v, hrun, _, htest⟩
  rw [Bool.and_eq_true, decide_eq_true_eq, List.all_eq_true] at htest
  exact ⟨by decide, tr, v, hrun, htest.1, (delivers_iff (by decide) hrun).mpr htest.2⟩

/-- A fetch between the two calls of a producer step leaves nine descriptors used, and the put of the step
takes the last one. The next fetch hands the nine out again. -/
theorem not_delivers : ∃ tr v, Run (.new 10 : Vring Nat) tr v ∧ ¬Delivers tr := by
  have hcheck : (machine Nat).check (.new 10)
      ((List.range 9).flatMap (fun pkt => [.freeUsedIndex, .putRing pkt])
        ++ [.freeUsedIndex, .getRing, .putRing 9, .getRing])
      (fun tr _ => decide (¬delivered tr <+: (acceptedPkts tr).map some)) = true := by
    decide +kernel
  rcases Machine.exists_run_of_check hcheck with ⟨tr, v, hrun, _, htest⟩
  rw [decide_eq_true_eq] at htest
  exact ⟨tr, v, hrun, htest⟩

end VirtioTest
