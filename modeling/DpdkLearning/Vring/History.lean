import DpdkLearning.Vring.Sound

/-!
This module contains what has gone through the ring over a run.
-/

open Lib

namespace VirtioTest

variable {π : Type} {n : Nat} {tr : List (Step π)} {v v' : Vring π} {act : Act π} {out : Out π}

/--
The packet of a put that was accepted.
-/
def putPkts (e : Step π) : List π :=
  match e.act with
  | .putRing pkt => e.out.accepted.map (fun _ => pkt)
  | _ => []

/--
The packets that `put_ring` has accepted, and the descriptors they were put into.
-/
def acceptedPkts (tr : List (Step π)) : List π :=
  tr.flatMap putPkts

def accepted (tr : List (Step π)) : List Nat :=
  tr.flatMap (fun e => e.out.accepted)

/--
The packets that `get_ring` has returned, and their descriptors.
-/
def delivered (tr : List (Step π)) : List (Option π) :=
  tr.flatMap (fun e => e.out.pkts.getD [])

def fetched (tr : List (Step π)) : List Nat :=
  tr.flatMap (fun e => e.out.fetched)

/--
The descriptors that `free_used_index` has reclaimed.
-/
def detached (tr : List (Step π)) : List Nat :=
  tr.flatMap (fun e => e.out.detached)

/--
Everything that has come out of the ring went in, in the same order.
-/
structure History (n : Nat) (tr : List (Step π)) (v : Vring π) : Prop where
  sound : Sound n (accepted tr) (acceptedPkts tr) (detached tr).length v
  inOrder : fetched tr = (accepted tr).take v.lastAvailIdx
  reclaimed : detached tr = (accepted tr).take (detached tr).length
  contents : delivered tr = ((acceptedPkts tr).take v.lastAvailIdx).map some

/--
A fetch from a ring whose flag is set finds all descriptors in it.
-/
def Vring.readable (v : Vring π) : Act π → Bool
  | .getRing => !v.loopFlag || decide (v.availIdx = v.lastAvailIdx + v.ringSize)
  | _ => true

theorem history_new (h : 0 < n) : History n ([] : List (Step π)) (.new n) :=
  ⟨sound_new h, rfl, rfl, rfl⟩

section Append

variable (tr : List (Step π)) (e : Step π)

theorem acceptedPkts_append : acceptedPkts (tr ++ [e]) = acceptedPkts tr ++ putPkts e := by
  simp [acceptedPkts]

theorem accepted_append : accepted (tr ++ [e]) = accepted tr ++ e.out.accepted := by
  simp [accepted]

theorem delivered_append : delivered (tr ++ [e]) = delivered tr ++ e.out.pkts.getD [] := by
  simp [delivered]

theorem fetched_append : fetched (tr ++ [e]) = fetched tr ++ e.out.fetched := by
  simp [fetched]

theorem detached_append : detached (tr ++ [e]) = detached tr ++ e.out.detached := by
  simp [detached]

end Append

theorem History.quiet (h : History n tr v) {e : Step π} (hout : e.out = .quiet)
    : History n (tr ++ [e]) v := by
  have hputs : putPkts e = [] := by
    unfold putPkts
    split
    . rw [hout]
      rfl
    . rfl
  constructor
  . rw [accepted_append, acceptedPkts_append, detached_append, hputs, hout]
    simpa [Out.quiet] using h.sound
  . rw [accepted_append, fetched_append, hout]
    simpa [Out.quiet] using h.inOrder
  . rw [accepted_append, detached_append, hout]
    simpa [Out.quiet] using h.reclaimed
  . rw [acceptedPkts_append, delivered_append, hputs, hout]
    simpa [Out.quiet] using h.contents

theorem History.put {pkt : π} (h : History n tr v)
    (hstep : (machine π).step v (.putRing pkt) = .ok (v', out))
    : History n (tr ++ [⟨v, .putRing pkt, out, v'⟩]) v' := by
  have hsound := h.sound
  have hfetchedLe := hsound.fetchedLe
  have hfreedLe := hsound.freedLe
  change v.putRing pkt = .ok (v', out) at hstep
  rcases putRing_sound hsound pkt with ⟨_, hput⟩ | ⟨hfree, hflag, hafter, hput⟩
  . rw [hput] at hstep
    cases hstep
    exact h.quiet rfl
  . rw [hput] at hstep
    cases hstep
    constructor
    . rw [accepted_append, acceptedPkts_append, detached_append]
      simpa [Out.quiet, putPkts] using hafter
    . rw [accepted_append, fetched_append]
      change fetched tr ++ [] = (accepted tr ++ [v.freeHead]).take v.lastAvailIdx
      rw [List.append_nil, List.take_append_of_le_length hfetchedLe]
      exact h.inOrder
    . rw [accepted_append, detached_append]
      change detached tr ++ [] = (accepted tr ++ [v.freeHead]).take (detached tr ++ []).length
      rw [List.append_nil, List.take_append_of_le_length (by omega)]
      exact h.reclaimed
    . rw [acceptedPkts_append, delivered_append]
      change delivered tr ++ [] = ((acceptedPkts tr ++ [pkt]).take v.lastAvailIdx).map some
      rw [List.append_nil, List.take_append_of_le_length (by rw [hsound.length]; exact hfetchedLe)]
      exact h.contents

theorem History.get (h : History n tr v) (hread : v.readable (.getRing : Act π) = true)
    (hstep : (machine π).step v .getRing = .ok (v', out)) : History n (tr ++ [⟨v, .getRing, out, v'⟩]) v' := by
  have hsound := h.sound
  change v.getRing = .ok (v', out) at hstep
  have hfull : v.loopFlag = true → (accepted tr).length = v.lastAvailIdx + n := by
    intro hflag
    simp only [Vring.readable, hflag, Bool.not_true, Bool.false_or, decide_eq_true_eq] at hread
    rw [← hsound.availIdx, hread, hsound.ringSize]
  rcases getRing_sound hsound hfull
    with ⟨v1, out1, hget, haccepted, hdetached, hfetched, hpkts, hlast, _, hafter⟩
  rw [hstep] at hget
  cases hget
  constructor
  . rw [accepted_append, acceptedPkts_append, detached_append]
    dsimp only
    rw [haccepted, hdetached]
    simpa [putPkts] using hafter
  . rw [accepted_append, fetched_append]
    dsimp only
    rw [haccepted, hfetched, hlast, h.inOrder, List.append_nil, List.take_append_drop, List.take_length]
  . rw [accepted_append, detached_append]
    dsimp only
    rw [haccepted, hdetached, List.append_nil, List.append_nil]
    exact h.reclaimed
  . rw [acceptedPkts_append, delivered_append]
    dsimp only [putPkts]
    rw [hpkts, h.contents, ← List.map_append, List.take_append_drop, List.append_nil, hlast,
      ← hsound.length, List.take_length]

theorem History.free (h : History n tr v) (hstep : (machine π).step v .freeUsedIndex = .ok (v', out))
    : History n (tr ++ [⟨v, .freeUsedIndex, out, v'⟩]) v' := by
  have hsound := h.sound
  have hfetchedLe := hsound.fetchedLe
  have hfreedLe := hsound.freedLe
  change v.freeUsedIndex = .ok (v', out) at hstep
  rcases freeUsedIndex_sound hsound
    with ⟨v1, out1, hfree, haccepted, hfetched, hpkts, hdetached, hlast, _, hafter⟩
  rw [hstep] at hfree
  cases hfree
  -- With what is reclaimed now, all that was fetched has been reclaimed.
  have hall : detached tr ++ ((accepted tr).take v.lastAvailIdx).drop (detached tr).length
      = (accepted tr).take v.lastAvailIdx := by
    have hpast : detached tr = ((accepted tr).take v.lastAvailIdx).take (detached tr).length := by
      rw [List.take_take, Nat.min_eq_left hfreedLe, ← h.reclaimed]
    calc
      _ = ((accepted tr).take v.lastAvailIdx).take (detached tr).length
            ++ ((accepted tr).take v.lastAvailIdx).drop (detached tr).length := by rw [← hpast]
      _ = _ := List.take_append_drop _ _
  constructor
  . rw [accepted_append, acceptedPkts_append, detached_append]
    dsimp only [putPkts]
    rw [haccepted, hdetached, hall, List.append_nil, List.append_nil, List.length_take,
      Nat.min_eq_left hfetchedLe]
    exact hafter
  . rw [accepted_append, fetched_append]
    dsimp only
    rw [haccepted, hfetched, hlast, List.append_nil, List.append_nil]
    exact h.inOrder
  . rw [accepted_append, detached_append]
    dsimp only
    rw [haccepted, hdetached, hall, List.append_nil, List.length_take, Nat.min_eq_left hfetchedLe]
  . rw [acceptedPkts_append, delivered_append]
    dsimp only [putPkts]
    rw [hpkts, hlast, List.append_nil]
    simpa using h.contents

/-- A step keeps the history of a ring in order. -/
theorem History.step (h : History n tr v) (hread : v.readable act = true)
    (hstep : (machine π).step v act = .ok (v', out)) : History n (tr ++ [⟨v, act, out, v'⟩]) v' := by
  cases act with
  | putRing pkt => exact h.put hstep
  | getRing => exact h.get hread hstep
  | freeUsedIndex => exact h.free hstep

end VirtioTest
