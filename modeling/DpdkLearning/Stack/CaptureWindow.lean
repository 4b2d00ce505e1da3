import DpdkLearning.Lib.Circular
import DpdkLearning.Lib.Machine
import DpdkLearning.Stack.CountBit
import Mathlib.Algebra.Order.BigOperators.Group.List

/-!
This module contains the capture window of the detector: over any run it holds the values of the last
packets, and each detection is about exactly these.
-/

open Lib

namespace NgStack

def ddosMachine : Machine DdosState DdosPkt (Option DdosDetection) Halt where
  step := ddosDetect

abbrev DdosStep := Edge DdosState DdosPkt (Option DdosDetection)

abbrev DdosRun := Machine.Run ddosMachine

/--
The last packets, as many as the window has room for.
-/
def window (pkts : List DdosPkt) : List DdosPkt :=
  pkts.drop (pkts.length - captureWindows)

def DdosPkt.counts (pkt : DdosPkt) : UInt32 × UInt32 :=
  (pkt.setBits, pkt.totBits)

namespace DdosState

def slot (s : DdosState) (i : Nat) : UInt32 × UInt32 :=
  (s.pSetbits i, s.pTotbits i)

/--
The slots hold the values of the packets in the window, each of them once, and otherwise the zeros they began
with. The index is below twice their number.
-/
structure Captures (s : DdosState) (pkts : List DdosPkt) : Prop where
  slots : ((List.range captureWindows).map s.slot).Perm
    ((window pkts).map DdosPkt.counts ++ List.replicate (captureWindows - pkts.length) (0, 0))
  index : s.pktIdx < 2 * captureWindows

/--
Slots and index as they are written, one packet after the other.
-/
structure Filled (s : DdosState) (pkts : List DdosPkt) : Prop where
  circular : Circular s.slot captureWindows 0 (pkts.map DdosPkt.counts)
  unused : ∀ i, pkts.length ≤ i → i < captureWindows → s.slot i = (0, 0)
  index : s.pktIdx
    = if pkts.length < captureWindows then
        pkts.length
      else
        pkts.length % captureWindows + captureWindows

end DdosState

/--
The totals are the sums over the packets, as they are without the bounds of 32 bits.
-/
structure DdosDetection.Sums (d : DdosDetection) (pkts : List DdosPkt) : Prop where
  set : d.totalSet.toNat = (pkts.map (fun pkt => pkt.setBits.toNat)).sum
  tot : d.totalBit.toNat = (pkts.map (fun pkt => pkt.totBits.toNat)).sum

/--
There is a detection for the packets after the first that fill the window, and it is about the window with the
packet at hand.
-/
structure Detects (past : List DdosPkt) (e : DdosStep) : Prop where
  runs : e.out.isSome ↔ captureWindows ≤ past.length
  sums : ∀ d, e.out = some d → d.Sums (window (past ++ [e.act]))

theorem toNat_setBits_le (pkt : DdosPkt) : pkt.setBits.toNat ≤ 2 ^ 20 := by
  have hle := toNat_countBit_le pkt.mem pkt.msg pkt.bufLen.toUInt32
  have hlt := pkt.bufLen.toNat_lt
  rw [UInt16.toNat_toUInt32] at hle
  rw [DdosPkt.setBits]
  omega

theorem toNat_totBits_le (pkt : DdosPkt) : pkt.totBits.toNat ≤ 2 ^ 20 := by
  have hlt := pkt.bufLen.toNat_lt
  have h8 : (8 : UInt32).toNat = 8 := rfl
  rw [DdosPkt.totBits, UInt32.toNat_mul, UInt16.toNat_toUInt32, h8]
  omega

theorem length_window_le (pkts : List DdosPkt) : (window pkts).length ≤ captureWindows := by
  rw [window, List.length_drop]
  omega

theorem toNat_foldl_add {α : Type} (f : α → UInt32) (l : List α) (total : UInt32)
    (h : total.toNat + (l.map (fun x => (f x).toNat)).sum < 2 ^ 32)
    : (l.foldl (fun total x => total + f x) total).toNat
        = total.toNat + (l.map (fun x => (f x).toNat)).sum := by
  induction l generalizing total with
  | nil => rfl
  | cons x l ih =>
    rw [List.map_cons, List.sum_cons] at h
    have hadd : (total + f x).toNat = total.toNat + (f x).toNat := by
      rw [UInt32.toNat_add, Nat.mod_eq_of_lt (by omega)]
    rw [List.foldl_cons, ih (total + f x) (by omega), hadd, List.map_cons, List.sum_cons, Nat.add_assoc]

theorem sum_lt_of_le {α : Type} (f : α → Nat) {l : List α} (hlen : l.length ≤ captureWindows)
    (hle : ∀ x, f x ≤ 2 ^ 20) : (l.map f).sum < 2 ^ 32 := by
  have hsum := List.sum_le_card_nsmul (l.map f) (2 ^ 20) (by simpa using fun x _ => hle x)
  rw [List.length_map, Nat.nsmul_eq_mul] at hsum
  have hmul : l.length * 2 ^ 20 ≤ captureWindows * 2 ^ 20 := Nat.mul_le_mul_right _ hlen
  have hroom : captureWindows * 2 ^ 20 < 2 ^ 32 := by decide
  omega

namespace DdosState

variable {s : DdosState} {pkts : List DdosPkt} {pkt : DdosPkt}

theorem filled_init : init.Filled [] where
  circular := .nil
  unused := fun _ _ _ => rfl
  index := rfl

namespace Filled

theorem mod_index (h : s.Filled pkts) : s.pktIdx % captureWindows = pkts.length % captureWindows := by
  rw [h.index]
  split
  . rfl
  . rw [Nat.add_mod_right, Nat.mod_mod]

theorem slots (h : s.Filled pkts)
    : ((List.range captureWindows).map s.slot).Perm
        ((window pkts).map DdosPkt.counts ++ List.replicate (captureWindows - pkts.length) (0, 0)) := by
  by_cases hfull : captureWindows ≤ pkts.length
  . have hperm := h.circular.perm (by simpa using hfull)
    rw [List.length_map, ← List.map_drop, ← window] at hperm
    rw [Nat.sub_eq_zero_of_le hfull, List.replicate_zero, List.append_nil]
    exact hperm
  . have hmap := h.circular.map_range (x := (0, 0)) (by simp; omega) (by simpa using h.unused)
    have hall : window pkts = pkts := by
      rw [window, Nat.sub_eq_zero_of_le (Nat.le_of_not_le hfull), List.drop_zero]
    rw [hmap, hall, List.length_map]

theorem captures (h : s.Filled pkts) : s.Captures pkts where
  slots := h.slots
  index := by
    have hmod : pkts.length % captureWindows < captureWindows := Nat.mod_lt _ (by decide)
    rw [h.index]
    split <;> omega

theorem record (h : s.Filled pkts) (pkt : DdosPkt)
    : Circular (s.record pkt).slot captureWindows 0 ((pkts ++ [pkt]).map DdosPkt.counts)
      ∧ ∀ i, pkts.length + 1 ≤ i → i < captureWindows → (s.record pkt).slot i = (0, 0) := by
  have hslot : ∀ i, (s.record pkt).slot i
      = if i = pkts.length % captureWindows then pkt.counts else s.slot i := by
    intro i
    simp only [slot, DdosState.record, h.mod_index, Function.update_apply]
    split <;> rfl
  constructor
  . rw [List.map_append]
    apply h.circular.push
    . rw [hslot, List.length_map, Nat.zero_add, if_pos rfl]
    . intro i hi
      rw [List.length_map, Nat.zero_add] at hi
      rw [hslot, if_neg hi]
  . intro i hlo hhi
    rw [hslot, if_neg, h.unused i (by omega) hhi]
    rw [Nat.mod_eq_of_lt (by omega)]
    omega

end Filled

theorem detection_sums (h : Circular s.slot captureWindows 0 (pkts.map DdosPkt.counts))
    (hfull : captureWindows ≤ pkts.length) : s.detection.Sums (window pkts) := by
  have hperm := h.perm (by simpa using hfull)
  rw [List.length_map, ← List.map_drop, ← window] at hperm
  have hset : ((List.range captureWindows).map (fun i => (s.pSetbits i).toNat)).sum
      = ((window pkts).map (fun pkt => pkt.setBits.toNat)).sum := by
    have hsum := (hperm.map (fun c => c.1.toNat)).sum_eq
    simpa only [List.map_map, Function.comp_def, slot, DdosPkt.counts] using hsum
  have htot : ((List.range captureWindows).map (fun i => (s.pTotbits i).toNat)).sum
      = ((window pkts).map (fun pkt => pkt.totBits.toNat)).sum := by
    have hsum := (hperm.map (fun c => c.2.toNat)).sum_eq
    simpa only [List.map_map, Function.comp_def, slot, DdosPkt.counts] using hsum
  have hsetlt := sum_lt_of_le (fun pkt => pkt.setBits.toNat) (length_window_le pkts) toNat_setBits_le
  have htotlt := sum_lt_of_le (fun pkt => pkt.totBits.toNat) (length_window_le pkts) toNat_totBits_le
  constructor
  . rw [← hset] at hsetlt ⊢
    rw [detection, toNat_foldl_add s.pSetbits _ 0 (by simpa using hsetlt), UInt32.toNat_zero, Nat.zero_add]
  . rw [← htot] at htotlt ⊢
    rw [detection, toNat_foldl_add s.pTotbits _ 0 (by simpa using htotlt), UInt32.toNat_zero, Nat.zero_add]

end DdosState

/-- What one packet does: the window takes it in, and the detection runs as it should. -/
theorem ddosDetect_step {s s' : DdosState} {pkts : List DdosPkt} {pkt : DdosPkt} {out : Option DdosDetection}
    (h : s.Filled pkts) (hstep : ddosDetect s pkt = .ok (s', out))
    : s'.Filled (pkts ++ [pkt]) ∧ (out.isSome ↔ captureWindows ≤ pkts.length)
      ∧ ∀ d, out = some d → d.Sums (window (pkts ++ [pkt])) := by
  rcases h.record pkt with ⟨hcircular, hunused⟩
  have hindex : (s.record pkt).pktIdx = s.pktIdx := rfl
  unfold ddosDetect at hstep
  dsimp only at hstep
  rw [hindex, h.index] at hstep
  by_cases hfull : captureWindows ≤ pkts.length
  . rw [if_neg (Nat.not_lt.mpr hfull), if_pos (Nat.le_add_left _ _)] at hstep
    split at hstep
    . contradiction
    . cases hstep
      refine ⟨⟨hcircular, ?_, ?_⟩, by simp [hfull], ?_⟩
      . intro i hlo hhi
        rw [List.length_append, List.length_singleton] at hlo
        omega
      . rw [List.length_append, List.length_singleton, if_neg (by omega)]
        unfold captureWindows
        dsimp only
        omega
      . rintro d ⟨⟩
        apply DdosState.detection_sums hcircular
        rw [List.length_append]
        omega
  . rw [if_pos (Nat.lt_of_not_le hfull), if_neg hfull] at hstep
    cases hstep
    refine ⟨⟨hcircular, ?_, ?_⟩, by simp [hfull], by simp⟩
    . intro i hlo hhi
      rw [List.length_append, List.length_singleton] at hlo
      exact hunused i hlo hhi
    . rw [List.length_append, List.length_singleton]
      unfold captureWindows at hfull ⊢
      dsimp only
      split <;> omega

theorem filled_of_run {tr : List DdosStep} {s : DdosState} (h : DdosRun .init tr s)
    : s.Filled (tr.map Edge.act) := by
  apply h.history (P := fun tr s => s.Filled (tr.map Edge.act))
  . exact DdosState.filled_init
  . intro tr t a o u _ hfilled hstep
    rw [List.map_append]
    exact (ddosDetect_step hfilled hstep).1

/--
Whatever packets come, as long as none triggers the exit: the window holds the values of the last of them, and
each packet after those that fill it has the window with it examined.
-/
theorem captureWindow_exact {tr : List DdosStep} {s : DdosState} (h : DdosRun .init tr s)
    : s.Captures (tr.map Edge.act)
      ∧ ∀ past e rest, tr = past ++ e :: rest → Detects (past.map Edge.act) e := by
  refine ⟨(filled_of_run h).captures, ?_⟩
  rintro past e rest rfl
  rcases h.at_edge with ⟨hpast, hstep, _⟩
  have hstepped := (ddosDetect_step (filled_of_run hpast) hstep).2
  exact ⟨hstepped.1, hstepped.2⟩

/-- A packet with all bits set, and one with none. -/
theorem captureWindow_exact_two
    : ∃ tr s, DdosRun .init tr s ∧ tr.map Edge.act = [⟨fun _ => 255, 0, 2176⟩, ⟨fun _ => 0, 0, 2176⟩]
      ∧ s.Captures [⟨fun _ => 255, 0, 2176⟩, ⟨fun _ => 0, 0, 2176⟩] := by
  have hcheck : ddosMachine.check .init [⟨fun _ => 255, 0, 2176⟩, ⟨fun _ => 0, 0, 2176⟩] (fun _ _ => true)
      = true := by
    rfl
  rcases Machine.exists_run_of_check hcheck with ⟨tr, s, hrun, hacts, _⟩
  refine ⟨tr, s, hrun, hacts, ?_⟩
  rw [← hacts]
  exact (captureWindow_exact hrun).1

end NgStack
