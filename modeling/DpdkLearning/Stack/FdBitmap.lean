import DpdkLearning.Lib.Machine
import DpdkLearning.Stack.Lemmas.FdTable
import Mathlib.Data.Finset.Basic
import Mathlib.Order.Bounds.Basic

/-!
This module contains that the bitmap of descriptors is an allocator that gives out the least descriptor
that is free, over any run of calls that take descriptors and release them.
-/

open Lib

namespace NgStack

inductive FdCall where
  | get
  | set (fd : Nat)

/--
The bitmap under its two calls. A step yields what the call returns.
-/
def fdMachine : Machine FdTable FdCall Int Empty where
  step fdTable
    | .get => .ok ((getFdFrombitmap fdTable).2, (getFdFrombitmap fdTable).1)
    | .set fd => .ok (setFdFrombitmap fdTable fd, if maxFdCount ≤ fd then -1 else 0)

abbrev FdStep := Edge FdTable FdCall Int

abbrev FdRun := Machine.Run fdMachine

def allocatedAfter (allocated : Finset Int) (e : FdStep) : Finset Int :=
  match e.act with
  | .get => if e.out = -1 then allocated else insert e.out allocated
  | .set fd => allocated.erase fd

/--
The descriptors that were returned and not released since.
-/
def allocatedBy (tr : List FdStep) : Finset Int :=
  tr.foldl allocatedAfter ∅

def freeFds (allocated : Finset Int) : Set Int :=
  { fd | defaultFdNum ≤ fd ∧ fd < maxFdCount ∧ fd ∉ allocated }

/--
What the calls promise, given the descriptors that are allocated: the least free one is given out, a release
leaves the state of all others alone, and one that is out of range leaves the whole table alone.
-/
structure FdServed (allocated : Finset Int) (e : FdStep) : Prop where
  least : e.act = .get → e.out ≠ -1 → IsLeast (freeFds allocated) e.out
  full : e.act = .get → (e.out = -1 ↔ freeFds allocated = ∅)
  apart : ∀ fd, e.act = .set fd → ∀ other, other ≠ fd → (fdUsed e.post other ↔ fdUsed e.pre other)
  beyond : ∀ fd, e.act = .set fd → maxFdCount ≤ fd → e.post = e.pre

/--
The bits that are set are those of the allocated descriptors.
-/
def FdsHeld (allocated : Finset Int) (fdTable : FdTable) : Prop :=
  ∀ fd : Nat, defaultFdNum ≤ fd → fd < maxFdCount → (fdUsed fdTable fd ↔ (fd : Int) ∈ allocated)

theorem allocatedBy_append (tr : List FdStep) (e : FdStep)
    : allocatedBy (tr ++ [e]) = allocatedAfter (allocatedBy tr) e := by
  simp [allocatedBy]

theorem mem_freeFds_iff {allocated : Finset Int} {fdTable : FdTable} (h : FdsHeld allocated fdTable)
    (fd : Int)
    : fd ∈ freeFds allocated
        ↔ ∃ n : Nat, fd = n ∧ defaultFdNum ≤ n ∧ n < maxFdCount ∧ ¬fdUsed fdTable n := by
  constructor
  . rintro ⟨hlo, hhi, hfree⟩
    obtain ⟨n, rfl⟩ := Int.eq_ofNat_of_zero_le (by omega : 0 ≤ fd)
    have hlo : defaultFdNum ≤ n := by omega
    have hhi : n < maxFdCount := by omega
    exact ⟨n, rfl, hlo, hhi, fun hused => hfree ((h n hlo hhi).mp hused)⟩
  . rintro ⟨n, rfl, hlo, hhi, hfree⟩
    exact ⟨by omega, by omega, fun hmem => hfree ((h n hlo hhi).mpr hmem)⟩

namespace FdsHeld

variable {allocated : Finset Int} {fdTable : FdTable}

theorem get (h : FdsHeld allocated fdTable) {fd : Int} {fdTable' : FdTable}
    (hget : getFdFrombitmap fdTable = (fd, fdTable'))
    : (fd ≠ -1 → IsLeast (freeFds allocated) fd)
      ∧ (fd = -1 ↔ freeFds allocated = ∅)
      ∧ FdsHeld (if fd = -1 then allocated else insert fd allocated) fdTable' := by
  have hscanned := fdScanned_getFdFrombitmap fdTable
  rw [hget] at hscanned
  cases hscanned with
  | full hused =>
    have hnone : freeFds allocated = ∅ := by
      apply Set.eq_empty_of_forall_notMem
      intro e he
      rcases (mem_freeFds_iff h e).mp he with ⟨n, _, hlo, hhi, hfree⟩
      exact hfree (hused n hlo hhi)
    refine ⟨fun hne => absurd rfl hne, by simp [hnone], ?_⟩
    rw [if_pos rfl]
    exact h
  | @taken n hlo hhi hfree hleast =>
    have hne : (n : Int) ≠ -1 := by omega
    have hmem : (n : Int) ∈ freeFds allocated := (mem_freeFds_iff h n).mpr ⟨n, rfl, hlo, hhi, hfree⟩
    refine ⟨?_, ?_, ?_⟩
    . intro _
      refine ⟨hmem, ?_⟩
      intro e he
      rcases (mem_freeFds_iff h e).mp he with ⟨k, rfl, hk, _, hkfree⟩
      by_contra hlt
      exact hkfree (hleast k hk (by omega))
    . constructor
      . intro heq
        contradiction
      . intro hnone
        rw [hnone] at hmem
        contradiction
    . intro e hle hlt
      rw [if_neg hne, fdUsed_set fdTable n e, h e hle hlt, Finset.mem_insert, Int.natCast_inj, or_comm]

theorem set (h : FdsHeld allocated fdTable) (fd : Nat)
    : FdsHeld (allocated.erase fd) (setFdFrombitmap fdTable fd) := by
  intro e hle hlt
  rw [Finset.mem_erase, ne_eq, Int.natCast_inj, ← h e hle hlt]
  by_cases hfd : fd < maxFdCount
  . rw [fdUsed_setFdFrombitmap fdTable hfd, and_comm]
  . have hne : e ≠ fd := by omega
    simp [setFdFrombitmap_ge fdTable (Nat.le_of_not_lt hfd), hne]

end FdsHeld

theorem fdsHeld_of_step {allocated : Finset Int} {fdTable : FdTable} {call : FdCall} {fd : Int}
    {fdTable' : FdTable} (h : FdsHeld allocated fdTable)
    (hstep : fdMachine.step fdTable call = .ok (fdTable', fd))
    : FdsHeld (allocatedAfter allocated ⟨fdTable, call, fd, fdTable'⟩) fdTable' := by
  cases call with
  | get =>
    cases hstep
    exact (h.get rfl).2.2
  | set fd =>
    cases hstep
    exact h.set fd

theorem fdServed_of_step {allocated : Finset Int} {fdTable : FdTable} {call : FdCall} {fd : Int}
    {fdTable' : FdTable} (h : FdsHeld allocated fdTable)
    (hstep : fdMachine.step fdTable call = .ok (fdTable', fd))
    : FdServed allocated ⟨fdTable, call, fd, fdTable'⟩ := by
  cases call with
  | get =>
    cases hstep
    refine ⟨fun _ => (h.get rfl).1, fun _ => (h.get rfl).2.1, ?_, ?_⟩
    . intro fd hset
      contradiction
    . intro fd hset
      contradiction
  | set fd =>
    cases hstep
    refine ⟨?_, ?_, ?_, ?_⟩
    . intro hget
      contradiction
    . intro hget
      contradiction
    . rintro _ ⟨⟩ other hne
      by_cases hfd : fd < maxFdCount
      . simp [fdUsed_setFdFrombitmap fdTable hfd, hne]
      . simp [setFdFrombitmap_ge fdTable (Nat.le_of_not_lt hfd)]
    . rintro _ ⟨⟩ hfd
      exact setFdFrombitmap_ge fdTable hfd

theorem fdsHeld_of_run {tr : List FdStep} {fdTable : FdTable} (h : FdRun Stack.init.fdTable tr fdTable)
    : FdsHeld (allocatedBy tr) fdTable := by
  apply h.history (P := fun tr fdTable => FdsHeld (allocatedBy tr) fdTable)
  . intro fd _ _
    simp [allocatedBy, not_fdUsed_init]
  . intro tr t a o u _ hheld hstep
    rw [allocatedBy_append]
    exact fdsHeld_of_step hheld hstep

/--
Whatever descriptors are taken and released, in any order and any number of times, each call on the bitmap
does what it promises.
-/
theorem fdBitmap_served (calls : List FdCall)
    : ∃ tr fdTable, FdRun Stack.init.fdTable tr fdTable ∧ tr.map Edge.act = calls
      ∧ ∀ past e rest, tr = past ++ e :: rest → FdServed (allocatedBy past) e := by
  have htotal : ∀ fdTable call, ∃ fdTable' out, fdMachine.step fdTable call = .ok (fdTable', out) := by
    intro fdTable call
    cases call with
    | get => exact ⟨_, _, rfl⟩
    | set fd => exact ⟨_, _, rfl⟩
  rcases Machine.exists_run_of_total htotal Stack.init.fdTable calls with ⟨tr, fdTable, hrun, hacts⟩
  refine ⟨tr, fdTable, hrun, hacts, ?_⟩
  rintro past e rest rfl
  rcases hrun.at_edge with ⟨hpast, hstep, _⟩
  exact fdServed_of_step (fdsHeld_of_run hpast) hstep

end NgStack
