import Mathlib.Data.Finset.Max
import Mathlib.Data.List.Count
import Mathlib.Data.List.Nodup

/-!
This module contains distributions over slots that are fair: no slot is taken more than once more often than
another.
-/

namespace Lib

/--
The slots that were taken, out of `n`, in a list with one entry for each time.
-/
structure Fair (n : Nat) (taken : List Nat) : Prop where
  lt : ∀ i ∈ taken, i < n
  count_le : ∀ i < n, ∀ j < n, taken.count i ≤ taken.count j + 1

namespace Fair

variable {n : Nat} {taken : List Nat}

theorem of_nodup (hlt : ∀ i ∈ taken, i < n) (hnodup : taken.Nodup) : Fair n taken where
  lt := hlt
  count_le := by
    intro i _ j _
    have hle := List.nodup_iff_count_le_one.mp hnodup i
    omega

/-- Where a slot was not taken at all, none was taken twice. -/
theorem nodup (h : Fair n taken) {j : Nat} (hj : j < n) (hnot : j ∉ taken) : taken.Nodup := by
  rw [List.nodup_iff_count_le_one]
  intro i
  by_cases hi : i ∈ taken
  . have hle := h.count_le i (h.lt i hi) j hj
    rwa [List.count_eq_zero_of_not_mem hnot] at hle
  . rw [List.count_eq_zero_of_not_mem hi]
    exact Nat.zero_le 1

/-- The slot that was taken least often may be taken next. -/
theorem cons (h : Fair n taken) {i : Nat} (hi : i < n) (hleast : ∀ j < n, taken.count i ≤ taken.count j)
    : Fair n (i :: taken) where
  lt := by
    intro j hj
    rcases List.mem_cons.mp hj with rfl | hj
    . exact hi
    . exact h.lt j hj
  count_le := by
    intro j hj k hk
    have hi' := hleast k hk
    have hjk := h.count_le j hj k hk
    rw [List.count_cons, List.count_cons]
    by_cases hji : j = i
    . subst hji
      simp
      split <;> omega
    . simp [Ne.symm hji]
      split <;> omega

/-- Any number of turns can be distributed fairly. -/
theorem exists_fair (hn : 0 < n) (k : Nat) : ∃ taken : List Nat, taken.length = k ∧ Fair n taken := by
  induction k with
  | zero => exact ⟨[], rfl, of_nodup (by simp) .nil⟩
  | succ k ih =>
    rcases ih with ⟨taken, hlen, hfair⟩
    have hne : (Finset.range n).Nonempty := ⟨0, Finset.mem_range.mpr hn⟩
    rcases Finset.exists_min_image (Finset.range n) taken.count hne with ⟨i, hi, hleast⟩
    refine ⟨i :: taken, by rw [List.length_cons, hlen], hfair.cons (Finset.mem_range.mp hi) ?_⟩
    intro j hj
    exact hleast j (Finset.mem_range.mpr hj)

/--
The slots of a list at which it has the given element.
-/
def slotsOf {α : Type} [DecidableEq α] (l : List α) (x : α) : List Nat :=
  (List.range l.length).filter (fun i => l[i]? = some x)

theorem length_slotsOf {α : Type} [DecidableEq α] (l : List α) (x : α) : (slotsOf l x).length = l.count x := by
  have hmap : (List.range l.length).map (fun i => l[i]?) = l.map some := by
    apply List.ext_getElem?
    intro i
    by_cases hi : i < l.length
    . simp [hi]
    . simp [hi]
  rw [slotsOf, ← List.countP_eq_length_filter, ← List.count_map_of_injective l some (Option.some_injective α),
    ← hmap, List.count_eq_countP, List.countP_map]
  apply List.countP_congr
  intro i _
  simp

theorem nodup_slotsOf {α : Type} [DecidableEq α] (l : List α) (x : α) : (slotsOf l x).Nodup :=
  List.Nodup.filter _ List.nodup_range

/-- The same element can be dealt out fairly if there is no other or if it has slots enough. -/
theorem exists_slots_iff {α : Type} [DecidableEq α] {l : List α} {x : α} (h : l ≠ []) (k : Nat)
    : (∃ slots, Fair l.length slots ∧ slots.map (fun i => l[i]?) = List.replicate k (some x))
        ↔ (∀ y ∈ l, y = x) ∨ k ≤ l.count x := by
  constructor
  . rintro ⟨slots, hfair, hslots⟩
    have hat : ∀ i ∈ slots, l[i]? = some x := by
      intro i hi
      exact List.eq_of_mem_replicate (hslots ▸ List.mem_map_of_mem hi)
    by_cases hall : ∀ y ∈ l, y = x
    . exact .inl hall
    -- A slot with another element is never taken, so that the others are taken once.
    right
    push Not at hall
    rcases hall with ⟨y, hy, hne⟩
    rcases List.mem_iff_getElem?.mp hy with ⟨j, hj⟩
    have hnot : j ∉ slots := by
      intro hmem
      have := hat j hmem
      simp_all
    have hnodup := hfair.nodup (List.getElem?_eq_some_iff.mp hj).1 hnot
    have hsub : slots ⊆ slotsOf l x := by
      intro i hi
      rw [slotsOf, List.mem_filter, List.mem_range]
      exact ⟨hfair.lt i hi, by simpa using hat i hi⟩
    have hlen := (List.subperm_of_subset hnodup hsub).length_le
    have hk := congrArg List.length hslots
    rw [List.length_map, List.length_replicate] at hk
    rw [length_slotsOf] at hlen
    omega
  . intro hor
    rcases hor with hall | hle
    . rcases exists_fair (List.length_pos_of_ne_nil h) k with ⟨slots, hlen, hfair⟩
      refine ⟨slots, hfair, List.eq_replicate_iff.mpr ⟨by rw [List.length_map, hlen], ?_⟩⟩
      intro o ho
      rcases List.mem_map.mp ho with ⟨i, hi, rfl⟩
      have hi := hfair.lt i hi
      rw [List.getElem?_eq_getElem hi, hall _ (List.getElem_mem hi)]
    . have hmem : ∀ i ∈ (slotsOf l x).take k, i < l.length ∧ l[i]? = some x := by
        intro i hi
        have := List.mem_of_mem_take hi
        simpa [slotsOf] using this
      have hlen : ((slotsOf l x).take k).length = k := by
        rw [List.length_take, length_slotsOf, Nat.min_eq_left hle]
      refine ⟨(slotsOf l x).take k, of_nodup (fun i hi => (hmem i hi).1) ?_, ?_⟩
      . exact (nodup_slotsOf l x).sublist (List.take_sublist _ _)
      . rw [List.eq_replicate_iff]
        refine ⟨by rw [List.length_map, hlen], ?_⟩
        intro o ho
        rcases List.mem_map.mp ho with ⟨i, hi, rfl⟩
        exact (hmem i hi).2

end Fair

end Lib
