import Mathlib.Data.List.Nodup
import Mathlib.Logic.Function.Basic

/-!
This module contains lists that their members know about: every object that is present carries a flag
that says whether it is in the list, and a counter says how many are.
-/

namespace Lib

/--
The objects with `flag? i = some b` are present, those with `b = true` are the members of `list`.
-/
structure Listed {ι : Type} (flag? : ι → Option Bool) (list : List ι) (count : Int) : Prop where
  count_eq : count = list.length
  nodup : list.Nodup
  flag_iff : ∀ {i b}, flag? i = some b → (b = true ↔ i ∈ list)
  present : ∀ {i}, i ∈ list → (flag? i).isSome

namespace Listed

variable {ι : Type} {flag? : ι → Option Bool} {list : List ι} {count : Int} {i : ι} {b : Bool}

theorem nil_iff : Listed (fun _ : ι => none) [] count ↔ count = 0 := by
  constructor
  . intro h
    simpa using h.count_eq
  . rintro rfl
    exact ⟨rfl, .nil, by simp, by simp⟩

variable [DecidableEq ι]

theorem cons (h : Listed flag? list count) (hi : flag? i = some false)
    : Listed (Function.update flag? i (some true)) (i :: list) (count + 1) := by
  have hnot : i ∉ list := by
    intro hmem
    have := (h.flag_iff hi).mpr hmem
    contradiction
  constructor
  . rw [h.count_eq]
    simp
  . exact List.nodup_cons.mpr ⟨hnot, h.nodup⟩
  . intro j b hj
    by_cases heq : j = i
    . subst heq
      rw [Function.update_self] at hj
      simp [← Option.some.inj hj]
    . rw [Function.update_of_ne heq] at hj
      rw [h.flag_iff hj]
      simp [heq]
  . intro j hj
    by_cases heq : j = i
    . simp [heq]
    . rw [Function.update_of_ne heq]
      exact h.present (List.mem_of_ne_of_mem heq hj)

theorem tail (h : Listed flag? (i :: list) count)
    : Listed (Function.update flag? i (some false)) list (count - 1) := by
  have hnodup := List.nodup_cons.mp h.nodup
  constructor
  . rw [h.count_eq]
    simp
  . exact hnodup.2
  . intro j b hj
    by_cases heq : j = i
    . subst heq
      rw [Function.update_self] at hj
      simp [← Option.some.inj hj, hnodup.1]
    . rw [Function.update_of_ne heq] at hj
      rw [h.flag_iff hj]
      simp [heq]
  . intro j hj
    by_cases heq : j = i
    . simp [heq]
    . rw [Function.update_of_ne heq]
      exact h.present (List.mem_cons_of_mem i hj)

/-- An object that becomes present must not claim to be in the list. -/
theorem add_iff (h : Listed flag? list count) (hi : flag? i = none)
    : Listed (Function.update flag? i (some b)) list count ↔ b = false := by
  have hnot : i ∉ list := by
    intro hmem
    have := h.present hmem
    rw [hi] at this
    contradiction
  constructor
  . intro h'
    have := h'.flag_iff (i := i) (b := b) (by simp)
    cases b with
    | false => rfl
    | true => exact absurd (this.mp rfl) hnot
  . rintro rfl
    refine ⟨h.count_eq, h.nodup, ?_, ?_⟩
    . intro j b hj
      by_cases heq : j = i
      . subst heq
        rw [Function.update_self] at hj
        simp [← Option.some.inj hj, hnot]
      . rw [Function.update_of_ne heq] at hj
        exact h.flag_iff hj
    . intro j hj
      by_cases heq : j = i
      . simp [heq]
      . rw [Function.update_of_ne heq]
        exact h.present hj

/-- An object that goes must not be in the list. -/
theorem remove_iff (h : Listed flag? list count) (hi : flag? i = some b)
    : Listed (Function.update flag? i none) list count ↔ b = false := by
  constructor
  . intro h'
    cases b with
    | false => rfl
    | true =>
      have := h'.present ((h.flag_iff hi).mp rfl)
      simp at this
  . rintro rfl
    have hnot : i ∉ list := by
      intro hmem
      have := (h.flag_iff hi).mpr hmem
      contradiction
    refine ⟨h.count_eq, h.nodup, ?_, ?_⟩
    . intro j b hj
      by_cases heq : j = i
      . simp [heq] at hj
      . rw [Function.update_of_ne heq] at hj
        exact h.flag_iff hj
    . intro j hj
      have heq : j ≠ i := by
        rintro rfl
        exact hnot hj
      rw [Function.update_of_ne heq]
      exact h.present hj

end Listed

end Lib
