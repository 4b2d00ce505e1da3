import Mathlib.Logic.Function.Basic

/-!
This module contains the ownership of numbered resources: which object owns which resource, and a
record of the resources in use that is kept apart from the objects.
-/

namespace Lib

/--
No resource has two owners, and the record shows exactly the resources that have one.
-/
structure Owned {ι δ : Type} (owns : ι → Option δ) (used : δ → Prop) : Prop where
  unique : ∀ {i j d}, owns i = some d → owns j = some d → i = j
  used_iff : ∀ {d}, used d ↔ ∃ i, owns i = some d

namespace Owned

variable {ι δ : Type} {owns : ι → Option δ} {used used' : δ → Prop} {i : ι} {d : δ}

theorem congr (h : Owned owns used) (hused : ∀ e, used' e ↔ used e) : Owned owns used' := by
  constructor
  . exact h.unique
  . intro e
    rw [hused, h.used_iff]

theorem not_of_free (hi : owns i = some d) (hd : ¬used d) : ¬Owned owns used := by
  intro h
  exact hd (h.used_iff.mpr ⟨i, hi⟩)

theorem not_of_unowned (hd : used d) (hi : ∀ i, owns i ≠ some d) : ¬Owned owns used := by
  intro h
  rcases h.used_iff.mp hd with ⟨i, hi'⟩
  exact hi i hi'

theorem ne_of_free (h : Owned owns used) (hd : ¬used d) (j : ι) : owns j ≠ some d := by
  intro hj
  exact hd (h.used_iff.mpr ⟨j, hj⟩)

variable [DecidableEq ι]

/-- A free resource goes to an object that owns none. -/
theorem take (h : Owned owns used) (hi : owns i = none) (hd : ¬used d)
    (hused : ∀ e, used' e ↔ used e ∨ e = d) : Owned (Function.update owns i (some d)) used' := by
  have hfree := h.ne_of_free hd
  constructor
  -- Nothing that is free has an owner, so `d` has no other one.
  . intro j k e hj hk
    by_cases hji : j = i
    . subst hji
      rw [Function.update_self, Option.some.injEq] at hj
      subst hj
      by_cases hki : k = j
      . exact hki.symm
      . rw [Function.update_of_ne hki] at hk
        exact absurd hk (hfree k)
    . rw [Function.update_of_ne hji] at hj
      by_cases hki : k = i
      . subst hki
        rw [Function.update_self, Option.some.injEq] at hk
        subst hk
        exact absurd hj (hfree j)
      . rw [Function.update_of_ne hki] at hk
        exact h.unique hj hk
  . intro e
    rw [hused, h.used_iff]
    constructor
    . rintro (⟨j, hj⟩ | rfl)
      . have hne : j ≠ i := by
          rintro rfl
          rw [hi] at hj
          contradiction
        exact ⟨j, by rw [Function.update_of_ne hne, hj]⟩
      . exact ⟨i, by rw [Function.update_self]⟩
    . rintro ⟨j, hj⟩
      by_cases hji : j = i
      . subst hji
        rw [Function.update_self, Option.some.injEq] at hj
        exact .inr hj.symm
      . rw [Function.update_of_ne hji] at hj
        exact .inl ⟨j, hj⟩

/-- An object goes and its resource becomes free with it. -/
theorem drop (h : Owned owns used) (hi : owns i = some d)
    (hused : ∀ e, used' e ↔ used e ∧ e ≠ d) : Owned (Function.update owns i none) used' := by
  constructor
  . intro j k e hj hk
    by_cases hji : j = i
    . simp [hji] at hj
    . by_cases hki : k = i
      . simp [hki] at hk
      . rw [Function.update_of_ne hji] at hj
        rw [Function.update_of_ne hki] at hk
        exact h.unique hj hk
  . intro e
    rw [hused, h.used_iff]
    constructor
    . rintro ⟨⟨j, hj⟩, hne⟩
      have hji : j ≠ i := by
        rintro rfl
        rw [hi, Option.some.injEq] at hj
        exact hne hj.symm
      exact ⟨j, by rw [Function.update_of_ne hji, hj]⟩
    . rintro ⟨j, hj⟩
      by_cases hji : j = i
      . simp [hji] at hj
      . rw [Function.update_of_ne hji] at hj
        refine ⟨⟨j, hj⟩, ?_⟩
        rintro rfl
        exact hji (h.unique hj hi)

/-- An owner that goes without a word leaves its resource in use. -/
theorem not_of_lost (h : Owned owns used) (hi : owns i = some d) (o : Option δ) (ho : o ≠ some d)
    (hd : used' d) : ¬Owned (Function.update owns i o) used' := by
  apply not_of_unowned hd
  intro j hj
  by_cases hji : j = i
  . subst hji
    rw [Function.update_self] at hj
    exact ho hj
  . rw [Function.update_of_ne hji] at hj
    exact hji (h.unique hj hi)

end Owned

end Lib
