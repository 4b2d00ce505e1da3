import Mathlib.Data.List.Nodup
import Mathlib.Logic.Function.Basic

/-!
This module contains assignments to single places of a function, one after the other.
-/

namespace Lib

variable {α β ι : Type} [DecidableEq α]

def assign (m : α → β) (l : List (α × β)) : α → β :=
  l.foldl (fun m p => Function.update m p.1 p.2) m

variable {m : α → β} {l l' : List (α × β)} {a : α} {b : β}

theorem assign_cons {p : α × β} : assign m (p :: l) = assign (Function.update m p.1 p.2) l := rfl

theorem assign_append : assign m (l ++ l') = assign (assign m l) l' :=
  List.foldl_append

theorem assign_apart (h : a ∉ l.map Prod.fst) : assign m l a = m a := by
  induction l generalizing m with
  | nil => rfl
  | cons p l ih =>
    rw [List.map_cons, List.mem_cons, not_or] at h
    rw [assign_cons, ih h.2, Function.update_of_ne h.1]

theorem assign_congr {m' : α → β} (h : m a = m' a) : assign m l a = assign m' l a := by
  induction l generalizing m m' with
  | nil => exact h
  | cons p l ih =>
    rw [assign_cons, assign_cons]
    apply ih
    by_cases hp : a = p.1
    . subst hp
      rw [Function.update_self, Function.update_self]
    . rwa [Function.update_of_ne hp, Function.update_of_ne hp]

/-- What is assigned to a place once is there. -/
theorem assign_of_mem (hnodup : (l.map Prod.fst).Nodup) (h : (a, b) ∈ l) : assign m l a = b := by
  induction l generalizing m with
  | nil => contradiction
  | cons p l ih =>
    rw [List.map_cons, List.nodup_cons] at hnodup
    rw [assign_cons]
    rcases List.mem_cons.mp h with rfl | h
    . rw [assign_apart hnodup.1, Function.update_self]
    . exact ih hnodup.2 h

/-- A place has what it had or what was assigned to it. -/
theorem eq_or_mem_of_assign (m : α → β) (l : List (α × β)) (a : α)
    : assign m l a = m a ∨ (a, assign m l a) ∈ l := by
  induction l generalizing m with
  | nil => exact .inl rfl
  | cons p l ih =>
    rw [assign_cons]
    rcases ih (Function.update m p.1 p.2) with h | h
    . by_cases hp : a = p.1
      . subst hp
        rw [h, Function.update_self]
        exact .inr List.mem_cons_self
      . rw [h, Function.update_of_ne hp]
        exact .inl rfl
    . exact .inr (List.mem_cons_of_mem p h)

/-- Only one of several lists assigns to a place. -/
theorem assign_flatMap {is : List ι} {f : ι → List (α × β)} {i : ι} (hnodup : is.Nodup) (hi : i ∈ is)
    (h : ∀ j ∈ is, j ≠ i → a ∉ (f j).map Prod.fst) : assign m (is.flatMap f) a = assign m (f i) a := by
  rcases List.append_of_mem hi with ⟨is1, is2, rfl⟩
  rw [List.nodup_middle, List.nodup_cons, List.mem_append, not_or] at hnodup
  have hapart : ∀ js : List ι, (∀ j ∈ js, j ∈ is1 ++ i :: is2 ∧ j ≠ i)
      → a ∉ (js.flatMap f).map Prod.fst := by
    intro js hjs ha
    rw [List.map_flatMap, List.mem_flatMap] at ha
    rcases ha with ⟨j, hj, ha⟩
    exact h j (hjs j hj).1 (hjs j hj).2 ha
  have hfirst : a ∉ (is1.flatMap f).map Prod.fst := by
    apply hapart
    intro j hj
    exact ⟨by simp [hj], by rintro rfl; exact hnodup.1.1 hj⟩
  have hlast : a ∉ (is2.flatMap f).map Prod.fst := by
    apply hapart
    intro j hj
    exact ⟨by simp [hj], by rintro rfl; exact hnodup.1.2 hj⟩
  rw [List.flatMap_append, List.flatMap_cons, assign_append, assign_append, assign_apart hlast]
  exact assign_congr (assign_apart hfirst)

end Lib
