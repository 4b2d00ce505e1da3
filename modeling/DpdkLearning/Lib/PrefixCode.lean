import Mathlib.Data.List.Basic

/-!
This module contains codes whose words tell where they end, and that a sequence of such words tells what was
encoded.
-/

namespace Lib

variable {α β : Type}

/--
No word of the code goes on as another one, and none is empty.
-/
structure PrefixCode (enc : α → List β) : Prop where
  split : ∀ a b s t, enc a ++ s = enc b ++ t → a = b ∧ s = t
  ne_nil : ∀ a, enc a ≠ []

namespace PrefixCode

variable {enc : α → List β} {as bs : List α}

theorem flatMap_inj (h : PrefixCode enc) (heq : as.flatMap enc = bs.flatMap enc) : as = bs := by
  induction as generalizing bs with
  | nil =>
    cases bs with
    | nil => rfl
    | cons b bs =>
      rw [List.flatMap_nil, List.flatMap_cons, eq_comm, List.append_eq_nil_iff] at heq
      exact absurd heq.1 (h.ne_nil b)
  | cons a as ih =>
    cases bs with
    | nil =>
      rw [List.flatMap_nil, List.flatMap_cons, List.append_eq_nil_iff] at heq
      exact absurd heq.1 (h.ne_nil a)
    | cons b bs =>
      rw [List.flatMap_cons, List.flatMap_cons] at heq
      rcases h.split a b _ _ heq with ⟨rfl, hrest⟩
      rw [ih hrest]

/-- A word of the code followed by a word of a fixed length. -/
theorem append {γ : Type} {fst : γ → α} {rest : γ → List β} {n : Nat} (h : PrefixCode enc)
    (hlen : ∀ c, (rest c).length = n) (hinj : ∀ c d, fst c = fst d → rest c = rest d → c = d)
    : PrefixCode (fun c => enc (fst c) ++ rest c) where
  split c d s t heq := by
    rw [List.append_assoc, List.append_assoc] at heq
    rcases h.split _ _ _ _ heq with ⟨hfst, hrest⟩
    rcases List.append_inj hrest (by rw [hlen, hlen]) with ⟨hrest, hst⟩
    exact ⟨hinj c d hfst hrest, hst⟩
  ne_nil c := by
    intro hnil
    rw [List.append_eq_nil_iff] at hnil
    exact h.ne_nil _ hnil.1

end PrefixCode

end Lib
