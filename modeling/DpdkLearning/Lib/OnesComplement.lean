import Mathlib.Data.Nat.ModEq

/-!
This module contains sums in ones' complement: carries out of a word are added to it again, until none is
left.
-/

namespace Lib

namespace OnesComplement

/--
The word that is left of a sum of words below `b`.
-/
def fold (b sum : Nat) : Nat :=
  if _h : b ≤ sum ∧ 1 < b then
    fold b (sum % b + sum / b)
  else
    sum
termination_by sum
decreasing_by
  have hdiv := Nat.div_add_mod sum b
  have hpos : 0 < sum / b := Nat.div_pos _h.1 (by omega)
  have hlt : sum / b < b * (sum / b) := (Nat.lt_mul_iff_one_lt_left hpos).mpr _h.2
  omega

variable {b : Nat}

theorem fold_lt (hb : 1 < b) (sum : Nat) : fold b sum < b := by
  fun_induction fold b sum with
  | case1 sum h ih => exact ih
  | case2 sum h => omega

/-- A carry counts as much as what it stands for. -/
theorem fold_modEq (hb : 1 < b) (sum : Nat) : fold b sum ≡ sum [MOD b - 1] := by
  fun_induction fold b sum with
  | case1 sum h ih =>
    refine ih.trans ?_
    have hsplit : sum = sum % b + sum / b + (b - 1) * (sum / b) := by
      have hdiv := Nat.div_add_mod sum b
      have hle : sum / b ≤ b * (sum / b) := Nat.le_mul_of_pos_left _ (by omega)
      rw [Nat.sub_one_mul]
      omega
    conv_rhs => rw [hsplit]
    exact Nat.modEq_add_modulus_mul_iff.mpr (Nat.ModEq.refl _)
  | case2 sum h => exact Nat.ModEq.refl sum

theorem fold_eq_zero_iff (hb : 1 < b) (sum : Nat) : fold b sum = 0 ↔ sum = 0 := by
  fun_induction fold b sum with
  | case1 sum h ih =>
    have hpos : 0 < sum / b := Nat.div_pos h.1 (by omega)
    rw [ih]
    omega
  | case2 sum h => rfl

/-- Of the two zeros, a sum that has the complement of the rest among its words folds to the one with all
bits set. -/
theorem fold_complement (hb : 1 < b) (sum : Nat) : fold b (sum + (b - 1 - fold b sum)) = b - 1 := by
  have hlt := fold_lt hb sum
  have hzero : sum + (b - 1 - fold b sum) ≡ 0 [MOD b - 1] := by
    have hsum : sum + (b - 1 - fold b sum) ≡ fold b sum + (b - 1 - fold b sum) [MOD b - 1] :=
      (fold_modEq hb sum).symm.add_right _
    refine hsum.trans ?_
    rw [Nat.add_sub_cancel' (by omega)]
    exact Nat.modEq_zero_iff_dvd.mpr (dvd_refl _)
  have hdvd : b - 1 ∣ fold b (sum + (b - 1 - fold b sum)) :=
    Nat.modEq_zero_iff_dvd.mp ((fold_modEq hb _).trans hzero)
  have hne : fold b (sum + (b - 1 - fold b sum)) ≠ 0 := by
    rw [ne_eq, fold_eq_zero_iff hb]
    intro hnone
    have hsum : sum = 0 := by omega
    rw [hsum, (fold_eq_zero_iff hb 0).mpr rfl] at hnone
    omega
  have hle := Nat.le_of_dvd (by omega) hdvd
  have hword := fold_lt hb (sum + (b - 1 - fold b sum))
  omega

end OnesComplement

end Lib
