import DpdkLearning.Lib.Machine
import Mathlib.Algebra.Order.Group.Multiset

/-!
This module contains the bookkeeping of what goes through a store: what was there and went in is what
came out and is left, in whatever order.
-/

namespace Lib

variable {σ α ω ε β : Type}

/-- If no step loses or makes up anything, a run does not. -/
theorem Machine.Run.ledger {m : Machine σ α ω ε} {s t : σ} {tr : List (Edge σ α ω)}
    (left : σ → List β) (put out : Edge σ α ω → List β) (h : Run m s tr t)
    (hstep : ∀ e ∈ tr, (left e.pre ++ put e).Perm (out e ++ left e.post))
    : (left s ++ tr.flatMap put).Perm (tr.flatMap out ++ left t) := by
  induction h with
  | nil => simp
  | @snoc tr t u a o h _ ih =>
    have hpast := ih (fun e he => hstep e (List.mem_append_left _ he))
    have hlast := hstep ⟨t, a, o, u⟩ (by simp)
    rw [List.flatMap_append, List.flatMap_append, List.flatMap_singleton, List.flatMap_singleton,
      ← List.append_assoc, List.append_assoc (tr.flatMap out)]
    refine (hpast.append_right _).trans ?_
    rw [List.append_assoc]
    exact hlast.append_left _

/-- What went in has come out or is left exactly when no step has lost anything. -/
theorem Machine.Run.kept_iff {m : Machine σ α ω ε} {s t : σ} {tr : List (Edge σ α ω)}
    (left : σ → List β) (put out lost : Edge σ α ω → List β) (h : Run m s tr t) (h0 : left s = [])
    (hstep : ∀ e ∈ tr, (left e.pre ++ put e).Perm (out e ++ lost e ++ left e.post))
    : (tr.flatMap put).Perm (tr.flatMap out ++ left t) ↔ ∀ e ∈ tr, lost e = [] := by
  have hledger := h.ledger left put (fun e => out e ++ lost e) hstep
  rw [h0, List.nil_append] at hledger
  have hall := hledger.trans ((List.flatMap_append_perm tr out lost).symm.append_right _)
  rw [← List.flatMap_eq_nil_iff]
  constructor
  . intro hkept
    have hlen := hkept.length_eq
    rw [hall.length_eq, List.length_append, List.length_append, List.length_append] at hlen
    rw [← List.length_eq_zero_iff]
    omega
  . intro hnone
    rw [hnone, List.append_nil] at hall
    exact hall

/--
What is put into a store is in it at once, and over the run it has come out or was given up, is in
somebody's hands or still in the store.
-/
structure Kept (put out gone : Edge σ α ω → List β) (held store : σ → List β) (tr : List (Edge σ α ω))
    (t : σ) : Prop where
  stored : ∀ e ∈ tr, put e ≠ [] → store e.post = store e.pre ++ put e
  kept : (tr.flatMap put).Perm (tr.flatMap out ++ tr.flatMap gone ++ (held t ++ store t))

/-- A store that stores what it does not lose has kept all of it exactly when no step has lost anything. -/
theorem Machine.Run.kept_of_step_iff {m : Machine σ α ω ε} {s t : σ} {tr : List (Edge σ α ω)}
    (put out gone lost : Edge σ α ω → List β) (held store : σ → List β) (h : Run m s tr t)
    (h0 : held s ++ store s = [])
    (hstep : ∀ e ∈ tr, (held e.pre ++ store e.pre ++ put e).Perm
      (out e ++ gone e ++ lost e ++ (held e.post ++ store e.post)))
    (hstored : ∀ e ∈ tr, lost e = [] → put e ≠ [] → store e.post = store e.pre ++ put e)
    : Kept put out gone held store tr t ↔ ∀ e ∈ tr, lost e = [] := by
  have hledger := h.kept_iff (fun u => held u ++ store u) put (fun e => out e ++ gone e) lost h0 hstep
  have hsplit := (List.flatMap_append_perm tr out gone).symm.append_right (held t ++ store t)
  constructor
  . intro hkept
    exact hledger.mp (hkept.kept.trans hsplit.symm)
  . intro hnone
    refine ⟨fun e he => hstored e he (hnone e he), ?_⟩
    exact (hledger.mpr hnone).trans hsplit

/-- What went in first has come out exactly when what is left went in later. -/
theorem subperm_iff_of_ledger {first later out left : List β}
    (h : (first ++ later).Perm (out ++ left)) : first.Subperm out ↔ left.Subperm later := by
  rw [← Multiset.coe_eq_coe, ← Multiset.coe_add, ← Multiset.coe_add] at h
  rw [← Multiset.coe_le, ← Multiset.coe_le]
  constructor
  . intro hle
    rw [Multiset.le_iff_exists_add] at hle ⊢
    rcases hle with ⟨rest, hout⟩
    refine ⟨rest, ?_⟩
    rw [hout, add_assoc, add_left_cancel_iff] at h
    rw [h, add_comm]
  . intro hle
    rw [Multiset.le_iff_exists_add] at hle ⊢
    rcases hle with ⟨rest, hlater⟩
    refine ⟨rest, ?_⟩
    rw [hlater, add_comm (out : Multiset β), add_left_comm, add_left_cancel_iff] at h
    exact h.symm

end Lib
