import Mathlib.Algebra.Group.Nat.Defs
import Mathlib.Data.List.Nodup

/-!
This module contains runs of consecutive 64-bit addresses, which go on at `0` behind the last address.
-/

namespace Lib

def addrRun (a : UInt64) (n : Nat) : List UInt64 :=
  (List.range n).map (fun i => a + i.toUInt64)

variable {a b base size : UInt64} {i n : Nat}

@[simp]
theorem length_addrRun (a : UInt64) (n : Nat) : (addrRun a n).length = n := by
  simp [addrRun]

theorem getElem_addrRun (h : i < (addrRun a n).length) : (addrRun a n)[i] = a + i.toUInt64 := by
  simp [addrRun]

theorem toNat_add_toUInt64 (a : UInt64) (i : Nat) : (a + i.toUInt64).toNat = (a.toNat + i) % 2 ^ 64 := by
  rw [UInt64.toNat_add]
  change (a.toNat + i % 2 ^ 64) % 2 ^ 64 = _
  omega

theorem add_toUInt64_add (a : UInt64) (i j : Nat) : a + i.toUInt64 + j.toUInt64 = a + (i + j).toUInt64 := by
  rw [← UInt64.toNat_inj]
  simp only [toNat_add_toUInt64]
  omega

theorem add_toUInt64_sub (a b : UInt64) : a + (b - a).toNat.toUInt64 = b := by
  rw [← UInt64.toNat_inj, toNat_add_toUInt64, UInt64.toNat_sub]
  have := a.toNat_lt
  have := b.toNat_lt
  omega

theorem addrRun_add (a : UInt64) (m n : Nat)
    : addrRun a (m + n) = addrRun a m ++ addrRun (a + m.toUInt64) n := by
  simp only [addrRun, List.range_add, List.map_append, List.map_map, Function.comp_def, add_toUInt64_add]

/-- What is how far from the start of a run. -/
theorem mem_addrRun (hn : n ≤ 2 ^ 64) : b ∈ addrRun a n ↔ (b - a).toNat < n := by
  simp only [addrRun, List.mem_map, List.mem_range]
  constructor
  . rintro ⟨i, hi, rfl⟩
    have := toNat_add_toUInt64 a i
    rw [UInt64.toNat_sub, this]
    have := a.toNat_lt
    omega
  . intro h
    exact ⟨(b - a).toNat, h, add_toUInt64_sub a b⟩

/-- A run lies behind a base within a size exactly when its last address does. -/
theorem addrRun_within (hn : 0 < n)
    : (∀ b ∈ addrRun a n, b - base < size) ↔ (a - base).toNat + n ≤ size.toNat := by
  have hoffset : ∀ i : Nat, (a + i.toUInt64 - base).toNat = ((a - base).toNat + i) % 2 ^ 64 := by
    intro i
    rw [UInt64.toNat_sub, toNat_add_toUInt64, UInt64.toNat_sub]
    have := base.toNat_lt
    omega
  have hsize := size.toNat_lt
  simp only [addrRun, List.forall_mem_map, List.mem_range, UInt64.lt_iff_toNat_lt, hoffset]
  constructor
  . intro h
    by_cases hwrap : (a - base).toNat + n ≤ 2 ^ 64
    . have := h (n - 1) (by omega)
      omega
    . have := h (2 ^ 64 - 1 - (a - base).toNat) (by omega)
      have := (a - base).toNat_lt
      omega
  . intro h i hi
    omega

/-- A run has the address `0` exactly when it starts there or goes on behind the last address. -/
theorem zero_notMem_addrRun (hn : 0 < n) : 0 ∉ addrRun a n ↔ a ≠ 0 ∧ a.toNat + n ≤ 2 ^ 64 := by
  have hzero : ∀ i : Nat, a + i.toUInt64 = 0 ↔ (a.toNat + i) % 2 ^ 64 = 0 := by
    intro i
    rw [← UInt64.toNat_inj, toNat_add_toUInt64]
    rfl
  have hlt := a.toNat_lt
  simp only [addrRun, List.mem_map, List.mem_range, hzero, ne_eq, ← UInt64.toNat_inj]
  change _ ↔ a.toNat ≠ 0 ∧ _
  constructor
  . intro h
    refine ⟨?_, ?_⟩
    . intro h0
      exact h ⟨0, hn, by omega⟩
    . by_contra hwrap
      exact h ⟨2 ^ 64 - a.toNat, by omega, by omega⟩
  . rintro ⟨h0, hwrap⟩ ⟨i, hi, hi0⟩
    omega

theorem nodup_addrRun (hn : n ≤ 2 ^ 64) : (addrRun a n).Nodup := by
  apply List.Nodup.map_on ?_ List.nodup_range
  intro i hi j hj h
  rw [List.mem_range] at hi hj
  rw [← UInt64.toNat_inj, toNat_add_toUInt64, toNat_add_toUInt64] at h
  omega

end Lib
