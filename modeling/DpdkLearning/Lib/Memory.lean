import Mathlib.Data.List.GetD

/-!
This module contains memory as a function from addresses to bytes, with bytes and little-endian words
stored into it and loaded from it.
-/

namespace Lib

abbrev Memory := Nat → UInt8

namespace Memory

def store (m : Memory) (off : Nat) (bytes : List UInt8) : Memory :=
  fun i => if off ≤ i ∧ i < off + bytes.length then bytes.getD (i - off) 0 else m i

def load (m : Memory) (off n : Nat) : List UInt8 :=
  (List.range n).map (fun i => m (off + i))

variable {m : Memory} {off p n : Nat} {bytes : List UInt8}

@[simp]
theorem length_load : (m.load off n).length = n := by
  simp [load]

theorem store_apart (h : p < off ∨ off + bytes.length ≤ p) : m.store off bytes p = m p := by
  rw [store, if_neg (by omega)]

theorem store_apply (h : n < bytes.length) : m.store off bytes (off + n) = bytes[n] := by
  rw [store, if_pos (by omega), Nat.add_sub_cancel_left, List.getD_eq_getElem _ _ h]

@[simp]
theorem store_singleton (b : UInt8) : m.store off [b] off = b := by
  simp [store]

theorem load_congr {m' : Memory} (h : ∀ i, p ≤ i → i < p + n → m i = m' i) : m.load p n = m'.load p n := by
  apply List.map_congr_left
  intro i hi
  rw [List.mem_range] at hi
  apply h <;> omega

theorem load_add {p n k : Nat} : m.load p (n + k) = m.load p n ++ m.load (p + n) k := by
  simp only [load, List.range_add, List.map_append, List.map_map, Function.comp_def, Nat.add_assoc]

/-- A load sees nothing of a store beside it. -/
theorem load_store_apart (h : p + n ≤ off ∨ off + bytes.length ≤ p)
    : (m.store off bytes).load p n = m.load p n := by
  apply load_congr
  intro i hi1 hi2
  apply store_apart
  omega

/-- A load from where something was stored gets it back. -/
theorem load_store (h : bytes.length = n) : (m.store off bytes).load off n = bytes := by
  subst h
  apply List.ext_getElem
  . simp
  . intro i hi1 hi2
    simp only [load, List.getElem_map, List.getElem_range]
    rw [store_apply hi2]

/-- A load from inside of what was stored gets that part of it back. -/
theorem load_store_inside {k : Nat} (h : k + n ≤ bytes.length)
    : (m.store off bytes).load (off + k) n = (bytes.drop k).take n := by
  apply List.ext_getElem
  . simp
    omega
  . intro i hi1 hi2
    rw [length_load] at hi1
    simp only [load, List.getElem_map, List.getElem_range, List.getElem_take, List.getElem_drop]
    rw [Nat.add_assoc, store_apply (by omega)]

/-- A part of what was loaded is what is loaded from there. -/
theorem take_drop_load {k j : Nat} (h : k + j ≤ n) : ((m.load off n).drop k).take j = m.load (off + k) j := by
  apply List.ext_getElem
  . simp
    omega
  . intro i _ _
    simp [load, Nat.add_assoc]

/-- What was copied from another memory is there. -/
theorem store_load_eq {m' : Memory} {i : Nat} (h1 : off ≤ i) (h2 : i < off + n)
    : m.store off (m'.load off n) i = m' i := by
  have hat : m.store off (m'.load off n) (off + (i - off)) = _ := store_apply (by simp; omega)
  rw [Nat.add_sub_cancel' h1] at hat
  rw [hat]
  simp [load, Nat.add_sub_cancel' h1]

def ofUInt16 (v : UInt16) : List UInt8 :=
  [v.toUInt8, (v >>> 8).toUInt8]

def toUInt16 (bytes : List UInt8) : UInt16 :=
  (bytes.getD 0 0).toUInt16 ||| (bytes.getD 1 0).toUInt16 <<< 8

def ofUInt32 (v : UInt32) : List UInt8 :=
  [v.toUInt8, (v >>> 8).toUInt8, (v >>> 16).toUInt8, (v >>> 24).toUInt8]

def toUInt32 (bytes : List UInt8) : UInt32 :=
  (bytes.getD 0 0).toUInt32 ||| (bytes.getD 1 0).toUInt32 <<< 8 ||| (bytes.getD 2 0).toUInt32 <<< 16
    ||| (bytes.getD 3 0).toUInt32 <<< 24

def toUInt64 (bytes : List UInt8) : UInt64 :=
  bytes.foldr (fun b v => v <<< 8 ||| b.toUInt64) 0

@[simp]
theorem length_ofUInt16 (v : UInt16) : (ofUInt16 v).length = 2 := by
  simp [ofUInt16]

@[simp]
theorem length_ofUInt32 (v : UInt32) : (ofUInt32 v).length = 4 := by
  simp [ofUInt32]

@[simp]
theorem toUInt16_ofUInt16 (v : UInt16) : toUInt16 (ofUInt16 v) = v := by
  apply UInt16.eq_of_toBitVec_eq
  ext i hi
  simp only [toUInt16, ofUInt16, List.getD_cons_zero, List.getD_cons_succ, UInt16.toBitVec_or,
    UInt16.toBitVec_shiftLeft, UInt8.toBitVec_toUInt16, UInt16.toBitVec_toUInt8,
    UInt16.toBitVec_shiftRight]
  simp
  grind

@[simp]
theorem toUInt32_ofUInt32 (v : UInt32) : toUInt32 (ofUInt32 v) = v := by
  apply UInt32.eq_of_toBitVec_eq
  ext i hi
  simp only [toUInt32, ofUInt32, List.getD_cons_zero, List.getD_cons_succ, UInt32.toBitVec_or,
    UInt32.toBitVec_shiftLeft, UInt8.toBitVec_toUInt32, UInt32.toBitVec_toUInt8,
    UInt32.toBitVec_shiftRight]
  simp
  grind

def ofUInt64 (v : UInt64) : List UInt8 :=
  [v.toUInt8, (v >>> 8).toUInt8, (v >>> 16).toUInt8, (v >>> 24).toUInt8, (v >>> 32).toUInt8,
    (v >>> 40).toUInt8, (v >>> 48).toUInt8, (v >>> 56).toUInt8]

@[simp]
theorem length_ofUInt64 (v : UInt64) : (ofUInt64 v).length = 8 := by
  simp [ofUInt64]

@[simp]
theorem toUInt64_ofUInt64 (v : UInt64) : toUInt64 (ofUInt64 v) = v := by
  apply UInt64.eq_of_toBitVec_eq
  ext i hi
  simp only [toUInt64, ofUInt64, List.foldr_cons, List.foldr_nil, UInt64.toBitVec_or,
    UInt64.toBitVec_shiftLeft, UInt8.toBitVec_toUInt64, UInt64.toBitVec_toUInt8,
    UInt64.toBitVec_shiftRight]
  simp
  grind

def store16 (m : Memory) (off : Nat) (v : UInt16) : Memory :=
  m.store off (ofUInt16 v)

def load16 (m : Memory) (off : Nat) : UInt16 :=
  toUInt16 (m.load off 2)

@[simp]
theorem load16_store16 (m : Memory) (off : Nat) (v : UInt16) : (m.store16 off v).load16 off = v := by
  rw [load16, store16, load_store (length_ofUInt16 v), toUInt16_ofUInt16]

theorem load16_congr {m' : Memory} (h : ∀ i, off ≤ i → i < off + 2 → m' i = m i)
    : m'.load16 off = m.load16 off := by
  rw [load16, load16, load_congr h]

def store32 (m : Memory) (off : Nat) (v : UInt32) : Memory :=
  m.store off (ofUInt32 v)

def load32 (m : Memory) (off : Nat) : UInt32 :=
  toUInt32 (m.load off 4)

def load64 (m : Memory) (off : Nat) : UInt64 :=
  toUInt64 (m.load off 8)

def store64 (m : Memory) (off : Nat) (v : UInt64) : Memory :=
  m.store off (ofUInt64 v)

@[simp]
theorem load32_store32 (m : Memory) (off : Nat) (v : UInt32) : (m.store32 off v).load32 off = v := by
  rw [load32, store32, load_store (length_ofUInt32 v), toUInt32_ofUInt32]

theorem load32_congr {m' : Memory} (h : ∀ i, off ≤ i → i < off + 4 → m' i = m i)
    : m'.load32 off = m.load32 off := by
  rw [load32, load32, load_congr h]
end Memory

end Lib
