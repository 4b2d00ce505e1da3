import DpdkLearning.Lib.Memory

/-!
This module contains a position in memory that moves on behind what is written, and words in network byte
order.
-/

namespace Lib

namespace Memory

variable {m : Memory} {off : Nat} {bytes bytes' : List UInt8}

theorem store_nil : m.store off [] = m := by
  funext i
  rw [store_apart]
  simp
  omega

/-- Two stores one behind the other are one. -/
theorem store_store
    : (m.store off bytes).store (off + bytes.length) bytes' = m.store off (bytes ++ bytes') := by
  funext i
  by_cases hlow : i < off
  . rw [store_apart (.inl (by omega)), store_apart (.inl hlow), store_apart (.inl hlow)]
  by_cases hhigh : off + (bytes ++ bytes').length ≤ i
  . rw [List.length_append] at hhigh
    rw [store_apart (.inr (by omega)), store_apart (.inr (by omega)), store_apart (.inr ?_)]
    rw [List.length_append]
    omega
  obtain ⟨j, rfl⟩ : ∃ j, i = off + j := ⟨i - off, by omega⟩
  have hj : j < (bytes ++ bytes').length := by omega
  rw [store_apply hj]
  by_cases hfirst : j < bytes.length
  . rw [store_apart (.inl (by omega)), store_apply hfirst, List.getElem_append_left hfirst]
  . rw [List.length_append] at hj
    rw [show off + j = off + bytes.length + (j - bytes.length) by omega, store_apply (by omega),
      List.getElem_append_right (by omega)]

/-- The bytes at an address in what is loaded. -/
theorem apply_of_load {p n i : Nat} (h : m.load p n = bytes) (hi : i < n) : m (p + i) = bytes.getD i 0 := by
  subst h
  rw [List.getD_eq_getElem _ _ (by simpa)]
  simp [load]

def ofUInt16Be (v : UInt16) : List UInt8 :=
  [(v >>> 8).toUInt8, v.toUInt8]

def toUInt16Be (bytes : List UInt8) : UInt16 :=
  (bytes.getD 0 0).toUInt16 <<< 8 ||| (bytes.getD 1 0).toUInt16

def ofUInt32Be (v : UInt32) : List UInt8 :=
  [(v >>> 24).toUInt8, (v >>> 16).toUInt8, (v >>> 8).toUInt8, v.toUInt8]

@[simp]
theorem length_ofUInt16Be (v : UInt16) : (ofUInt16Be v).length = 2 := by
  simp [ofUInt16Be]

@[simp]
theorem length_ofUInt32Be (v : UInt32) : (ofUInt32Be v).length = 4 := by
  simp [ofUInt32Be]

@[simp]
theorem toUInt16Be_ofUInt16Be (v : UInt16) : toUInt16Be (ofUInt16Be v) = v := by
  apply UInt16.eq_of_toBitVec_eq
  ext i hi
  simp only [toUInt16Be, ofUInt16Be, List.getD_cons_zero, List.getD_cons_succ, UInt16.toBitVec_or,
    UInt16.toBitVec_shiftLeft, UInt8.toBitVec_toUInt16, UInt16.toBitVec_toUInt8,
    UInt16.toBitVec_shiftRight]
  simp
  grind

theorem ofUInt16Be_inj {v w : UInt16} : ofUInt16Be v = ofUInt16Be w ↔ v = w := by
  constructor
  . intro h
    rw [← toUInt16Be_ofUInt16Be v, h, toUInt16Be_ofUInt16Be]
  . rintro rfl
    rfl

def load16Be (m : Memory) (off : Nat) : UInt16 :=
  toUInt16Be (m.load off 2)

@[simp]
theorem ofUInt16Be_load16Be (m : Memory) (off : Nat) : ofUInt16Be (m.load16Be off) = m.load off 2 := by
  have hhigh : ∀ a b : UInt8, ((a.toUInt16 <<< 8 ||| b.toUInt16) >>> 8).toUInt8 = a := by
    intro a b
    apply UInt8.eq_of_toBitVec_eq
    ext i hi
    simp
    grind
  have hlow : ∀ a b : UInt8, (a.toUInt16 <<< 8 ||| b.toUInt16).toUInt8 = b := by
    intro a b
    apply UInt8.eq_of_toBitVec_eq
    ext i hi
    simp
  change [_, _] = [m (off + 0), m (off + 1)]
  rw [load16Be, toUInt16Be, hhigh, hlow]
  rfl

end Memory

/--
A pointer into memory.
-/
structure Cursor where
  mem : Memory
  pos : Nat

namespace Cursor

/--
Write bytes and move behind them.
-/
def put (c : Cursor) (bytes : List UInt8) : Cursor where
  mem := c.mem.store c.pos bytes
  pos := c.pos + bytes.length

variable {c : Cursor} {a b bytes : List UInt8}

@[simp]
theorem pos_put : (c.put bytes).pos = c.pos + bytes.length := rfl

@[simp]
theorem put_nil : c.put [] = c := by
  unfold put
  rw [Memory.store_nil, List.length_nil, Nat.add_zero]

theorem put_put : (c.put a).put b = c.put (a ++ b) := by
  unfold put
  dsimp only
  rw [Memory.store_store, List.length_append, Nat.add_assoc]

theorem put_flatMap {α : Type} (f : α → List UInt8) (xs : List α)
    : xs.foldl (fun c x => c.put (f x)) c = c.put (xs.flatMap f) := by
  induction xs generalizing c with
  | nil => simp
  | cons x xs ih => rw [List.foldl_cons, ih, put_put, List.flatMap_cons]

theorem load_put (c : Cursor) (bytes : List UInt8)
    : (c.put bytes).mem.load c.pos bytes.length = bytes :=
  Memory.load_store rfl

/-- What was written is found again behind what was written before it. -/
theorem load_put_append {d : List UInt8}
    : (c.put (a ++ b ++ d)).mem.load (c.pos + a.length) b.length = b := by
  have hall : (c.put (a ++ b ++ d)).mem.load c.pos (a.length + b.length + d.length) = a ++ b ++ d := by
    have hload := load_put c (a ++ b ++ d)
    rwa [List.length_append, List.length_append] at hload
  rw [Memory.load_add, Memory.load_add] at hall
  have hsplit := (List.append_inj hall (by simp)).1
  exact (List.append_inj hsplit (by simp)).2

end Cursor

end Lib
