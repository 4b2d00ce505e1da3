import DpdkLearning.Lib.AddrRun
import DpdkLearning.Lib.Memory

/-!
This module contains address spaces, with a byte for each 64-bit address and little-endian words stored into
them and loaded from them, and areas of addresses that a store may leave as they are.
-/

namespace Lib

abbrev AddrSpace := UInt64 → UInt8

/--
`size` addresses from `start` on. They go on at `0` behind the last address.
-/
structure Area where
  start : UInt64
  size : Nat
  deriving DecidableEq, Repr

namespace Area

variable {r s t : Area} {a x : UInt64} {k l m n : Nat}

def Has (r : Area) (x : UInt64) : Prop :=
  (x - r.start).toNat < r.size

/--
The areas have no address in common.
-/
def Apart (r s : Area) : Prop :=
  r.size = 0 ∨ s.size = 0 ∨ (r.size ≤ (s.start - r.start).toNat ∧ s.size ≤ (r.start - s.start).toNat)

instance : Decidable (Apart r s) :=
  inferInstanceAs (Decidable (_ ∨ _))

/--
Every address of the first area is one of the second.
-/
def Within (r s : Area) : Prop :=
  ∀ x, r.Has x → s.Has x

theorem apart_iff : Apart r s ↔ ∀ x, r.Has x → ¬s.Has x := by
  unfold Apart Has
  have hr := r.start.toNat_lt
  have hs := s.start.toNat_lt
  constructor
  . intro h x hxr hxs
    have hx := x.toNat_lt
    rw [UInt64.toNat_sub] at hxr hxs
    rw [UInt64.toNat_sub, UInt64.toNat_sub] at h
    omega
  . intro h
    have hatr := h r.start
    have hats := h s.start
    rw [UInt64.sub_self] at hatr hats
    change 0 < r.size → _ at hatr
    change _ → ¬0 < s.size at hats
    omega

theorem Apart.symm (h : Apart r s) : Apart s r := by
  rw [apart_iff] at h ⊢
  intro x hs hr
  exact h x hr hs

theorem Apart.mono (h : Apart r s) (hin : Within t r) : Apart t s := by
  rw [apart_iff] at h ⊢
  intro x ht
  exact h x (hin x ht)

theorem has_offset (h : m ≤ 2 ^ 64) (hk : k < m) : Has ⟨a, m⟩ (a + k.toUInt64) := by
  have := a.toNat_lt
  unfold Has
  rw [UInt64.toNat_sub, toNat_add_toUInt64]
  dsimp only
  omega

theorem apart_singleton (h : ¬r.Has a) : Apart r ⟨a, 1⟩ := by
  rw [apart_iff]
  intro x hx hxa
  have hxlt := x.toNat_lt
  have halt := a.toNat_lt
  unfold Has at hxa
  rw [UInt64.toNat_sub] at hxa
  dsimp only at hxa
  have heq : x = a := by
    rw [← UInt64.toNat_inj]
    omega
  exact h (heq ▸ hx)

theorem within_start (h : n ≤ m) : Within ⟨a, n⟩ ⟨a, m⟩ := by
  intro x hx
  exact Nat.lt_of_lt_of_le hx h

theorem within_offset (h : m ≤ 2 ^ 64) (hk : k + n ≤ m) : Within ⟨a + k.toUInt64, n⟩ ⟨a, m⟩ := by
  intro x hx
  have := a.toNat_lt
  have := x.toNat_lt
  unfold Has at hx ⊢
  rw [UInt64.toNat_sub, toNat_add_toUInt64] at hx
  rw [UInt64.toNat_sub]
  dsimp only at hx ⊢
  omega

theorem apart_offset (h : l + m ≤ 2 ^ 64) (hk : k + n ≤ l) : Apart ⟨a + k.toUInt64, n⟩ ⟨a + l.toUInt64, m⟩ := by
  have := a.toNat_lt
  unfold Apart
  rw [UInt64.toNat_sub, UInt64.toNat_sub, toNat_add_toUInt64, toNat_add_toUInt64]
  dsimp only
  omega

end Area

namespace AddrSpace

def load (m : AddrSpace) (a : UInt64) (n : Nat) : List UInt8 :=
  (List.range n).map (fun i => m (a + i.toUInt64))

def store (m : AddrSpace) (a : UInt64) (bytes : List UInt8) : AddrSpace :=
  fun x => if (x - a).toNat < bytes.length then bytes.getD (x - a).toNat 0 else m x

def load16 (m : AddrSpace) (a : UInt64) : UInt16 :=
  Memory.toUInt16 (m.load a 2)

def load32 (m : AddrSpace) (a : UInt64) : UInt32 :=
  Memory.toUInt32 (m.load a 4)

def load64 (m : AddrSpace) (a : UInt64) : UInt64 :=
  Memory.toUInt64 (m.load a 8)

def store16 (m : AddrSpace) (a : UInt64) (v : UInt16) : AddrSpace :=
  m.store a (Memory.ofUInt16 v)

def store32 (m : AddrSpace) (a : UInt64) (v : UInt32) : AddrSpace :=
  m.store a (Memory.ofUInt32 v)

/--
The second address space has the bytes of the first one in the area.
-/
def Same (r : Area) (m m' : AddrSpace) : Prop :=
  ∀ x, r.Has x → m' x = m x

variable {m m' m'' : AddrSpace} {a b : UInt64} {bytes : List UInt8} {n : Nat} {r s : Area}

theorem Same.refl (r : Area) (m : AddrSpace) : Same r m m := by
  intro x _
  rfl

theorem Same.trans (h : Same r m m') (h' : Same r m' m'') : Same r m m'' := by
  intro x hx
  rw [h' x hx, h x hx]

theorem Same.mono (h : Same r m m') (hin : s.Within r) : Same s m m' := by
  intro x hx
  exact h x (hin x hx)

theorem Same.at (h : Same ⟨a, 1⟩ m m') : m' a = m a := by
  apply h
  simp [Area.Has]

/-- A store leaves the areas that it stays off. -/
theorem same_store (h : Area.Apart ⟨a, bytes.length⟩ r) : Same r m (m.store a bytes) := by
  intro x hx
  rw [Area.apart_iff] at h
  exact if_neg (fun hat => h x hat hx)

theorem same_store16 (v : UInt16) (h : Area.Apart ⟨a, 2⟩ r) : Same r m (m.store16 a v) :=
  same_store (by simpa using h)

theorem same_store32 (v : UInt32) (h : Area.Apart ⟨a, 4⟩ r) : Same r m (m.store32 a v) :=
  same_store (by simpa using h)

theorem load_congr (hn : n ≤ 2 ^ 64) (h : Same ⟨a, n⟩ m m') : m'.load a n = m.load a n := by
  apply List.map_congr_left
  intro i hi
  exact h _ (Area.has_offset hn (List.mem_range.mp hi))

theorem load16_congr (h : Same ⟨a, 2⟩ m m') : m'.load16 a = m.load16 a := by
  rw [load16, load16, load_congr (by decide) h]

theorem load32_congr (h : Same ⟨a, 4⟩ m m') : m'.load32 a = m.load32 a := by
  rw [load32, load32, load_congr (by decide) h]

theorem load64_congr (h : Same ⟨a, 8⟩ m m') : m'.load64 a = m.load64 a := by
  rw [load64, load64, load_congr (by decide) h]

theorem load_store (hn : bytes.length ≤ 2 ^ 64) : (m.store a bytes).load a bytes.length = bytes := by
  apply List.ext_getElem
  . simp [load]
  . intro i hi _
    have hlt : i < bytes.length := by simpa [load] using hi
    have hoff : (a + i.toUInt64 - a).toNat = i := by
      have := a.toNat_lt
      rw [UInt64.toNat_sub, toNat_add_toUInt64]
      omega
    simp only [load, store, List.getElem_map, List.getElem_range, hoff]
    rw [if_pos hlt, List.getD_eq_getElem _ _ hlt]

@[simp]
theorem load16_store16 (m : AddrSpace) (a : UInt64) (v : UInt16) : (m.store16 a v).load16 a = v := by
  have h : (m.store a (Memory.ofUInt16 v)).load a (Memory.ofUInt16 v).length = Memory.ofUInt16 v :=
    load_store (by simp)
  rw [Memory.length_ofUInt16] at h
  rw [load16, store16, h, Memory.toUInt16_ofUInt16]

@[simp]
theorem load32_store32 (m : AddrSpace) (a : UInt64) (v : UInt32) : (m.store32 a v).load32 a = v := by
  have h : (m.store a (Memory.ofUInt32 v)).load a (Memory.ofUInt32 v).length = Memory.ofUInt32 v :=
    load_store (by simp)
  rw [Memory.length_ofUInt32] at h
  rw [load32, store32, h, Memory.toUInt32_ofUInt32]

end AddrSpace

end Lib
