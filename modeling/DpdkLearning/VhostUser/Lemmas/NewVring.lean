import DpdkLearning.VhostUser.Lemmas.Reach

/-!
This module contains what `new_vring` makes of shared memory: a free list through all descriptors, whose
buffers lie one behind the other.
-/

open Lib

namespace VhostUser

theorem align_of_dvd {v b : Nat} (hb : 0 < b) (h : b ∣ v) : align v b = v := by
  rcases h with ⟨k, rfl⟩
  unfold align
  rw [Nat.add_sub_assoc hb, Nat.mul_add_div hb, Nat.div_eq_of_lt (by omega), Nat.add_zero, Nat.mul_comm]

/--
The descriptor `j` as the loop of `new_vring` leaves it, if that begins with number `i` at `ptr`.
-/
def freshDesc (i ptr j : Nat) : VringDesc where
  addr := (ptr + bufferSize * (j - i)).toUInt64
  len := bufferSize.toUInt32
  flags := virtioDescFWrite
  next := (j + 1).toUInt16

theorem newVringLoop_eq (v : VhostVring) (i ptr n : Nat) (hptr : bufferAlignment ∣ ptr)
    : newVringLoop v i ptr n
        = { v with desc := fun j => if i ≤ j ∧ j < i + n then freshDesc i ptr j else v.desc j } := by
  induction n generalizing v i ptr with
  | zero =>
    have hnone : (fun j => if i ≤ j ∧ j < i + 0 then freshDesc i ptr j else v.desc j) = v.desc := by
      funext j
      rw [if_neg (by omega)]
    rw [newVringLoop, hnone]
  | succ n ih =>
    unfold newVringLoop
    dsimp only
    rw [align_of_dvd (by decide) hptr, ih]
    . congr 1
      funext j
      dsimp only
      by_cases hj : j = i
      . rw [hj, if_neg (by omega), Function.update_self, if_pos (by omega), freshDesc, Nat.sub_self,
          Nat.mul_zero, Nat.add_zero ptr]
      . rw [Function.update_of_ne hj]
        by_cases hin : i + 1 ≤ j ∧ j < i + 1 + n
        . rw [if_pos hin, if_pos (by omega)]
          have hsucc : j - i = j - (i + 1) + 1 := by omega
          rw [freshDesc, freshDesc, hsucc, Nat.mul_succ, Nat.add_assoc ptr, Nat.add_comm bufferSize]
        . rw [if_neg hin, if_neg (by omega)]
    . apply Nat.dvd_add hptr
      decide

/--
What `new_vring` makes of the shared memory.
-/
def freshVring (base : Nat) (v : VhostVring) : VhostVring :=
  { v with
    desc := fun i =>
      if i < vhostVringSize then
        { addr := (base + bufOff i).toUInt64
          len := bufferSize.toUInt32
          flags := virtioDescFWrite
          next := if i = vhostVringSize - 1 then vringIdxNone else (i + 1).toUInt16 }
      else
        v.desc i
    availIdx := 0
    usedIdx := 0 }

variable {base i : Nat} {v : VhostVring}

theorem newVring_eq (hbase : bufferAlignment ∣ base) : newVring base v = freshVring base v := by
  have hptr : bufferAlignment ∣ base + vhostVringBytes := by
    apply Nat.dvd_add hbase
    decide
  have hsize : vhostVringSize = 32768 := rfl
  unfold newVring freshVring
  dsimp only
  rw [newVringLoop_eq _ _ _ _ hptr]
  congr 1
  funext i
  have hoff : base + vhostVringBytes + bufferSize * (i - 0) = base + bufOff i := by
    rw [bufOff, Nat.sub_zero, Nat.add_assoc]
  by_cases hlast : i = vhostVringSize - 1
  . rw [hlast, Function.update_self, ← hlast]
    dsimp only
    rw [if_pos (by omega), if_pos (by omega), if_pos rfl, freshDesc, hoff]
  . rw [Function.update_of_ne hlast]
    dsimp only
    by_cases hi : i < vhostVringSize
    . rw [if_pos (by omega), if_pos hi, if_neg hlast, freshDesc, hoff]
    . rw [if_neg (by omega), if_neg hi]

theorem newVring_desc (hbase : bufferAlignment ∣ base) (hi : i < vhostVringSize)
    : (newVring base v).desc i = {
        addr := (base + bufOff i).toUInt64
        len := bufferSize.toUInt32
        flags := virtioDescFWrite
        next := if i = vhostVringSize - 1 then vringIdxNone else (i + 1).toUInt16 } := by
  rw [newVring_eq hbase]
  apply if_pos hi

/--
Shared memory that nothing was written into.
-/
def blankShm : VhostVring where
  desc _ := ⟨0, 0, 0, 0⟩
  availIdx := 0
  availRing _ := 0
  usedIdx := 0
  usedRing _ := ⟨0, 0⟩
  bytes _ := 0

/--
The addresses of the buffers are found in the shared memory at the place where they are.
-/
def Finds (base : Nat) (map : UInt64 → Option Nat) : Prop :=
  ∀ i < vhostVringSize, map (base + bufOff i).toUInt64 = some (bufOff i)

/-- The buffers are inside of the memory. -/
theorem bufOff_add_le (h : i < vhostVringSize) : bufOff i + bufferSize ≤ pageSize := by
  have hsize : vhostVringSize = 32768 := rfl
  have hpage : pageSize = 51380224 := rfl
  have hbytes : vhostVringBytes = 860160 := rfl
  have hbuf : bufferSize = 1528 := rfl
  rw [bufOff, hbuf, hbytes, hpage]
  omega

theorem toNat_bufAddr (h : base + pageSize ≤ 2 ^ 64) (hi : i < vhostVringSize)
    : (base + bufOff i).toUInt64.toNat = base + bufOff i := by
  have hbuf : bufferSize = 1528 := rfl
  have := bufOff_add_le hi
  rw [Nat.toUInt64_eq, UInt64.toNat_ofNat', Nat.mod_eq_of_lt (by omega)]

/-- The process that has made them finds them. -/
theorem finds_mappedAt (h : base + pageSize ≤ 2 ^ 64) : Finds base (mappedAt base pageSize) := by
  have hbuf : bufferSize = 1528 := rfl
  intro i hi
  have := bufOff_add_le hi
  rw [mappedAt, toNat_bufAddr h hi, if_pos (by omega), Nat.add_sub_cancel_left]

variable {mapPut mapGet : UInt64 → Option Nat}

theorem sound_init (hbase : bufferAlignment ∣ base) (hput : Finds base mapPut) (hget : Finds base mapGet)
    : Sound mapPut mapGet (.fresh allSlots) (.init (newVring base v)) where
  mapPut := by
    intro i hi
    rw [Ring.init, newVring_desc hbase hi]
    exact hput i hi
  mapGet := by
    intro i hi
    rw [Ring.init, newVring_desc hbase hi]
    exact hget i hi
  numPut := rfl
  numGet := rfl
  availIdx := rfl
  usedIdx := rfl
  lastUsed := rfl
  ring := .nil
  bounds := nofun
  contents := nofun
  lens := nofun
  flags := by
    intro i hi
    rw [Ring.init, newVring_desc hbase hi]
    exact show virtioDescFWrite &&& virtioDescFNext = 0 by decide
  ids := nofun
  room := Nat.zero_le _
  getOk := trivial
  slots := by simp [Exchange.slots, Exchange.fresh]
  back := ⟨rfl, show 0 < vhostVringSize by decide, .nil⟩
  described := nofun
  free := by
    have hrange : List.range vhostVringSize = List.range' 0 vhostVringSize := List.range_eq_range'
    have hnext : ∀ j < vhostVringSize, ((newVring base v).desc j.toUInt16.toNat).next
        = if j = vhostVringSize - 1 then vringIdxNone else (j + 1).toUInt16 := by
      intro j hj
      rw [toNat_toUInt16 hj, newVring_desc hbase hj]
    have hsize : vhostVringSize = 32768 := rfl
    dsimp only [Exchange.fresh, Ring.init]
    rw [allSlots, hrange]
    refine Linked.of_count (f := Nat.toUInt16) (n := vhostVringSize) (Nat.zero_add _) ?_ ?_ ?_ (by omega)
    . intro j hj heq
      have := toNat_toUInt16 hj
      rw [heq] at this
      have hnone : vringIdxNone.toNat = 65535 := rfl
      omega
    . intro j hj
      rw [hnext j (by omega), if_neg (by omega)]
    . rw [hnext _ (by omega), if_pos rfl]
  freeLen := by
    intro i hi
    dsimp only [Exchange.fresh] at hi
    rw [Ring.init, newVring_desc hbase (mem_allSlots.mp hi)]
  filling := nofun
  putOk := rfl
  recorded := nofun

end VhostUser
