import DpdkLearning.Lib.Lanes
import DpdkLearning.Stack.Impl.Ddos

/-!
This module contains that `count_bit` counts: a word at a time, in lanes of two, four and eight bits, it
gets the number of bits that are set in the buffer.
-/

open Lib Lanes Memory

namespace NgStack

variable {v : UInt64} {lanes : List Nat}

theorem countBitPairs_spec (h : ∀ d ∈ lanes, d < 2 ^ 1) (hlen : lanes.length = 64)
    (hv : v.toNat = pack 1 lanes)
    : ((v >>> 1) &&& (0x5555555555555555 : UInt64)) ≤ v
      ∧ (countBitPairs v).toNat = pack 2 (pairSums lanes) := by
  have hodd : ((v >>> 1) &&& (0x5555555555555555 : UInt64)).toNat = v.toNat >>> 1 &&& evenMask 1 32 := by
    rw [UInt64.toNat_and]
    rfl
  have hsub := pack_sub_masked h (n := 32) hlen
  rw [← hv, ← hodd] at hsub
  have hle : ((v >>> 1) &&& (0x5555555555555555 : UInt64)) ≤ v := hsub.1
  refine ⟨hle, ?_⟩
  rw [countBitPairs, UInt64.toNat_sub_of_le _ _ hle]
  exact hsub.2

theorem countBitNibbles_spec (h : ∀ d ∈ lanes, d ≤ 2) (hlen : lanes.length = 32)
    (hv : v.toNat = pack 2 lanes)
    : (v &&& (0x3333333333333333 : UInt64)).toNat + ((v >>> 2) &&& (0x3333333333333333 : UInt64)).toNat < 2 ^ 64
      ∧ (countBitNibbles v).toNat = pack 4 (pairSums lanes) := by
  have heven : (v &&& (0x3333333333333333 : UInt64)).toNat = v.toNat &&& evenMask 2 16 := by
    rw [UInt64.toNat_and]
    rfl
  have hodd : ((v >>> 2) &&& (0x3333333333333333 : UInt64)).toNat = v.toNat >>> 2 &&& evenMask 2 16 := by
    rw [UInt64.toNat_and]
    rfl
  have hlane : ∀ d ∈ lanes, d < 2 ^ 2 := fun d hd => Nat.lt_of_le_of_lt (h d hd) (by decide)
  have hadd := pack_masked_add hlane (n := 16) hlen
  rw [← hv, ← heven, ← hodd] at hadd
  have hlt : pack 4 (pairSums lanes) < 2 ^ 64 := by
    have hsums : ∀ d ∈ pairSums lanes, d < 2 ^ 4 :=
      fun d hd => Nat.lt_of_le_of_lt (le_of_mem_pairSums h d hd) (by decide)
    have hpack := pack_lt (by decide) hsums
    rwa [length_pairSums, hlen] at hpack
  rw [hadd]
  refine ⟨hlt, ?_⟩
  rw [countBitNibbles, UInt64.toNat_add, hadd, Nat.mod_eq_of_lt hlt]

theorem countBitBytes_spec (h : ∀ d ∈ lanes, d ≤ 4) (hlen : lanes.length = 16)
    (hv : v.toNat = pack 4 lanes)
    : v.toNat + (v >>> 4).toNat < 2 ^ 64 ∧ (countBitBytes v).toNat = pack 8 (pairSums lanes) := by
  have hshift : (v >>> 4).toNat = v.toNat >>> 4 := rfl
  have hlane : ∀ d ∈ lanes, d < 2 ^ 4 := fun d hd => Nat.lt_of_le_of_lt (h d hd) (by decide)
  have hrun : pack 4 (runSums lanes) = v.toNat + (v >>> 4).toNat := by
    rw [hshift, hv, pack_shiftRight hlane, pack_runSums]
  have hlt : v.toNat + (v >>> 4).toNat < 2 ^ 64 := by
    have hsums : ∀ d ∈ runSums lanes, d < 2 ^ 4 :=
      fun d hd => Nat.lt_of_le_of_lt (le_of_mem_runSums h d hd) (by decide)
    have hpack := pack_lt (by decide) hsums
    rwa [length_runSums, hlen, hrun] at hpack
  refine ⟨hlt, ?_⟩
  rw [countBitBytes, UInt64.toNat_and, UInt64.toNat_add, Nat.mod_eq_of_lt hlt, hshift, hv]
  exact pack_add_masked h (by decide) (n := 8) hlen

theorem multiply_spec (hlen : lanes.length = 8) (hsum : lanes.sum < 2 ^ 8) (hv : v.toNat = pack 8 lanes)
    : ((v * 0x0101010101010101) >>> ((8 - 1) * 8)).toNat = lanes.sum := by
  have htop := pack_mul_ones_top (by decide) hlen hsum
  rw [← htop, ← hv, ← Nat.shiftRight_eq_div_pow]
  rw [UInt64.toNat_shiftRight, UInt64.toNat_mul]
  rfl

/--
What is done to a word loses nothing: no borrow leaves the difference, no carry leaves a sum, and the byte
that is left of the product has the sum of all bytes.
-/
structure NoCarryLost (v : UInt64) : Prop where
  pairs : ((v >>> 1) &&& (0x5555555555555555 : UInt64)) ≤ v
  nibbles : (countBitPairs v &&& (0x3333333333333333 : UInt64)).toNat
    + ((countBitPairs v >>> 2) &&& (0x3333333333333333 : UInt64)).toNat < 2 ^ 64
  bytes : (countBitNibbles (countBitPairs v)).toNat + (countBitNibbles (countBitPairs v) >>> 4).toNat < 2 ^ 64
  count : (countBitWord v).toNat = countOnes 64 v.toNat

theorem noCarryLost (v : UInt64) : NoCarryLost v := by
  have hlen : (bits 64 v.toNat).length = 64 := length_bits 64 v.toNat
  have hsum := sum_bits 64 v.toNat
  have hbit : ∀ d ∈ bits 64 v.toNat, d ≤ 1 := fun _ => le_of_mem_bits
  have hv : v.toNat = pack 1 (bits 64 v.toNat) := (pack_bits v.toNat_lt).symm
  generalize bits 64 v.toNat = lanes at hlen hsum hbit hv
  have hlen2 : (pairSums lanes).length = 32 := by rw [length_pairSums, hlen]
  have hlen4 : (pairSums (pairSums lanes)).length = 16 := by rw [length_pairSums, hlen2]
  have hlen8 : (pairSums (pairSums (pairSums lanes))).length = 8 := by rw [length_pairSums, hlen4]
  have hbits : (pairSums (pairSums (pairSums lanes))).sum = countOnes 64 v.toNat := by
    rw [sum_pairSums _ (by rw [hlen4]; decide), sum_pairSums _ (by rw [hlen2]; decide),
      sum_pairSums _ (by rw [hlen]; decide), hsum]
  have hpairs := countBitPairs_spec (fun d hd => Nat.lt_succ_of_le (hbit d hd)) hlen hv
  have hnibbles := countBitNibbles_spec (le_of_mem_pairSums hbit) hlen2 hpairs.2
  have hbytes := countBitBytes_spec (le_of_mem_pairSums (le_of_mem_pairSums hbit)) hlen4 hnibbles.2
  have hlt : (pairSums (pairSums (pairSums lanes))).sum < 2 ^ 8 := by
    have hle := countOnes_le 64 v.toNat
    rw [hbits]
    omega
  exact ⟨hpairs.1, hnibbles.1, hbytes.1, (multiply_spec hlen8 hlt hbytes.2).trans hbits⟩

/--
How many bits are set in the bytes.
-/
def oneBits (bytes : List UInt8) : Nat :=
  (bytes.map (fun b => countOnes 8 b.toNat)).sum

variable {m : Memory} {ptr msg stop n : Nat}

theorem oneBits_append (bytes1 bytes2 : List UInt8)
    : oneBits (bytes1 ++ bytes2) = oneBits bytes1 + oneBits bytes2 := by
  simp [oneBits]

theorem oneBits_le (bytes : List UInt8) : oneBits bytes ≤ 8 * bytes.length := by
  induction bytes with
  | nil => exact Nat.le_refl 0
  | cons b bytes ih =>
    have hle := countOnes_le 8 b.toNat
    simp only [oneBits, List.map_cons, List.sum_cons, List.length_cons] at ih ⊢
    omega

theorem byte_lt {bytes : List UInt8} {d : Nat} (hd : d ∈ bytes.map UInt8.toNat) : d < 2 ^ 8 := by
  rw [List.mem_map] at hd
  rcases hd with ⟨b, _, rfl⟩
  exact b.toNat_lt

theorem toNat_toUInt64 {bytes : List UInt8} (hlen : bytes.length ≤ 8)
    : (toUInt64 bytes).toNat = pack 8 (bytes.map UInt8.toNat) := by
  induction bytes with
  | nil => rfl
  | cons b bytes ih =>
    rw [List.length_cons] at hlen
    have hrest := ih (by omega)
    have hlt : pack 8 (bytes.map UInt8.toNat) < 2 ^ (8 * bytes.length) := by
      have hpack := pack_lt (by decide) (fun d (hd : d ∈ bytes.map UInt8.toNat) => byte_lt hd)
      rwa [List.length_map] at hpack
    have hroom : 2 ^ (8 * bytes.length) ≤ 2 ^ 56 := Nat.pow_le_pow_right (by decide) (by omega)
    have hshift : (toUInt64 bytes <<< 8).toNat = (toUInt64 bytes).toNat <<< 8 := by
      rw [UInt64.toNat_shiftLeft]
      apply Nat.mod_eq_of_lt
      rw [hrest, Nat.shiftLeft_eq]
      have h8 : (8 : UInt64).toNat % 64 = 8 := rfl
      rw [h8]
      omega
    have hcons : toUInt64 (b :: bytes) = toUInt64 bytes <<< 8 ||| b.toUInt64 := rfl
    rw [hcons, UInt64.toNat_or, hshift, UInt8.toNat_toUInt64, ← Nat.shiftLeft_add_eq_or_of_lt b.toNat_lt, hrest,
      Nat.shiftLeft_eq, List.map_cons, pack_cons, Nat.add_comm, Nat.mul_comm]

theorem toNat_countBitWord_load64 (m : Memory) (ptr : Nat)
    : (countBitWord (m.load64 ptr)).toNat = oneBits (m.load ptr 8) := by
  have hcount := countOnes_pack (fun d (hd : d ∈ (m.load ptr 8).map UInt8.toNat) => byte_lt hd)
  rw [List.length_map, length_load, List.map_map] at hcount
  rw [(noCarryLost _).count, load64, toNat_toUInt64 (by simp)]
  exact hcount

/-- The loop counts the bits of `n + 1` words, of which the last may go beyond where it is to stop. -/
theorem toNat_countBitLoop (m : Memory) (setBits : UInt64) (hlast : stop ≤ ptr + 8 * (n + 1))
    (hmore : n = 0 ∨ ptr + 8 * n < stop) (hroom : setBits.toNat + 64 * (n + 1) < 2 ^ 64)
    : (countBitLoop m ptr stop setBits).toNat = setBits.toNat + oneBits (m.load ptr (8 * (n + 1))) := by
  induction n generalizing ptr setBits with
  | zero =>
    have hword := toNat_countBitWord_load64 m ptr
    have hle := oneBits_le (m.load ptr 8)
    rw [length_load] at hle
    rw [countBitLoop, if_neg (by omega), UInt64.toNat_add, hword, Nat.mod_eq_of_lt (by omega)]
  | succ n ih =>
    have hword := toNat_countBitWord_load64 m ptr
    have hle := oneBits_le (m.load ptr 8)
    rw [length_load] at hle
    have hadd : (setBits + countBitWord (m.load64 ptr)).toNat = setBits.toNat + oneBits (m.load ptr 8) := by
      rw [UInt64.toNat_add, hword, Nat.mod_eq_of_lt (by omega)]
    have hbytes : 8 * (n + 1 + 1) = 8 + 8 * (n + 1) := by omega
    rw [countBitLoop, if_pos (by omega), ih _ (by omega) (by omega) (by omega), hadd, hbytes, load_add,
      oneBits_append, Nat.add_assoc]

theorem toNat_countBit (m : Memory) (msg : Nat) {length : UInt32} (hdvd : 8 ∣ length.toNat)
    (hpos : 0 < length.toNat)
    : (countBit m msg length).toNat = oneBits (m.load msg length.toNat) % 2 ^ 32 := by
  have hlt := length.toNat_lt
  rcases hdvd with ⟨k, hk⟩
  obtain ⟨n, rfl⟩ : ∃ n, k = n + 1 := ⟨k - 1, by omega⟩
  have hloop := toNat_countBitLoop m 0 (show msg + length.toNat ≤ msg + 8 * (n + 1) by omega) (by omega)
    (by simp; omega)
  rw [UInt64.toNat_zero, Nat.zero_add, ← hk] at hloop
  rw [countBit, UInt64.toNat_toUInt32, hloop]

theorem toNat_countBit_le (m : Memory) (msg : Nat) (length : UInt32)
    : (countBit m msg length).toNat ≤ 8 * (length.toNat + 8) := by
  have hlt := length.toNat_lt
  obtain ⟨n, hn⟩ : ∃ n, n = (length.toNat - 1) / 8 := ⟨_, rfl⟩
  have hloop := toNat_countBitLoop m 0 (show msg + length.toNat ≤ msg + 8 * (n + 1) by omega) (by omega)
    (by simp; omega)
  have hle := oneBits_le (m.load msg (8 * (n + 1)))
  rw [length_load] at hle
  rw [UInt64.toNat_zero, Nat.zero_add] at hloop
  rw [countBit, UInt64.toNat_toUInt32, hloop]
  have hmod := Nat.mod_le (oneBits (m.load msg (8 * (n + 1)))) (2 ^ 32)
  omega

/--
For buffers of whole words the count is the number of bits that are set, as a number of 32 bits. So it is
that number exactly where it is one of 32 bits, as in every buffer of less than 2^29 bytes, and never more
than there are bits. In no word a carry is lost.
-/
theorem countBit_counts (m : Memory) (msg : Nat) (length : UInt32) (hdvd : 8 ∣ length.toNat)
    (hpos : 0 < length.toNat)
    : (countBit m msg length).toNat = oneBits (m.load msg length.toNat) % 2 ^ 32
      ∧ ((countBit m msg length).toNat = oneBits (m.load msg length.toNat)
        ↔ oneBits (m.load msg length.toNat) < 2 ^ 32)
      ∧ (length.toNat < 2 ^ 29 → oneBits (m.load msg length.toNat) < 2 ^ 32)
      ∧ (countBit m msg length).toNat ≤ 8 * length.toNat
      ∧ ∀ v : UInt64, NoCarryLost v := by
  have hcount := toNat_countBit m msg hdvd hpos
  have hle := oneBits_le (m.load msg length.toNat)
  rw [length_load] at hle
  have hmod := Nat.mod_le (oneBits (m.load msg length.toNat)) (2 ^ 32)
  refine ⟨hcount, ?_, ?_, ?_, noCarryLost⟩
  . rw [hcount]
    constructor
    . intro heq
      rw [← heq]
      exact Nat.mod_lt _ (by decide)
    . exact Nat.mod_eq_of_lt
  . intro hlt
    omega
  . omega

/-- The buffer of an mbuf of the default size. -/
theorem countBit_counts_default
    : (countBit (fun _ => 255) 0 2176).toNat ≤ 8 * 2176 :=
  (countBit_counts (fun _ => 255) 0 2176 (by decide) (by decide)).2.2.2.1

theorem oneBits_load_const (b : UInt8) (ptr n : Nat)
    : oneBits (load (fun _ => b) ptr n) = n * countOnes 8 b.toNat := by
  simp [oneBits, load]

/-- With 2^32 bits set the count is zero. -/
theorem not_countBit_counts
    : ¬∀ (m : Memory) (msg : Nat) (length : UInt32), 8 ∣ length.toNat → 0 < length.toNat
        → (countBit m msg length).toNat = oneBits (m.load msg length.toNat) := by
  intro hall
  have hcount := toNat_countBit (fun _ => 255) 0 (show 8 ∣ (536870912 : UInt32).toNat by decide) (by decide)
  have hones : oneBits (load (fun _ => 255) 0 (536870912 : UInt32).toNat) = 2 ^ 32 := by
    rw [oneBits_load_const]
    decide
  have hsame := hall (fun _ => 255) 0 536870912 (by decide) (by decide)
  rw [hcount, hones] at hsame
  exact absurd hsame (by decide)

end NgStack
