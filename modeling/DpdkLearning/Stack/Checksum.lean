import DpdkLearning.Lib.OnesComplement
import DpdkLearning.Stack.Impl.IcmpPkt

/-!
This module contains that a buffer whose checksum field was filled in by `ng_checksum` checks out: over such
a buffer `ng_checksum` is zero.
-/

open Lib Memory

namespace NgStack

variable {m : Memory} {addr off count : Nat}

theorem ngChecksumFold_eq (sum : Nat) : ngChecksumFold sum = OnesComplement.fold 65536 sum := by
  fun_induction ngChecksumFold sum with
  | case1 sum h ih =>
    rw [Nat.shiftRight_eq_div_pow] at h
    rw [ih, OnesComplement.fold.eq_def 65536 sum, dif_pos (by omega), Nat.shiftRight_eq_div_pow]
    congr 2
    exact Nat.and_two_pow_sub_one_eq_mod sum 16
  | case2 sum h =>
    rw [Nat.shiftRight_eq_div_pow] at h
    rw [OnesComplement.fold, dif_neg (by omega)]

theorem ngChecksumFold_lt (sum : Nat) : ngChecksumFold sum < 2 ^ 16 := by
  rw [ngChecksumFold_eq]
  exact OnesComplement.fold_lt (by decide) sum

theorem toNat_ngChecksum (m : Memory) (addr count : Nat)
    : (ngChecksum m addr count).toNat = 65535 - ngChecksumFold (ngChecksumSum m addr count 0) := by
  have hlt := ngChecksumFold_lt (ngChecksumSum m addr count 0)
  rw [ngChecksum, UInt16.toNat_not, UInt16.toNat_ofNat', Nat.mod_eq_of_lt hlt, UInt16.size]

theorem ngChecksumSum_add (addr count sum : Nat)
    : ngChecksumSum m addr count sum = sum + ngChecksumSum m addr count 0 := by
  induction count using Nat.twoStepInduction generalizing addr sum with
  | zero => rfl
  | one => simp [ngChecksumSum]
  | more count ih _ =>
    rw [ngChecksumSum, ngChecksumSum, ih, ih _ (0 + _), Nat.zero_add, Nat.add_assoc]

theorem ngChecksumSum_word (addr count : Nat)
    : ngChecksumSum m addr (count + 2) 0 = (m.load16 addr).toNat + ngChecksumSum m (addr + 2) count 0 := by
  rw [ngChecksumSum, ngChecksumSum_add, Nat.zero_add]

theorem ngChecksumSum_congr {m' : Memory} (h : ∀ i, addr ≤ i → i < addr + count → m' i = m i)
    : ngChecksumSum m' addr count 0 = ngChecksumSum m addr count 0 := by
  induction count using Nat.twoStepInduction generalizing addr with
  | zero => rfl
  | one => simp [ngChecksumSum, h addr (Nat.le_refl addr) (Nat.lt_succ_self addr)]
  | more count ih _ =>
    rw [ngChecksumSum_word, ngChecksumSum_word, ih]
    . rw [load16_congr]
      intro i h1 h2
      apply h <;> omega
    . intro i h1 h2
      apply h <;> omega

/-- Of two buffers that differ in one word only, the sums differ by that word. -/
theorem ngChecksumSum_field {m' : Memory} {k : Nat}
    (h : ∀ i, i < addr + 2 * k ∨ addr + 2 * k + 2 ≤ i → m' i = m i) (hk : 2 * k + 2 ≤ count)
    : ngChecksumSum m' addr count 0 + (m.load16 (addr + 2 * k)).toNat
        = ngChecksumSum m addr count 0 + (m'.load16 (addr + 2 * k)).toNat := by
  obtain ⟨count, rfl⟩ := Nat.exists_eq_add_of_le' (show 2 ≤ count by omega)
  rw [ngChecksumSum_word, ngChecksumSum_word]
  -- The induction is on the words in front of the one that differs.
  induction k generalizing addr count with
  | zero =>
    rw [ngChecksumSum_congr (m := m)]
    . simp only [Nat.mul_zero, Nat.add_zero]
      omega
    . intro i h1 _
      exact h i (.inr h1)
  | succ k ih =>
    obtain ⟨count, rfl⟩ := Nat.exists_eq_add_of_le' (show 2 ≤ count by omega)
    have hnext : addr + 2 * (k + 1) = addr + 2 + 2 * k := by omega
    rw [hnext] at h ⊢
    have hword : m'.load16 addr = m.load16 addr := by
      apply load16_congr
      intro i _ hi
      exact h i (.inl (by omega))
    have hrest := ih h count (by omega)
    rw [ngChecksumSum_word, ngChecksumSum_word, hword]
    omega

theorem ngChecksum_store16 (m : Memory) (addr off count : Nat) (heven : 2 ∣ off) (hoff : off + 2 ≤ count)
    : ngChecksum ((m.store16 (addr + off) 0).store16 (addr + off)
        (ngChecksum (m.store16 (addr + off) 0) addr count)) addr count = 0 := by
  rcases heven with ⟨k, rfl⟩
  have hapart : ∀ v i, i < addr + 2 * k ∨ addr + 2 * k + 2 ≤ i
      → ((m.store16 (addr + 2 * k) 0).store16 (addr + 2 * k) v) i = (m.store16 (addr + 2 * k) 0) i := by
    intro v i hi
    apply store_apart
    simpa using hi
  have hsum := ngChecksumSum_field (hapart (ngChecksum (m.store16 (addr + 2 * k) 0) addr count)) hoff
  rw [load16_store16, load16_store16, UInt16.toNat_zero, Nat.add_zero, toNat_ngChecksum,
    ngChecksumFold_eq] at hsum
  apply UInt16.toNat_inj.mp
  rw [toNat_ngChecksum, ngChecksumFold_eq, hsum, OnesComplement.fold_complement (by decide)]
  rfl

/--
Over a buffer of any length whose checksum field, at an even offset, was zeroed and then set to the checksum
of the buffer, the checksum is zero. For buffers of every length the loop that folds the carries ends with a
word of 16 bits.
-/
theorem ngChecksum_verifies (m : Memory) (addr count : Nat)
    : (∀ off, 2 ∣ off → off + 2 ≤ count
        → ngChecksum ((m.store16 (addr + off) 0).store16 (addr + off)
            (ngChecksum (m.store16 (addr + off) 0) addr count)) addr count = 0)
      ∧ ngChecksumFold (ngChecksumSum m addr count 0) < 2 ^ 16 :=
  ⟨fun off heven hoff => ngChecksum_store16 m addr off count heven hoff, ngChecksumFold_lt _⟩

/-- A buffer of five bytes, with its checksum in the second word. -/
theorem ngChecksum_verifies_five
    : ngChecksum ((store16 UInt8.ofNat (0 + 2) 0).store16 (0 + 2)
        (ngChecksum (store16 UInt8.ofNat (0 + 2) 0) 0 5)) 0 5 = 0 :=
  (ngChecksum_verifies UInt8.ofNat 0 5).1 2 (by decide) (by decide)

theorem ngChecksum_ngEncodeIcmpPkt (cksum : CksumLib) (msg : Memory) (gSrcMac dstMac : MacAddr)
    (sip dip : UInt32) (id seqnb : UInt16)
    : ngChecksum (ngEncodeIcmpPkt cksum msg gSrcMac dstMac sip dip id seqnb) 34 8 = 0 := by
  unfold ngEncodeIcmpPkt icmpPktWrites
  exact ngChecksum_store16 _ 34 2 8 (by decide) (by decide)

theorem ngChecksum_ngSendIcmp {cksum : CksumLib} {mbuf : Option (Addr × Memory)} {gSrcMac dstMac : MacAddr}
    {sip dip : UInt32} {id seqnb : UInt16} {pkt : RteMbuf}
    (h : ngSendIcmp cksum mbuf gSrcMac dstMac sip dip id seqnb = .ok pkt) : ngChecksum pkt.data 34 8 = 0 := by
  unfold ngSendIcmp at h
  split at h
  . contradiction
  . cases h
    exact ngChecksum_ngEncodeIcmpPkt cksum _ gSrcMac dstMac sip dip id seqnb

end NgStack
