import DpdkLearning.Stack.Impl.Tables
import Mathlib.Data.Nat.Bitwise

/-!
This module contains the bits of `fd_table`.
-/

namespace NgStack

/--
The bit of a descriptor is set.
-/
def fdUsed (fdTable : FdTable) (fd : Nat) : Prop :=
  fdTable (fd / 8) &&& fdMask fd ≠ 0

instance (fdTable : FdTable) (fd : Nat) : Decidable (fdUsed fdTable fd) := by
  unfold fdUsed
  infer_instance

theorem toNat_fdMask (fd : Nat) : (fdMask fd).toNat = 2 ^ (fd % 8) := by
  have hlt : fd % 8 < 8 := Nat.mod_lt _ (by decide)
  have hpow : 2 ^ (fd % 8) < 2 ^ 8 := Nat.pow_lt_pow_right (by decide) hlt
  unfold fdMask
  rw [UInt8.toNat_shiftLeft, UInt8.toNat_ofNat', Nat.shiftLeft_eq]
  have hmod : fd % 8 % 2 ^ 8 % 8 = fd % 8 := by omega
  rw [hmod, UInt8.toNat_one, Nat.one_mul, Nat.mod_eq_of_lt hpow]

theorem fdUsed_iff_testBit (fdTable : FdTable) (fd : Nat)
    : fdUsed fdTable fd ↔ (fdTable (fd / 8)).toNat.testBit (fd % 8) = true := by
  unfold fdUsed
  rw [ne_eq, ← UInt8.toNat_inj, UInt8.toNat_and, toNat_fdMask, Nat.and_two_pow]
  cases Nat.testBit (fdTable (fd / 8)).toNat (fd % 8) <;> simp

theorem fdUsed_update (fdTable : FdTable) {fd e : Nat} (b : UInt8)
    : fdUsed (Function.update fdTable (fd / 8) b) e
        ↔ if e / 8 = fd / 8 then b.toNat.testBit (e % 8) = true else fdUsed fdTable e := by
  rw [fdUsed_iff_testBit]
  split
  . next h => rw [h, Function.update_self]
  . next h => rw [Function.update_of_ne h, fdUsed_iff_testBit]

theorem fdUsed_set (fdTable : FdTable) (fd e : Nat)
    : fdUsed (Function.update fdTable (fd / 8) (fdTable (fd / 8) ||| fdMask fd)) e
        ↔ fdUsed fdTable e ∨ e = fd := by
  rw [fdUsed_update]
  split
  . next h =>
    have heq : fd % 8 = e % 8 ↔ e = fd := by omega
    rw [UInt8.toNat_or, toNat_fdMask, Nat.testBit_or, Bool.or_eq_true, Nat.testBit_two_pow,
      decide_eq_true_eq, fdUsed_iff_testBit, h, heq]
  . next h =>
    constructor
    . exact .inl
    . rintro (he | rfl)
      . exact he
      . contradiction

theorem fdUsed_clear (fdTable : FdTable) (fd e : Nat)
    : fdUsed (Function.update fdTable (fd / 8) (fdTable (fd / 8) &&& ~~~(fdMask fd))) e
        ↔ fdUsed fdTable e ∧ e ≠ fd := by
  rw [fdUsed_update]
  split
  . next h =>
    have hlt : e % 8 < 8 := Nat.mod_lt _ (by decide)
    have hpow : 2 ^ (fd % 8) < 2 ^ 8 := Nat.pow_lt_pow_right (by decide) (Nat.mod_lt _ (by decide))
    have hnot : (~~~(fdMask fd)).toNat = 2 ^ 8 - (2 ^ (fd % 8) + 1) := by
      rw [UInt8.toNat_not, toNat_fdMask, UInt8.size]
      omega
    rw [UInt8.toNat_and, hnot, Nat.testBit_and, Nat.testBit_two_pow_sub_succ hpow, Bool.and_eq_true,
      Nat.testBit_two_pow, fdUsed_iff_testBit, h]
    simp only [hlt, decide_true, Bool.true_and, Bool.not_eq_true', decide_eq_false_iff_not]
    constructor
    . rintro ⟨hbit, hne⟩
      exact ⟨hbit, fun heq => hne (by rw [heq])⟩
    . rintro ⟨hbit, hne⟩
      exact ⟨hbit, fun heq => hne (by omega)⟩
  . next h =>
    constructor
    . intro he
      refine ⟨he, ?_⟩
      rintro rfl
      contradiction
    . rintro ⟨he, _⟩
      exact he

theorem not_fdUsed_init (fd : Nat) : ¬fdUsed Stack.init.fdTable fd := by
  simp [fdUsed, Stack.init]

/--
What the scan of `get_fd_frombitmap` finds in a range of descriptors.
-/
inductive FdScanned (fdTable : FdTable) (lo hi : Nat) : Int × FdTable → Prop where
  | full (hused : ∀ e, lo ≤ e → e < hi → fdUsed fdTable e) : FdScanned fdTable lo hi (-1, fdTable)
  | taken {fd : Nat} (hlo : lo ≤ fd) (hhi : fd < hi) (hfree : ¬fdUsed fdTable fd)
    (hleast : ∀ e, lo ≤ e → e < fd → fdUsed fdTable e)
    : FdScanned fdTable lo hi
        ((fd : Int), Function.update fdTable (fd / 8) (fdTable (fd / 8) ||| fdMask fd))

theorem FdScanned.extend {fdTable : FdTable} {lo hi : Nat} {p : Int × FdTable}
    (h : FdScanned fdTable (lo + 1) hi p) (hlo : fdUsed fdTable lo) : FdScanned fdTable lo hi p := by
  have hextend : ∀ {top : Nat}, (∀ e, lo + 1 ≤ e → e < top → fdUsed fdTable e)
      → ∀ e, lo ≤ e → e < top → fdUsed fdTable e := by
    intro top hrest e hle hlt
    rcases Nat.eq_or_lt_of_le hle with rfl | hgt
    . exact hlo
    . exact hrest e hgt hlt
  cases h with
  | full hused => exact .full (hextend hused)
  | taken hle hhi hfree hleast =>
    exact .taken (Nat.le_of_succ_le hle) hhi hfree (hextend hleast)

theorem fdScanned_getFdFrombitmap (fdTable : FdTable)
    : FdScanned fdTable defaultFdNum maxFdCount (getFdFrombitmap fdTable) := by
  have hgo : ∀ n fd, FdScanned fdTable fd (fd + n) (getFdFrombitmap.go fdTable n fd) := by
    intro n
    induction n with
    | zero =>
      intro fd
      apply FdScanned.full
      intro e hle hlt
      omega
    | succ n ih =>
      intro fd
      unfold getFdFrombitmap.go
      split
      . next hfree =>
        apply FdScanned.taken (Nat.le_refl fd)
        . omega
        . simpa [fdUsed] using hfree
        . intro e hle hlt
          omega
      . next hused =>
        have hrest := ih (fd + 1)
        rw [Nat.add_right_comm] at hrest
        apply hrest.extend
        simpa [fdUsed] using hused
  exact hgo (maxFdCount - defaultFdNum) defaultFdNum

/--
What `get_fd_frombitmap` gives back and leaves behind.
-/
inductive FdTaken (fdTable : FdTable) : Int × FdTable → Prop where
  | full (hall : ∀ e, defaultFdNum ≤ e → e < maxFdCount → fdUsed fdTable e)
    : FdTaken fdTable (-1, fdTable)
  | taken {fd : Nat} {fdTable' : FdTable} (hlt : fd < maxFdCount) (hfree : ¬fdUsed fdTable fd)
    (hused : ∀ e, fdUsed fdTable' e ↔ fdUsed fdTable e ∨ e = fd)
    (hback : setFdFrombitmap fdTable' fd = fdTable)
    : FdTaken fdTable ((fd : Int), fdTable')

theorem clear_or_of_and_eq_zero {b m : UInt8} (h : b &&& m = 0) : (b ||| m) &&& ~~~m = b := by
  have hbits : b.toBitVec &&& m.toBitVec = 0 := by
    rw [← UInt8.toBitVec_and, h]
    rfl
  apply UInt8.toBitVec_inj.mp
  rw [UInt8.toBitVec_and, UInt8.toBitVec_or, UInt8.toBitVec_not]
  ext i hi
  have := congrArg (fun v : BitVec 8 => v[i]) hbits
  simp at this ⊢
  grind

theorem getFdFrombitmap_cases (fdTable : FdTable) : FdTaken fdTable (getFdFrombitmap fdTable) := by
  have hscanned := fdScanned_getFdFrombitmap fdTable
  generalize getFdFrombitmap fdTable = p at hscanned
  cases hscanned with
  | full hused => exact .full hused
  | taken _ hhi hfree _ =>
    apply FdTaken.taken hhi hfree (fdUsed_set fdTable _)
    unfold setFdFrombitmap
    rw [if_neg (by omega)]
    dsimp only
    rw [Function.update_idem, Function.update_self,
      clear_or_of_and_eq_zero (by simpa [fdUsed] using hfree), Function.update_eq_self]

theorem setFdFrombitmap_ge (fdTable : FdTable) {fd : Nat} (h : maxFdCount ≤ fd)
    : setFdFrombitmap fdTable fd = fdTable := by
  unfold setFdFrombitmap
  rw [if_pos (by omega)]

/--
The descriptor whose bit `set_fd_frombitmap` clears.
-/
def releasedFd : Int → Option Nat
  | .ofNat fd => if fd < maxFdCount then some fd else none
  | .negSucc n => if n < 7 then some (7 - n) else none

theorem fdUsed_setFdFrombitmap_iff (fdTable : FdTable) (fd : Int) (e : Nat)
    : fdUsed (setFdFrombitmap fdTable fd) e ↔ fdUsed fdTable e ∧ releasedFd fd ≠ some e := by
  unfold setFdFrombitmap releasedFd
  cases fd with
  | ofNat fd =>
    dsimp only
    by_cases hlt : fd < maxFdCount
    . rw [if_neg (by simpa using hlt), if_pos hlt, fdUsed_clear, ne_eq, ne_eq, Option.some_inj, eq_comm]
    . rw [if_pos (by simpa using hlt), if_neg hlt]
      simp
  | negSucc n =>
    rw [if_neg (by omega)]
    dsimp only
    split
    . next hlt =>
      have hbyte : (7 - n) / 8 = 0 := by omega
      have hclear := fdUsed_clear fdTable (7 - n) e
      rw [hbyte] at hclear
      rw [hclear, ne_eq, ne_eq, Option.some_inj, eq_comm]
    . simp

theorem fdUsed_setFdFrombitmap (fdTable : FdTable) {fd : Nat} (h : fd < maxFdCount) (e : Nat)
    : fdUsed (setFdFrombitmap fdTable fd) e ↔ fdUsed fdTable e ∧ e ≠ fd := by
  rw [fdUsed_setFdFrombitmap_iff, ← Int.ofNat_eq_natCast, releasedFd, if_pos h, ne_eq, ne_eq,
    Option.some_inj, eq_comm]

theorem fdUsed_of_setFdFrombitmap {fdTable : FdTable} {fd : Int} {e : Nat}
    (h : fdUsed (setFdFrombitmap fdTable fd) e) : fdUsed fdTable e :=
  ((fdUsed_setFdFrombitmap_iff fdTable fd e).mp h).1

theorem releasedFd_ne {fd : Int} {e : Nat} (hfd : -1 ≤ fd) (hne : e ≠ 7) (h : fd ≠ e)
    : releasedFd fd ≠ some e := by
  intro hreleased
  cases fd with
  | ofNat fd =>
    simp only [releasedFd, Option.ite_none_right_eq_some, Option.some.injEq] at hreleased
    rw [hreleased.2] at h
    contradiction
  | negSucc n =>
    obtain rfl : n = 0 := by omega
    simp only [releasedFd, Option.ite_none_right_eq_some, Option.some.injEq] at hreleased
    omega

/--
A negative descriptor clears the bit of another one, which is taken.
-/
def spills (fdTable : FdTable) (fd : Int) : Bool :=
  decide (fd < 0) && (releasedFd fd).any (fun e => decide (fdUsed fdTable e))

theorem spills_iff (fdTable : FdTable) {fd : Int} (h : fd < 0)
    : spills fdTable fd = true ↔ ∃ e, releasedFd fd = some e ∧ fdUsed fdTable e := by
  simp [spills, h, Option.any_eq_true_iff_get, Option.eq_some_iff_get_eq]

theorem setFdFrombitmap_neg (fdTable : FdTable) {fd : Int} (h : fd < 0) (hspills : spills fdTable fd = false)
    (e : Nat) : fdUsed (setFdFrombitmap fdTable fd) e ↔ fdUsed fdTable e := by
  rw [fdUsed_setFdFrombitmap_iff, and_iff_left_iff_imp]
  intro he hreleased
  rw [Bool.eq_false_iff, ne_eq, spills_iff fdTable h] at hspills
  exact hspills ⟨e, hreleased, he⟩

theorem setFdFrombitmap_getFdFrombitmap {fdTable : FdTable} (h : (getFdFrombitmap fdTable).1 ≠ -1)
    : setFdFrombitmap (getFdFrombitmap fdTable).2 (getFdFrombitmap fdTable).1 = fdTable := by
  have hcases := getFdFrombitmap_cases fdTable
  generalize getFdFrombitmap fdTable = p at h hcases
  cases hcases with
  | full => contradiction
  | taken hlt hfree hused hback => exact hback

/-- A table without a free descriptor has the one taken whose bit stands in for descriptor -1. -/
theorem spills_of_full {fdTable : FdTable} (h : (getFdFrombitmap fdTable).1 = -1)
    : (getFdFrombitmap fdTable).2 = fdTable ∧ spills fdTable (-1) = true := by
  have hcases := getFdFrombitmap_cases fdTable
  generalize getFdFrombitmap fdTable = p at h hcases
  cases hcases with
  | full hall =>
    refine ⟨rfl, ?_⟩
    rw [spills_iff _ (by decide)]
    exact ⟨7, rfl, hall 7 (by decide) (by decide)⟩
  | taken => contradiction

theorem fdTaken_getFdFrombitmap (fdTable : FdTable)
    : FdTaken fdTable ((getFdFrombitmap fdTable).1, (getFdFrombitmap fdTable).2) :=
  getFdFrombitmap_cases fdTable

theorem free_of_taken {fdTable fdTable' : FdTable} {fd : Int} (h : FdTaken fdTable (fd, fdTable'))
    : fd = -1 ∨ ∃ n : Nat, fd = n ∧ ¬fdUsed fdTable n := by
  cases h with
  | full => exact .inl rfl
  | taken _ hfree _ => exact .inr ⟨_, rfl, hfree⟩

theorem used_of_taken {fdTable fdTable' : FdTable} {fd : Int} (h : FdTaken fdTable (fd, fdTable'))
    {e : Nat} (he : fdUsed fdTable e) : fdUsed fdTable' e := by
  cases h with
  | full => exact he
  | taken _ _ hused => exact (hused e).mpr (.inl he)

theorem bound_of_taken {fdTable fdTable' : FdTable} {fd : Int} (h : FdTaken fdTable (fd, fdTable'))
    {e : Nat} (he : fdUsed fdTable' e) : fdUsed fdTable e ∨ e < maxFdCount := by
  cases h with
  | full => exact .inl he
  | taken hlt _ hused =>
    rcases (hused e).mp he with he | rfl
    . exact .inl he
    . exact .inr hlt

theorem getFdFrombitmap_of_free {fdTable : FdTable} (h : ∀ e, ¬fdUsed fdTable e)
    : (getFdFrombitmap fdTable).1 = defaultFdNum ∧ fdUsed (getFdFrombitmap fdTable).2 defaultFdNum := by
  have hscanned := fdScanned_getFdFrombitmap fdTable
  generalize getFdFrombitmap fdTable = taken at hscanned
  cases hscanned with
  | full hused => exact absurd (hused defaultFdNum (Nat.le_refl _) (by decide)) (h _)
  | @taken fd hlo hhi hfree hleast =>
    have hfd : fd = defaultFdNum := by
      by_contra hne
      exact h _ (hleast defaultFdNum (Nat.le_refl _) (by omega))
    subst hfd
    exact ⟨rfl, (fdUsed_set fdTable _ _).mpr (.inr rfl)⟩

theorem used_getFdFrombitmap {fdTable : FdTable} (h : (getFdFrombitmap fdTable).1 ≠ -1)
    : ∃ n : Nat, (getFdFrombitmap fdTable).1 = n ∧ fdUsed (getFdFrombitmap fdTable).2 n := by
  have htaken := getFdFrombitmap_cases fdTable
  generalize getFdFrombitmap fdTable = taken at h htaken
  cases htaken with
  | full => contradiction
  | @taken n _ _ _ hused => exact ⟨n, rfl, (hused n).mpr (.inr rfl)⟩

end NgStack
