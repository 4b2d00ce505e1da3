import Mathlib.Algebra.Group.Nat.Even
import Mathlib.Data.List.TakeDrop
import Mathlib.Data.Nat.Digits.Defs
import Mathlib.Data.Nat.ModEq
import Mathlib.Tactic.Linarith
import Mathlib.Tactic.Ring

/-!
This module contains arithmetic on numbers that hold a list of smaller ones, each in a lane of `w` bits.
-/

namespace Lib

namespace Lanes

/--
The numbers in the given lanes, the lowest first.
-/
abbrev pack (w : Nat) (lanes : List Nat) : Nat :=
  Nat.ofDigits (2 ^ w) lanes

/--
The lanes in even places.
-/
def evens : List Nat → List Nat
  | [] => []
  | [a] => [a]
  | a :: _ :: lanes => a :: evens lanes

/--
The sums of neighbouring lanes.
-/
def pairSums : List Nat → List Nat
  | a :: b :: lanes => (a + b) :: pairSums lanes
  | _ => []

/--
Each lane with the next one added.
-/
def runSums : List Nat → List Nat
  | [] => []
  | [a] => [a]
  | a :: b :: lanes => (a + b) :: runSums (b :: lanes)

/--
All bits of the even ones of `2 * n` lanes.
-/
def evenMask (w n : Nat) : Nat :=
  pack (2 * w) (List.replicate n (2 ^ w - 1))

variable {w n a b r s : Nat} {lanes : List Nat}

theorem land_add_mul (ha : a < 2 ^ w) (hb : b < 2 ^ w)
    : (a + 2 ^ w * r) &&& (b + 2 ^ w * s) = (a &&& b) + 2 ^ w * (r &&& s) := by
  have hpos : 0 < 2 ^ w := Nat.two_pow_pos w
  rw [← Nat.mod_add_div ((a + 2 ^ w * r) &&& (b + 2 ^ w * s)) (2 ^ w), Nat.and_mod_two_pow, Nat.and_div_two_pow,
    Nat.add_mul_mod_self_left, Nat.add_mul_mod_self_left, Nat.mod_eq_of_lt ha, Nat.mod_eq_of_lt hb,
    Nat.add_mul_div_left _ _ hpos, Nat.add_mul_div_left _ _ hpos, Nat.div_eq_of_lt ha, Nat.div_eq_of_lt hb,
    Nat.zero_add, Nat.zero_add]

theorem pack_cons (w a : Nat) (lanes : List Nat) : pack w (a :: lanes) = a + 2 ^ w * pack w lanes := by
  simp [pack, Nat.ofDigits_cons]

theorem pack_cons_cons (w a b : Nat) (lanes : List Nat)
    : pack w (a :: b :: lanes) = a + 2 ^ w * b + 2 ^ (2 * w) * pack w lanes := by
  rw [pack_cons, pack_cons, Nat.two_mul, Nat.pow_add]
  ring

theorem pack_two_mul_cons (w a : Nat) (lanes : List Nat)
    : pack (2 * w) (a :: lanes) = a + 2 ^ (2 * w) * pack (2 * w) lanes :=
  pack_cons (2 * w) a lanes

theorem pack_replicate_succ (w a n : Nat)
    : pack w (List.replicate (n + 1) a) = a + 2 ^ w * pack w (List.replicate n a) := by
  rw [List.replicate_succ, pack_cons]

/-- A shift by one lane drops the lowest. -/
theorem pack_shiftRight (h : ∀ d ∈ lanes, d < 2 ^ w) : pack w lanes >>> w = pack w lanes.tail := by
  rw [Nat.shiftRight_eq_div_pow]
  exact Nat.ofDigits_div_eq_ofDigits_tail (Nat.two_pow_pos w) lanes h

theorem pack_lt (hw : 0 < w) (h : ∀ d ∈ lanes, d < 2 ^ w) : pack w lanes < 2 ^ (w * lanes.length) := by
  rw [Nat.pow_mul]
  exact Nat.ofDigits_lt_base_pow_length (Nat.one_lt_two_pow (by omega)) h

theorem evens_cons (a : Nat) (lanes : List Nat) : evens (a :: lanes) = a :: evens lanes.tail := by
  cases lanes <;> rfl

/-- The mask picks the lanes in even places, which then have twice the width. -/
theorem pack_land_evenMask (h : ∀ d ∈ lanes, d < 2 ^ w) (hn : lanes.length ≤ 2 * n)
    : pack w lanes &&& evenMask w n = pack (2 * w) (evens lanes) := by
  have hpos : 0 < 2 ^ w := Nat.two_pow_pos w
  have hwide : 2 ^ (2 * w) = 2 ^ w * 2 ^ w := by rw [Nat.two_mul, Nat.pow_add]
  have hle : 2 ^ w ≤ 2 ^ (2 * w) := by
    rw [hwide]
    exact Nat.le_mul_of_pos_left _ hpos
  have hmask : 2 ^ w - 1 < 2 ^ (2 * w) := by omega
  induction n generalizing lanes with
  | zero =>
    have hnil : lanes = [] := List.length_eq_zero_iff.mp (by omega)
    subst hnil
    simp [pack, evens]
  | succ n ih =>
    rw [evenMask, pack_replicate_succ]
    -- The mask has one lane for two of the word.
    match lanes with
    | [] => simp [pack, evens]
    | [a] =>
      have ha : a < 2 ^ w := h a (by simp)
      have hsingle : pack w [a] = a + 2 ^ (2 * w) * 0 := by simp [pack]
      rw [hsingle, land_add_mul (by omega) hmask, Nat.and_two_pow_sub_one_eq_mod, Nat.mod_eq_of_lt ha,
        Nat.zero_and]
      simp [pack, evens]
    | a :: b :: lanes =>
      have ha : a < 2 ^ w := h a (by simp)
      have hb : b < 2 ^ w := h b (by simp)
      have hlow : a + 2 ^ w * b < 2 ^ (2 * w) := by
        rw [hwide]
        nlinarith
      rw [pack_cons_cons, land_add_mul hlow hmask, Nat.and_two_pow_sub_one_eq_mod,
        Nat.add_mul_mod_self_left, Nat.mod_eq_of_lt ha]
      have hrest : pack w lanes &&& evenMask w n = pack (2 * w) (evens lanes) := by
        rw [List.length_cons, List.length_cons] at hn
        exact ih (fun d hd => h d (by simp [hd])) (by omega)
      rw [evenMask] at hrest
      rw [hrest, evens, pack_two_mul_cons]

/-- The lanes in even places and those in odd places. -/
theorem pack_split (w : Nat) (lanes : List Nat)
    : pack w lanes = pack (2 * w) (evens lanes) + 2 ^ w * pack (2 * w) (evens lanes.tail) := by
  match lanes with
  | [] => rfl
  | [a] => simp [pack, evens]
  | a :: b :: lanes =>
    rw [pack_cons_cons, evens, List.tail_cons, evens_cons, pack_two_mul_cons, pack_two_mul_cons,
      pack_split w lanes]
    ring

theorem pack_evens_add (w : Nat)
    : ∀ lanes : List Nat, Even lanes.length
      → pack (2 * w) (evens lanes) + pack (2 * w) (evens lanes.tail) = pack (2 * w) (pairSums lanes)
  | [], _ => rfl
  | [a], heven => by simp at heven
  | a :: b :: lanes, heven => by
    have hrest := pack_evens_add w lanes (by simpa [Nat.even_add_one] using heven)
    rw [evens, List.tail_cons, evens_cons, pairSums, pack_two_mul_cons, pack_two_mul_cons, pack_two_mul_cons,
      ← hrest]
    ring

theorem length_pairSums : ∀ lanes : List Nat, (pairSums lanes).length = lanes.length / 2
  | [] => rfl
  | [a] => by simp [pairSums]
  | a :: b :: lanes => by
    rw [pairSums, List.length_cons, length_pairSums lanes, List.length_cons, List.length_cons]
    omega

theorem sum_pairSums : ∀ lanes : List Nat, Even lanes.length → (pairSums lanes).sum = lanes.sum
  | [], _ => rfl
  | [a], heven => by simp at heven
  | a :: b :: lanes, heven => by
    have hrest := sum_pairSums lanes (by simpa [Nat.even_add_one] using heven)
    rw [pairSums, List.sum_cons, List.sum_cons, List.sum_cons, hrest, Nat.add_assoc]

theorem le_of_mem_pairSums {c : Nat}
    : ∀ {lanes : List Nat}, (∀ d ∈ lanes, d ≤ c) → ∀ d ∈ pairSums lanes, d ≤ 2 * c
  | [], _, d, hd => by simp [pairSums] at hd
  | [a], _, d, hd => by simp [pairSums] at hd
  | a :: b :: lanes, h, d, hd => by
    have ha := h a (by simp)
    have hb := h b (by simp)
    rw [pairSums, List.mem_cons] at hd
    rcases hd with rfl | hd
    . omega
    . exact le_of_mem_pairSums (fun d hd => h d (by simp [hd])) d hd

/-- The sum of the even and the odd lanes, each picked by the mask. -/
theorem pack_masked_add (h : ∀ d ∈ lanes, d < 2 ^ w) (hn : lanes.length = 2 * n)
    : (pack w lanes &&& evenMask w n) + (pack w lanes >>> w &&& evenMask w n)
        = pack (2 * w) (pairSums lanes) := by
  have htail : ∀ d ∈ lanes.tail, d < 2 ^ w := fun d hd => h d (List.mem_of_mem_tail hd)
  have hlen : lanes.tail.length ≤ 2 * n := by
    rw [List.length_tail]
    omega
  rw [pack_shiftRight h, pack_land_evenMask h (by omega), pack_land_evenMask htail hlen,
    pack_evens_add w lanes (by simp [hn])]

/-- Where each lane is a bit, taking the odd ones away once leaves the sums. -/
theorem pack_sub_masked (h : ∀ d ∈ lanes, d < 2 ^ 1) (hn : lanes.length = 2 * n)
    : (pack 1 lanes >>> 1 &&& evenMask 1 n) ≤ pack 1 lanes
      ∧ pack 1 lanes - (pack 1 lanes >>> 1 &&& evenMask 1 n) = pack (2 * 1) (pairSums lanes) := by
  have htail : ∀ d ∈ lanes.tail, d < 2 ^ 1 := fun d hd => h d (List.mem_of_mem_tail hd)
  have hlen : lanes.tail.length ≤ 2 * n := by
    rw [List.length_tail]
    omega
  have hsplit := pack_split 1 lanes
  have hsum := pack_evens_add 1 lanes (by simp [hn])
  rw [pack_shiftRight h, pack_land_evenMask htail hlen]
  omega

theorem pack_runSums (w : Nat) : ∀ lanes : List Nat, pack w (runSums lanes) = pack w lanes + pack w lanes.tail
  | [] => rfl
  | [a] => by simp [pack, runSums]
  | a :: b :: lanes => by
    rw [runSums, pack_cons, pack_runSums w (b :: lanes), List.tail_cons, List.tail_cons, pack_cons w a,
      pack_cons w b]
    ring

theorem length_runSums : ∀ lanes : List Nat, (runSums lanes).length = lanes.length
  | [] => rfl
  | [a] => rfl
  | a :: b :: lanes => by
    rw [runSums, List.length_cons, length_runSums (b :: lanes)]
    rfl

theorem le_of_mem_runSums {c : Nat}
    : ∀ {lanes : List Nat}, (∀ d ∈ lanes, d ≤ c) → ∀ d ∈ runSums lanes, d ≤ 2 * c
  | [], _, d, hd => by simp [runSums] at hd
  | [a], h, d, hd => by
    have ha := h a (by simp)
    simp only [runSums, List.mem_singleton] at hd
    omega
  | a :: b :: lanes, h, d, hd => by
    have ha := h a (by simp)
    have hb := h b (by simp)
    rw [runSums, List.mem_cons] at hd
    rcases hd with rfl | hd
    . omega
    . exact le_of_mem_runSums (fun d hd => h d (List.mem_cons_of_mem a hd)) d hd

theorem evens_runSums : ∀ lanes : List Nat, Even lanes.length → evens (runSums lanes) = pairSums lanes
  | [], _ => rfl
  | [a], heven => by simp at heven
  | [a, b], _ => rfl
  | a :: b :: c :: lanes, heven => by
    have hrest := evens_runSums (c :: lanes) (by simpa [Nat.even_add_one] using heven)
    rw [runSums, runSums, evens, hrest, pairSums]

/-- Where a lane has room for the sum of two, the lanes may be added before the mask picks the sums. -/
theorem pack_add_masked {c : Nat} (h : ∀ d ∈ lanes, d ≤ c) (hc : 2 * c < 2 ^ w) (hn : lanes.length = 2 * n)
    : (pack w lanes + pack w lanes >>> w) &&& evenMask w n = pack (2 * w) (pairSums lanes) := by
  have hlane : ∀ d ∈ lanes, d < 2 ^ w := by
    intro d hd
    have := h d hd
    omega
  have hrun : ∀ d ∈ runSums lanes, d < 2 ^ w := by
    intro d hd
    have := le_of_mem_runSums h d hd
    omega
  rw [pack_shiftRight hlane, ← pack_runSums, pack_land_evenMask hrun (by rw [length_runSums, hn]),
    evens_runSums lanes (by simp [hn])]

/--
The sums of the lanes up to each.
-/
def prefixSums : List Nat → List Nat
  | [] => []
  | a :: lanes => a :: (prefixSums lanes).map (a + ·)

theorem length_prefixSums (lanes : List Nat) : (prefixSums lanes).length = lanes.length := by
  induction lanes with
  | nil => rfl
  | cons a lanes ih => simp [prefixSums, ih]

theorem le_of_mem_prefixSums {d : Nat} (hd : d ∈ prefixSums lanes) : d ≤ lanes.sum := by
  induction lanes generalizing d with
  | nil => simp [prefixSums] at hd
  | cons a lanes ih =>
    rw [prefixSums, List.mem_cons, List.mem_map] at hd
    rw [List.sum_cons]
    rcases hd with rfl | ⟨e, he, rfl⟩
    . omega
    . have := ih he
      omega

theorem getLast?_prefixSums (h : lanes ≠ []) : (prefixSums lanes).getLast? = some lanes.sum := by
  induction lanes with
  | nil => contradiction
  | cons a lanes ih =>
    cases lanes with
    | nil => simp [prefixSums]
    | cons b lanes =>
      have hrest := ih (List.cons_ne_nil b lanes)
      rw [prefixSums, List.getLast?_cons, List.getLast?_map, hrest]
      simp

theorem pack_map_add (w a : Nat) (lanes : List Nat)
    : pack w (lanes.map (a + ·)) = a * pack w (List.replicate lanes.length 1) + pack w lanes := by
  induction lanes with
  | nil => simp [pack]
  | cons b lanes ih =>
    rw [List.map_cons, pack_cons, ih, List.length_cons, pack_replicate_succ, pack_cons]
    ring

theorem pack_replicate_concat (w n : Nat)
    : pack w (List.replicate (n + 1) 1) = pack w (List.replicate n 1) + 2 ^ (w * n) := by
  rw [List.replicate_succ', pack, Nat.ofDigits_append, Nat.ofDigits_singleton, List.length_replicate,
    Nat.pow_mul, Nat.mul_one]

/-- A product with ones in all lanes, cut to the lanes there are, has in each lane the sum up to it. -/
theorem pack_mul_ones (w : Nat) (lanes : List Nat)
    : pack w lanes * pack w (List.replicate lanes.length 1) ≡ pack w (prefixSums lanes)
        [MOD 2 ^ (w * lanes.length)] := by
  induction lanes with
  | nil => exact Nat.ModEq.refl _
  | cons a lanes ih =>
    have hprod : pack w (a :: lanes) * pack w (List.replicate (lanes.length + 1) 1)
        = a * pack w (List.replicate (lanes.length + 1) 1)
          + 2 ^ w * (pack w lanes * pack w (List.replicate lanes.length 1))
          + 2 ^ (w * (lanes.length + 1)) * pack w lanes := by
      rw [pack_cons, Nat.add_mul, Nat.mul_assoc (2 ^ w), pack_replicate_concat, Nat.mul_add w, Nat.pow_add]
      ring
    have hsums : pack w (prefixSums (a :: lanes))
        = a * pack w (List.replicate (lanes.length + 1) 1) + 2 ^ w * pack w (prefixSums lanes) := by
      rw [prefixSums, pack_cons, pack_map_add, length_prefixSums, pack_replicate_succ]
      ring
    have hmod : 2 ^ (w * (lanes.length + 1)) = 2 ^ w * 2 ^ (w * lanes.length) := by
      rw [Nat.mul_add, Nat.pow_add]
      ring
    rw [List.length_cons, hprod, hsums, Nat.add_modulus_mul_modEq_iff, hmod]
    exact (Nat.ModEq.mul_left' _ ih).add_left _

/-- The highest lane of that product has the sum of all of them. -/
theorem pack_mul_ones_top (hw : 0 < w) (hlen : lanes.length = n + 1) (hsum : lanes.sum < 2 ^ w)
    : pack w lanes * pack w (List.replicate (n + 1) 1) % 2 ^ (w * (n + 1)) / 2 ^ (w * n) = lanes.sum := by
  have hlane : ∀ d ∈ prefixSums lanes, d < 2 ^ w := by
    intro d hd
    exact Nat.lt_of_le_of_lt (le_of_mem_prefixSums hd) hsum
  have hlen' : (prefixSums lanes).length = n + 1 := by rw [length_prefixSums, hlen]
  have hlt := pack_lt hw hlane
  have hval : pack w lanes * pack w (List.replicate (n + 1) 1) % 2 ^ (w * (n + 1))
      = pack w (prefixSums lanes) := by
    rw [hlen'] at hlt
    rw [← Nat.mod_eq_of_lt hlt, ← hlen]
    exact pack_mul_ones w lanes
  have hne : prefixSums lanes ≠ [] := List.ne_nil_of_length_eq_add_one hlen'
  have hlast := getLast?_prefixSums (List.ne_nil_of_length_eq_add_one hlen)
  rw [List.getLast?_eq_some_getLast hne, Option.some.injEq] at hlast
  have hdrop := List.drop_length_sub_one hne
  rw [hlen', Nat.add_sub_cancel, hlast] at hdrop
  rw [hval, Nat.pow_mul, pack, Nat.ofDigits_div_pow_eq_ofDigits_drop n (Nat.two_pow_pos w) _ hlane, hdrop,
    Nat.ofDigits_singleton]

/--
The lowest `n` bits of a number, each in a lane of its own.
-/
def bits (n v : Nat) : List Nat :=
  (List.range n).map (fun i => (v.testBit i).toNat)

theorem length_bits (n v : Nat) : (bits n v).length = n := by
  simp [bits]

theorem le_of_mem_bits {n v d : Nat} (hd : d ∈ bits n v) : d ≤ 1 := by
  rw [bits, List.mem_map] at hd
  rcases hd with ⟨i, _, rfl⟩
  apply Bool.toNat_le

theorem bits_succ (n v : Nat) : bits (n + 1) v = v % 2 :: bits n (v / 2) := by
  rw [bits, List.range_succ_eq_map, List.map_cons, List.map_map, Nat.testBit_zero]
  congr 1
  . rcases Nat.mod_two_eq_zero_or_one v with h | h <;> simp [h]
  . apply List.map_congr_left
    intro i _
    rw [Function.comp_apply, Nat.testBit_succ]

theorem pack_bits {n v : Nat} (h : v < 2 ^ n) : pack 1 (bits n v) = v := by
  induction n generalizing v with
  | zero =>
    have hv : v = 0 := by simpa using h
    rw [hv]
    rfl
  | succ n ih =>
    rw [bits_succ, pack_cons, ih (by omega)]
    omega

/--
How many of the lowest `n` bits of a number are set.
-/
def countOnes (n v : Nat) : Nat :=
  (List.range n).countP v.testBit

theorem sum_bits (n v : Nat) : (bits n v).sum = countOnes n v := by
  induction n with
  | zero => rfl
  | succ n ih =>
    rw [bits, countOnes, List.range_succ, List.map_append, List.sum_append, List.countP_append, ← bits,
      ← countOnes, ih]
    cases h : v.testBit n <;> simp [h]

theorem countOnes_le (n v : Nat) : countOnes n v ≤ n := by
  have hle := List.countP_le_length (p := v.testBit) (l := List.range n)
  rwa [List.length_range] at hle

theorem countOnes_add {n v : Nat} (h : v < 2 ^ n) (k u : Nat)
    : countOnes (n + k) (v + 2 ^ n * u) = countOnes n v + countOnes k u := by
  have hbit : ∀ i, (v + 2 ^ n * u).testBit i = if i < n then v.testBit i else u.testBit (i - n) := by
    intro i
    rw [Nat.add_comm, Nat.testBit_two_pow_mul_add u h]
  rw [countOnes, List.range_add, List.countP_append, List.countP_map, countOnes, countOnes]
  congr 1
  . apply List.countP_congr
    intro i hi
    rw [hbit, if_pos (List.mem_range.mp hi)]
  . apply List.countP_congr
    intro i _
    rw [Function.comp_apply, hbit, if_neg (by omega), Nat.add_sub_cancel_left]

/-- The bits that are set in a word are those set in its lanes. -/
theorem countOnes_pack (h : ∀ d ∈ lanes, d < 2 ^ w)
    : countOnes (w * lanes.length) (pack w lanes) = (lanes.map (countOnes w)).sum := by
  induction lanes with
  | nil => rfl
  | cons a lanes ih =>
    have hrest := ih (fun d hd => h d (List.mem_cons_of_mem a hd))
    rw [List.length_cons, Nat.mul_add_one, Nat.add_comm, pack_cons, countOnes_add (h a List.mem_cons_self),
      hrest, List.map_cons, List.sum_cons]

end Lanes

end Lib
