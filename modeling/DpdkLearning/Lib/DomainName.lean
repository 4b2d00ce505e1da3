import DpdkLearning.Lib.PrefixCode

/-!
This module contains domain names as sequences of labels, with their wire form (each label behind its
length, and a zero byte) and their form with dots.
-/

namespace Lib

def dot : UInt8 := 46

/--
The name as it is in a message.
-/
def wire (labels : List (List UInt8)) : List UInt8 :=
  labels.flatMap (fun l => l.length.toUInt8 :: l) ++ [0]

/--
The labels with a dot between any two of them.
-/
def dotted (labels : List (List UInt8)) : List UInt8 :=
  [dot].intercalate labels

def isLetter (b : UInt8) : Bool :=
  decide (65 ≤ b ∧ b ≤ 90 ∨ 97 ≤ b ∧ b ≤ 122)

/--
Letters, digits and hyphens.
-/
def isLdh (b : UInt8) : Bool :=
  isLetter b || decide (48 ≤ b ∧ b ≤ 57 ∨ b = 45)

@[ext]
structure DomainName where
  labels : List (List UInt8)
  sized : ∀ l ∈ labels, 0 < l.length ∧ l.length ≤ 63
  fits : (wire labels).length ≤ 255

namespace DomainName

/--
All bytes of the labels pass the test.
-/
def Over (name : DomainName) (test : UInt8 → Bool) : Prop :=
  ∀ l ∈ name.labels, ∀ b ∈ l, test b = true

def wire (name : DomainName) : List UInt8 :=
  Lib.wire name.labels

def dotted (name : DomainName) : List UInt8 :=
  Lib.dotted name.labels

end DomainName

variable {l : List UInt8} {ls labels labels' : List (List UInt8)}

@[simp]
theorem wire_nil : wire [] = [0] := rfl

theorem wire_cons : wire (l :: ls) = l.length.toUInt8 :: l ++ wire ls := by
  simp [wire]

theorem dotted_cons : dotted (l :: ls) = l ++ ls.flatMap (fun l => dot :: l) := by
  induction ls generalizing l with
  | nil => simp [dotted]
  | cons l' ls ih =>
    unfold dotted at ih ⊢
    rw [List.intercalate_cons_cons, ih, List.flatMap_cons]
    simp

theorem toNat_length (h : l.length ≤ 63) : l.length.toUInt8.toNat = l.length := by
  simp
  omega

theorem length_byte_ne_zero (h : 0 < l.length ∧ l.length ≤ 63) : l.length.toUInt8 ≠ 0 := by
  intro hzero
  have := toNat_length h.2
  rw [hzero] at this
  simp at this
  omega

/-- The lengths tell where the wire form of a name ends. -/
theorem wire_split {s t : List UInt8} (h : ∀ l ∈ labels, 0 < l.length ∧ l.length ≤ 63)
    (h' : ∀ l ∈ labels', 0 < l.length ∧ l.length ≤ 63) (heq : wire labels ++ s = wire labels' ++ t)
    : labels = labels' ∧ s = t := by
  induction labels generalizing labels' with
  | nil =>
    cases labels' with
    | nil => exact ⟨rfl, by simpa using heq⟩
    | cons l ls =>
      rw [wire_nil, wire_cons, List.cons_append, List.cons_append, List.cons_append, List.cons.injEq] at heq
      exact absurd heq.1.symm (length_byte_ne_zero (h' l List.mem_cons_self))
  | cons l ls ih =>
    cases labels' with
    | nil =>
      rw [wire_nil, wire_cons, List.cons_append, List.cons_append, List.cons_append, List.cons.injEq] at heq
      exact absurd heq.1 (length_byte_ne_zero (h l List.mem_cons_self))
    | cons l' ls' =>
      rw [List.forall_mem_cons] at h h'
      rw [wire_cons, wire_cons, List.cons_append, List.cons_append, List.cons_append, List.cons_append,
        List.cons.injEq, List.append_assoc, List.append_assoc] at heq
      have hlen : l.length = l'.length := by
        rw [← toNat_length h.1.2, ← toNat_length h'.1.2, heq.1]
      rcases List.append_inj heq.2 hlen with ⟨rfl, hrest⟩
      rcases ih h.2 h'.2 hrest with ⟨rfl, hst⟩
      exact ⟨rfl, hst⟩

theorem prefixCode_wire : PrefixCode DomainName.wire where
  split name name' s t heq := by
    rcases wire_split name.sized name'.sized heq with ⟨hlabels, hst⟩
    exact ⟨DomainName.ext hlabels, hst⟩
  ne_nil name := by
    simp [DomainName.wire, Lib.wire]

end Lib
