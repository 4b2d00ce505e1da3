import Mathlib.Data.List.Pairwise

/-!
This module contains spans of addresses below a limit and tables of them that do not overlap. It compares
two ways to look an address up in such a table, the first span that holds the address and the first one
whose start and end it lies between when the end counts as well and is computed modulo the limit.
-/

namespace Lib

structure Span where
  start : Nat
  size : Nat

namespace Span

variable {limit addr : Nat} {s t : Span}

def Holds (s : Span) (addr : Nat) : Prop :=
  s.start ≤ addr ∧ addr < s.start + s.size

instance {s : Span} {addr : Nat} : Decidable (Holds s addr) :=
  inferInstanceAs (Decidable (_ ∧ _))

/--
The address is the first one behind the span.
-/
def EndsAt (s : Span) (addr : Nat) : Prop :=
  s.start + s.size = addr

/--
The address lies between the start of the span and its end, the end included.
-/
def Touches (limit : Nat) (s : Span) (addr : Nat) : Prop :=
  s.start ≤ addr ∧ addr ≤ (s.start + s.size) % limit

instance {limit addr : Nat} {s : Span} : Decidable (Touches limit s addr) :=
  inferInstanceAs (Decidable (_ ∧ _))

/--
The span has an address, all of them are below the limit and the limit is above its size.
-/
def Fits (limit : Nat) (s : Span) : Prop :=
  0 < s.size ∧ s.size < limit ∧ s.start + s.size ≤ limit

def Apart (s t : Span) : Prop :=
  s.start + s.size ≤ t.start ∨ t.start + t.size ≤ s.start

theorem Apart.not_holds (h : Apart s t) (hs : s.Holds addr) : ¬t.Holds addr := by
  unfold Apart at h
  unfold Holds at hs ⊢
  omega

theorem Apart.not_endsAt (h : Apart s t) (hs : 0 < s.size) (ht : 0 < t.size) (hend : s.EndsAt addr)
    : ¬t.EndsAt addr := by
  unfold Apart at h
  unfold EndsAt at hend ⊢
  omega

/--
Only a span that ends at the limit is not touched by the addresses it holds.
-/
theorem touches_iff (hfits : Fits limit s) (haddr : addr < limit)
    : Touches limit s addr ↔ (s.Holds addr ∧ ¬s.EndsAt limit) ∨ s.EndsAt addr := by
  unfold Fits at hfits
  unfold Touches Holds EndsAt
  by_cases htop : s.start + s.size = limit
  . rw [htop, Nat.mod_self]
    omega
  . rw [Nat.mod_eq_of_lt (by omega)]
    omega

end Span

section Tables

variable {β γ : Type} {limit addr : Nat} {span : β → Span} {l l1 l2 : List β} {e f : β} {value : β → γ}
  {absent : γ}

/--
The first entry whose span holds the address.
-/
def lookup (span : β → Span) (l : List β) (addr : Nat) : Option β :=
  l.find? (fun e => (span e).Holds addr)

/--
The first entry whose span the address touches.
-/
def scan (limit : Nat) (span : β → Span) (l : List β) (addr : Nat) : Option β :=
  l.find? (fun e => (span e).Touches limit addr)

/--
An entry that ends at the address comes behind the one that holds it, unless both are worth the same, and
one that holds the address does not end at the limit, unless it is worth nothing.
-/
def BorderFree (limit : Nat) (span : β → Span) (value : β → γ) (absent : γ) (l : List β) (addr : Nat)
    : Prop :=
  (∀ l1 e l2, l = l1 ++ e :: l2 → (span e).EndsAt addr →
      (∃ f ∈ l1, (span f).Holds addr ∧ ¬(span f).EndsAt limit)
        ∨ value e = (lookup span l addr).elim absent value)
    ∧ (∀ e ∈ l, (span e).Holds addr → (span e).EndsAt limit →
        (∃ f ∈ l, (span f).EndsAt addr) ∨ value e = absent)

/--
Every span of the table fits below the limit and no two of them share an address.
-/
structure Layout (limit : Nat) (span : β → Span) (l : List β) : Prop where
  fits : ∀ e ∈ l, (span e).Fits limit
  apart : l.Pairwise (fun e f => (span e).Apart (span f))

theorem lookup_eq_none_iff : lookup span l addr = none ↔ ∀ e ∈ l, ¬(span e).Holds addr := by
  simp [lookup]

theorem scan_eq_none_iff : scan limit span l addr = none ↔ ∀ e ∈ l, ¬(span e).Touches limit addr := by
  simp [scan]

theorem scan_eq_some_iff
    : scan limit span l addr = some e
        ↔ (span e).Touches limit addr
            ∧ ∃ l1 l2, l = l1 ++ e :: l2 ∧ ∀ f ∈ l1, ¬(span f).Touches limit addr := by
  simp [scan, List.find?_eq_some_iff_append]

theorem mem_or_mem_of_append_eq {l1' l2' : List β} (hl : l1 ++ e :: l2 = l1' ++ f :: l2') (hne : f ≠ e)
    : e ∈ l1' ∨ f ∈ l1 := by
  rcases List.append_eq_append_iff.mp hl with ⟨as, rfl, has⟩ | ⟨bs, rfl, hbs⟩
  . cases as with
    | nil =>
      cases has
      contradiction
    | cons a as =>
      cases has
      exact .inl (by simp)
  . cases bs with
    | nil =>
      cases hbs
      contradiction
    | cons b bs =>
      cases hbs
      exact .inr (by simp)

namespace Layout

theorem apart_of_ne (h : Layout limit span l) (he : e ∈ l) (hf : f ∈ l) (hne : e ≠ f)
    : (span e).Apart (span f) := by
  have : Std.Symm (fun e f => (span e).Apart (span f)) := ⟨fun _ _ hef => hef.symm⟩
  apply h.apart.forall he hf hne

theorem eq_of_holds (h : Layout limit span l) (he : e ∈ l) (hf : f ∈ l) (headdr : (span e).Holds addr)
    (hfaddr : (span f).Holds addr)
    : e = f := by
  apply Classical.byContradiction
  intro hne
  apply (h.apart_of_ne he hf hne).not_holds headdr hfaddr

theorem eq_of_endsAt (h : Layout limit span l) (he : e ∈ l) (hf : f ∈ l) (headdr : (span e).EndsAt addr)
    (hfaddr : (span f).EndsAt addr)
    : e = f := by
  apply Classical.byContradiction
  intro hne
  apply (h.apart_of_ne he hf hne).not_endsAt (h.fits e he).1 (h.fits f hf).1 headdr hfaddr

theorem lookup_eq_some_iff (h : Layout limit span l)
    : lookup span l addr = some e ↔ e ∈ l ∧ (span e).Holds addr := by
  constructor
  . intro hlookup
    have hholds := List.find?_some hlookup
    rw [decide_eq_true_eq] at hholds
    exact ⟨List.mem_of_find?_eq_some hlookup, hholds⟩
  . rintro ⟨he, headdr⟩
    cases hlookup : lookup span l addr with
    | none =>
      rw [lookup_eq_none_iff] at hlookup
      have := hlookup e he
      contradiction
    | some f =>
      have hf := List.find?_some hlookup
      rw [decide_eq_true_eq] at hf
      rw [h.eq_of_holds he (List.mem_of_find?_eq_some hlookup) headdr hf]

/--
A value is that of the address if and only if it is the value of every entry that holds it.
-/
theorem eq_lookup_iff (h : Layout limit span l) {v : γ}
    : v = (lookup span l addr).elim absent value
        ↔ (∀ e ∈ l, (span e).Holds addr → v = value e)
            ∧ ((∀ e ∈ l, ¬(span e).Holds addr) → v = absent) := by
  cases hlookup : lookup span l addr with
  | none =>
    rw [lookup_eq_none_iff] at hlookup
    constructor
    . intro hv
      constructor
      . intro e he headdr
        have := hlookup e he
        contradiction
      . intro _
        exact hv
    . rintro ⟨_, hnone⟩
      apply hnone hlookup
  | some f =>
    rcases h.lookup_eq_some_iff.mp hlookup with ⟨hf, hfaddr⟩
    constructor
    . intro hv
      constructor
      . intro e he headdr
        rw [h.eq_of_holds he hf headdr hfaddr]
        exact hv
      . intro hnone
        have := hnone f hf
        contradiction
    . rintro ⟨hsome, _⟩
      apply hsome f hf hfaddr

theorem touches_iff (h : Layout limit span l) (haddr : addr < limit) (he : e ∈ l)
    : (span e).Touches limit addr
        ↔ ((span e).Holds addr ∧ ¬(span e).EndsAt limit) ∨ (span e).EndsAt addr :=
  Span.touches_iff (h.fits e he) haddr

/--
The scan is as good as the lookup at exactly the addresses that are not on a border.
-/
theorem scan_eq_lookup_iff (h : Layout limit span l) (haddr : addr < limit)
    : (scan limit span l addr).elim absent value = (lookup span l addr).elim absent value
        ↔ BorderFree limit span value absent l addr := by
  cases hscan : scan limit span l addr with
  | none =>
    rw [scan_eq_none_iff] at hscan
    have hend : ∀ f ∈ l, ¬(span f).EndsAt addr := by
      intro f hf hfend
      apply hscan f hf
      rw [h.touches_iff haddr hf]
      exact .inr hfend
    constructor
    . intro heq
      constructor
      . intro l1 e l2 hl heend
        have := hend e (by simp [hl])
        contradiction
      . intro e he headdr _
        rw [h.lookup_eq_some_iff.mpr ⟨he, headdr⟩] at heq
        exact .inr heq.symm
    . rintro ⟨_, htop⟩
      cases hlookup : lookup span l addr with
      | none => rfl
      | some e =>
        rcases h.lookup_eq_some_iff.mp hlookup with ⟨he, headdr⟩
        have hetop : (span e).EndsAt limit := by
          apply Classical.byContradiction
          intro hetop
          apply hscan e he
          rw [h.touches_iff haddr he]
          exact .inl ⟨headdr, hetop⟩
        rcases htop e he headdr hetop with ⟨f, hf, hfend⟩ | hvalue
        . have := hend f hf
          contradiction
        . exact hvalue.symm
  | some e =>
    rcases scan_eq_some_iff.mp hscan with ⟨htouches, l1, l2, hl, hbefore⟩
    have he : e ∈ l := by simp [hl]
    have hbefore : ∀ f ∈ l1, ¬(((span f).Holds addr ∧ ¬(span f).EndsAt limit) ∨ (span f).EndsAt addr) := by
      intro f hf
      rw [← h.touches_iff haddr (by simp [hl, hf])]
      apply hbefore f hf
    rw [h.touches_iff haddr he] at htouches
    rcases htouches with ⟨headdr, hetop⟩ | heend
    . have hlookup := h.lookup_eq_some_iff.mpr ⟨he, headdr⟩
      rw [hlookup]
      refine ⟨fun _ => ⟨?_, ?_⟩, fun _ => rfl⟩
      . intro l1' f l2' hl' hfend
        have hne : f ≠ e := by
          rintro rfl
          unfold Span.Holds at headdr
          unfold Span.EndsAt at hfend
          omega
        -- the entry that holds the address is found first, so what ends there comes behind it
        rw [hl] at hl'
        rcases mem_or_mem_of_append_eq hl' hne with he | hf
        . exact .inl ⟨e, he, headdr, hetop⟩
        . exact absurd (.inr hfend) (hbefore f hf)
      . intro f hf hfaddr hftop
        cases h.eq_of_holds he hf headdr hfaddr
        contradiction
    . constructor
      . intro heq
        constructor
        . intro l1' f l2' hl' hfend
          cases h.eq_of_endsAt he (by simp [hl']) heend hfend
          exact .inr heq
        . intro f hf hfaddr hftop
          exact .inl ⟨e, he, heend⟩
      . rintro ⟨hends, _⟩
        rcases hends l1 e l2 hl heend with ⟨f, hf, hfaddr⟩ | hvalue
        . exact absurd (.inl hfaddr) (hbefore f hf)
        . exact hvalue

end Layout

end Tables

end Lib
