import Mathlib.Data.List.Infix
import Mathlib.Data.List.Nodup

/-!
This module contains lists that are threaded through two tables of links, one to the next node and one to
the node before.
-/

namespace Lib

variable {α : Type}

/--
The nodes that are met from `start` on along `link`, up to a null link.
-/
inductive Traverses (link : α → Option α) : Option α → List α → Prop where
  | nil : Traverses link none []
  | cons {a : α} {items : List α} (rest : Traverses link (link a) items)
    : Traverses link (some a) (a :: items)

/--
The link of each node of the list leads to the node behind it.
-/
def LinksTo (link : α → Option α) (items : List α) : Prop :=
  ∀ l1 a l2, items = l1 ++ a :: l2 → link a = l2.head?

theorem getLast?_eq_some_iff_of_nodup {l1 l2 : List α} {a : α} (h : (l1 ++ a :: l2).Nodup)
    : (l1 ++ a :: l2).getLast? = some a ↔ l2 = [] := by
  constructor
  . intro hlast
    cases l2 using List.reverseRecOn with
    | nil => rfl
    | append_singleton l2 y =>
      rw [← List.cons_append, ← List.append_assoc, List.getLast?_concat] at hlast
      cases hlast
      simp [List.nodup_append] at h
  . rintro rfl
    apply List.getLast?_concat

namespace LinksTo

variable {link link' : α → Option α} {items l1 l2 : List α} {a b x : α}

theorem traverses (h : LinksTo link items) : Traverses link items.head? items := by
  have hsuffix : ∀ l1 l2, items = l1 ++ l2 → Traverses link l2.head? l2 := by
    intro l1 l2
    induction l2 generalizing l1 with
    | nil =>
      intro _
      exact .nil
    | cons a l2 ih =>
      intro hsplit
      apply Traverses.cons
      rw [h l1 a l2 hsplit]
      apply ih (l1 ++ [a])
      simp [hsplit]
  exact hsuffix [] items rfl

theorem eq_some_iff (h : LinksTo link items) (ha : a ∈ items) : link a = some b ↔ [a, b] <:+: items := by
  constructor
  . intro hlink
    rcases List.append_of_mem ha with ⟨l1, l2, hsplit⟩
    rw [h l1 a l2 hsplit, List.head?_eq_some_iff] at hlink
    rcases hlink with ⟨l2, rfl⟩
    exact ⟨l1, l2, by simp [hsplit]⟩
  . rintro ⟨l1, l2, hsplit⟩
    exact h l1 a (b :: l2) (by simp [← hsplit])

theorem cons (h : LinksTo link items) (hx : link' x = items.head?) (hsame : ∀ a ∈ items, link' a = link a)
    : LinksTo link' (x :: items) := by
  intro l1 a l2 hsplit
  cases l1 with
  | nil =>
    cases hsplit
    exact hx
  | cons y l1 =>
    rw [List.cons_append, List.cons_eq_cons] at hsplit
    rcases hsplit with ⟨rfl, rfl⟩
    rw [hsame a (by simp), h l1 a l2 rfl]

variable [DecidableEq α]

theorem concat (h : LinksTo link items) (hnodup : items.Nodup) (hx : link' x = none)
    (hlink : ∀ a ∈ items, link' a = if items.getLast? = some a then some x else link a)
    : LinksTo link' (items ++ [x]) := by
  intro l1 a l2 hsplit
  cases l2 using List.reverseRecOn with
  | nil =>
    rcases List.append_inj' hsplit rfl with ⟨rfl, ha⟩
    cases ha
    exact hx
  | append_singleton l2 y =>
    rw [← List.cons_append, ← List.append_assoc] at hsplit
    rcases List.append_inj' hsplit rfl with ⟨rfl, hy⟩
    cases hy
    rw [hlink a (by simp)]
    cases l2 with
    | nil => simp
    | cons y l2 =>
      rw [if_neg, h l1 a (y :: l2) rfl]
      . rfl
      . rw [getLast?_eq_some_iff_of_nodup hnodup]
        simp

theorem remove (h : LinksTo link (l1 ++ x :: l2)) (hnodup : (l1 ++ x :: l2).Nodup)
    (hlink : ∀ a ∈ l1 ++ l2, link' a = if l1.getLast? = some a then link x else link a)
    : LinksTo link' (l1 ++ l2) := by
  intro k1 a k2 hsplit
  rw [hlink a (by simp [hsplit])]
  have hparts := List.nodup_append.mp hnodup
  -- The element is behind `x` or in front of it. Only the one right in front of it gets another link.
  have hplace : (∃ m, k1 = l1 ++ m ∧ l2 = m ++ a :: k2) ∨ ∃ m, l1 = k1 ++ a :: m ∧ k2 = m ++ l2 := by
    rcases List.append_eq_append_iff.mp hsplit with hbehind | ⟨m, rfl, hm⟩
    . exact .inl hbehind
    . cases m with
      | nil => exact .inl ⟨[], by simp, by simpa using hm.symm⟩
      | cons y m =>
        cases hm
        exact .inr ⟨m, rfl, rfl⟩
  rcases hplace with ⟨m, rfl, rfl⟩ | ⟨m, rfl, rfl⟩
  . have hnot : a ∉ l1 := fun ha => hparts.2.2 a ha a (by simp) rfl
    rw [if_neg (fun hlast => hnot (List.mem_of_getLast? hlast)), h (l1 ++ x :: m) a k2 (by simp)]
  . have hlast := getLast?_eq_some_iff_of_nodup hparts.1
    cases m with
    | nil =>
      rw [if_pos (hlast.mpr rfl), h (k1 ++ [a]) x l2 rfl]
      rfl
    | cons y m =>
      rw [if_neg (mt hlast.mp (List.cons_ne_nil y m)), h k1 a (y :: m ++ x :: l2) (by simp)]
      rfl

end LinksTo

/--
The links of the nodes of the list are their neighbours in it.
-/
structure DoublyLinked (next prev : α → Option α) (head : Option α) (items : List α) : Prop where
  head_eq : head = items.head?
  nodup : items.Nodup
  next : LinksTo next items
  prev : LinksTo prev items.reverse

namespace DoublyLinked

variable {next prev next' prev' : α → Option α} {head : Option α} {items : List α} {a b x : α}

theorem nil : DoublyLinked next prev none [] where
  head_eq := rfl
  nodup := List.nodup_nil
  next := by simp [LinksTo]
  prev := by simp [LinksTo]

theorem traverses (h : DoublyLinked next prev head items) : Traverses next head items := by
  rw [h.head_eq]
  exact h.next.traverses

theorem next_eq_some_iff (h : DoublyLinked next prev head items) (ha : a ∈ items)
    : next a = some b ↔ [a, b] <:+: items :=
  h.next.eq_some_iff ha

theorem prev_eq_some_iff (h : DoublyLinked next prev head items) (hb : b ∈ items)
    : prev b = some a ↔ [a, b] <:+: items := by
  rw [h.prev.eq_some_iff (List.mem_reverse.mpr hb), ← List.reverse_infix]
  simp

theorem mem_of_head (h : DoublyLinked next prev head items) (ha : head = some a) : a ∈ items := by
  rw [h.head_eq] at ha
  exact List.mem_of_head? ha

/-- Each of the two links is the inverse of the other. -/
theorem next_iff_prev (h : DoublyLinked next prev head items)
    : (a ∈ items ∧ next a = some b) ↔ (b ∈ items ∧ prev b = some a) := by
  constructor
  . rintro ⟨ha, hnext⟩
    have hinfix := (h.next_eq_some_iff ha).mp hnext
    have hb : b ∈ items := hinfix.subset (by simp)
    exact ⟨hb, (h.prev_eq_some_iff hb).mpr hinfix⟩
  . rintro ⟨hb, hprev⟩
    have hinfix := (h.prev_eq_some_iff hb).mp hprev
    have ha : a ∈ items := hinfix.subset (by simp)
    exact ⟨ha, (h.next_eq_some_iff ha).mpr hinfix⟩

theorem prev_head (h : DoublyLinked next prev head items) (ha : head = some a) : prev a = none := by
  rw [h.head_eq, List.head?_eq_some_iff] at ha
  rcases ha with ⟨l2, rfl⟩
  exact h.prev l2.reverse a [] (by simp)

variable [DecidableEq α]

/-- A node that is not in the list is put in front of it. -/
theorem add (h : DoublyLinked next prev head items) (hx : x ∉ items)
    (hnext : ∀ a, next' a = if a = x then head else next a)
    (hprev : ∀ a, prev' a = if head = some a then some x else if a = x then none else prev a)
    : DoublyLinked next' prev' (some x) (x :: items) := by
  have hne : ∀ a ∈ items, a ≠ x := by
    rintro a ha rfl
    contradiction
  refine ⟨rfl, List.nodup_cons.mpr ⟨hx, h.nodup⟩, ?_, ?_⟩
  . apply h.next.cons
    . rw [hnext, if_pos rfl, h.head_eq]
    . intro a ha
      rw [hnext, if_neg (hne a ha)]
  . rw [List.reverse_cons]
    apply h.prev.concat (List.nodup_reverse.mpr h.nodup)
    . rw [hprev, if_neg (fun heq => hx (h.mem_of_head heq)), if_pos rfl]
    . intro a ha
      rw [hprev, if_neg (hne a (List.mem_reverse.mp ha)), h.head_eq, List.getLast?_reverse]

/-- A node is taken out of the list, wherever it stands. -/
theorem remove (h : DoublyLinked next prev head items) (hx : x ∈ items)
    (hnext : ∀ a, next' a = if a = x then none else if prev x = some a then next x else next a)
    (hprev : ∀ a, prev' a = if a = x then none else if next x = some a then prev x else prev a)
    : DoublyLinked next' prev' (if head = some x then next x else head) (items.erase x) := by
  rcases List.append_of_mem hx with ⟨l1, l2, rfl⟩
  have hparts := List.nodup_append.mp h.nodup
  have hx1 : x ∉ l1 := fun hmem => hparts.2.2 x hmem x List.mem_cons_self rfl
  have hx2 : x ∉ l2 := (List.nodup_cons.mp hparts.2.1).1
  have herase : (l1 ++ x :: l2).erase x = l1 ++ l2 := by
    rw [List.erase_append_right _ hx1, List.erase_cons_head]
  have hreverse : (l1 ++ x :: l2).reverse = l2.reverse ++ x :: l1.reverse := by
    simp
  have hxnext : next x = l2.head? := h.next l1 x l2 rfl
  have hxprev : prev x = l1.getLast? := by
    rw [h.prev l2.reverse x l1.reverse hreverse, List.head?_reverse]
  have hne : ∀ a ∈ l1 ++ l2, a ≠ x := by
    rintro a ha rfl
    simp [hx1, hx2] at ha
  have hprev' := h.prev
  have hnodup' := List.nodup_reverse.mpr h.nodup
  rw [hreverse] at hprev' hnodup'
  rw [herase]
  refine ⟨?_, ?_, ?_, ?_⟩
  . rw [h.head_eq, hxnext]
    cases l1 with
    | nil => simp
    | cons y l1 =>
      have hy : y ≠ x := hne y (by simp)
      simp [hy]
  . rw [← herase]
    exact h.nodup.erase x
  . apply h.next.remove h.nodup
    intro a ha
    rw [hnext, if_neg (hne a ha), hxprev]
  . rw [List.reverse_append]
    apply hprev'.remove hnodup'
    intro a ha
    rw [← List.reverse_append, List.mem_reverse] at ha
    rw [hprev, if_neg (hne a ha), hxnext, List.getLast?_reverse]

end DoublyLinked

end Lib
