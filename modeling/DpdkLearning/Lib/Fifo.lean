import Mathlib.Data.List.Basic

/-!
This module contains a bounded FIFO queue. The bound is a field of the queue, so no operation can
exceed it: a `push` onto a full queue leaves it as it was.
-/

namespace Lib

structure Fifo (α : Type) (cap : Nat) where
  items : List α
  bounded : items.length ≤ cap

namespace Fifo

variable {α : Type} {cap : Nat}

def empty : Fifo α cap where
  items := []
  bounded := Nat.zero_le _

def full (q : Fifo α cap) : Bool :=
  decide (cap ≤ q.items.length)

def push (q : Fifo α cap) (x : α) : Fifo α cap :=
  if h : q.items.length < cap then
    ⟨q.items ++ [x], by rw [List.length_append]; exact h⟩
  else
    q

def pop (q : Fifo α cap) : Option (α × Fifo α cap) :=
  match h : q.items with
  | [] => none
  | x :: xs =>
    have hbounded : xs.length ≤ cap := by
      have := q.bounded
      rw [h, List.length_cons] at this
      omega
    some (x, ⟨xs, hbounded⟩)

@[ext]
theorem ext {p q : Fifo α cap} (h : p.items = q.items) : p = q := by
  cases p
  cases q
  cases h
  rfl

@[simp]
theorem full_eq_true_iff (q : Fifo α cap) : q.full = true ↔ q.items.length = cap := by
  have := q.bounded
  simp only [full, decide_eq_true_eq]
  omega

@[simp]
theorem full_eq_false_iff (q : Fifo α cap) : q.full = false ↔ q.items.length < cap := by
  simp [full]

theorem items_push (q : Fifo α cap) (x : α)
    : (q.push x).items = q.items ++ (if q.items.length < cap then [x] else []) := by
  unfold push
  split
  . rfl
  . simp

@[simp]
theorem pop_eq_none_iff (q : Fifo α cap) : q.pop = none ↔ q.items = [] := by
  unfold pop
  split <;> simp_all

theorem pop_eq_some_iff (q r : Fifo α cap) (x : α)
    : q.pop = some (x, r) ↔ q.items = x :: r.items := by
  unfold pop
  split
  . next h => simp [h]
  . next y ys h =>
    simp only [Option.some.injEq, Prod.mk.injEq, h, List.cons.injEq]
    constructor
    . rintro ⟨rfl, rfl⟩
      exact ⟨rfl, rfl⟩
    . rintro ⟨rfl, rfl⟩
      exact ⟨rfl, rfl⟩

end Fifo

end Lib
