import DpdkLearning.Stack.Impl.Basic

open Lib

namespace NgStack

@[simp]
theorem rteRingMcDequeue_eq_none_iff {α : Type} (r : RteRing α)
    : rteRingMcDequeue r = none ↔ r.items = [] := by
  unfold rteRingMcDequeue RteRing.items
  rw [← Fifo.pop_eq_none_iff]
  split <;> simp_all

theorem rteRingMcDequeue_eq_some_iff {α : Type} {r q : RteRing α} {x : α}
    : rteRingMcDequeue r = some (x, q) ↔ r.items = x :: q.items ∧ r.name = q.name := by
  unfold rteRingMcDequeue RteRing.items
  rcases q with ⟨name, queue⟩
  split
  . next h =>
    rw [Fifo.pop_eq_none_iff] at h
    simp [h]
  . next y rest h =>
    simp only [Option.some.injEq, Prod.mk.injEq, RteRing.mk.injEq]
    constructor
    . rintro ⟨rfl, rfl, rfl⟩
      exact ⟨(Fifo.pop_eq_some_iff _ _ _).mp h, rfl⟩
    . rintro ⟨hitems, rfl⟩
      have := (Fifo.pop_eq_some_iff r.queue queue x).mpr hitems
      rw [this] at h
      simp only [Option.some.injEq, Prod.mk.injEq] at h
      exact ⟨h.1.symm, rfl, h.2.symm⟩

theorem exists_dequeue {α : Type} {r : RteRing α} {x : α} {xs : List α} (h : r.items = x :: xs)
    : ∃ q, rteRingMcDequeue r = some (x, q) ∧ q.items = xs := by
  cases hdeq : rteRingMcDequeue r with
  | none =>
    rw [rteRingMcDequeue_eq_none_iff, h] at hdeq
    contradiction
  | some p =>
    rcases p with ⟨y, q⟩
    have := (rteRingMcDequeue_eq_some_iff.mp hdeq).1
    rw [h, List.cons.injEq] at this
    rcases this with ⟨rfl, rfl⟩
    exact ⟨q, rfl, rfl⟩

theorem items_rteRingMpEnqueue {α : Type} (r : RteRing α) (x : α)
    : (rteRingMpEnqueue r x).items
        = r.items ++ (if r.items.length < ringSize - 1 then [x] else []) := by
  apply Fifo.items_push

theorem items_enqueue_of_dequeue {α : Type} {r q : RteRing α} {x : α}
    (h : rteRingMcDequeue r = some (x, q)) (y : α)
    : (rteRingMpEnqueue q y).items = q.items ++ [y] := by
  have hitems := (rteRingMcDequeue_eq_some_iff.mp h).1
  have hbound := r.queue.bounded
  rw [RteRing.items] at hitems
  rw [hitems, List.length_cons] at hbound
  rw [items_rteRingMpEnqueue, if_pos (by omega)]

end NgStack
