import DpdkLearning.Stack.Impl.LinkedList

/-!
This module contains what `LL_ADD` and `LL_REMOVE` do to each link.
-/

namespace NgStack

namespace LlHeap

variable {α : Type} {s : LlHeap α} {item a : α}

@[simp]
theorem next_setList (list : Option α) : (s.setList list).next a = s.next a := by
  rfl

@[simp]
theorem prev_setList (list : Option α) : (s.setList list).prev a = s.prev a := by
  rfl

@[simp]
theorem list_setList (list : Option α) : (s.setList list).list = list := by
  rfl

variable [DecidableEq α]

@[simp]
theorem next_setNext (next : Option α)
    : (s.setNext item next).next a = if a = item then next else s.next a := by
  simp only [setNext, LlHeap.next, Function.update_apply]
  split <;> rfl

@[simp]
theorem next_setPrev (prev : Option α) : (s.setPrev item prev).next a = s.next a := by
  simp only [setPrev, LlHeap.next, Function.update_apply]
  split
  . next h => rw [h]
  . rfl

@[simp]
theorem prev_setNext (next : Option α) : (s.setNext item next).prev a = s.prev a := by
  simp only [setNext, LlHeap.prev, Function.update_apply]
  split
  . next h => rw [h]
  . rfl

@[simp]
theorem prev_setPrev (prev : Option α)
    : (s.setPrev item prev).prev a = if a = item then prev else s.prev a := by
  simp only [setPrev, LlHeap.prev, Function.update_apply]
  split <;> rfl

@[simp]
theorem list_setNext (next : Option α) : (s.setNext item next).list = s.list := by
  rfl

@[simp]
theorem list_setPrev (prev : Option α) : (s.setPrev item prev).list = s.list := by
  rfl

@[simp]
theorem next_setNextOf (target next : Option α)
    : (s.setNextOf target next).next a = if target = some a then next else s.next a := by
  cases target <;> simp [setNextOf, eq_comm]

@[simp]
theorem next_setPrevOf (target prev : Option α) : (s.setPrevOf target prev).next a = s.next a := by
  cases target <;> simp [setPrevOf]

@[simp]
theorem prev_setNextOf (target next : Option α) : (s.setNextOf target next).prev a = s.prev a := by
  cases target <;> simp [setNextOf]

@[simp]
theorem prev_setPrevOf (target prev : Option α)
    : (s.setPrevOf target prev).prev a = if target = some a then prev else s.prev a := by
  cases target <;> simp [setPrevOf, eq_comm]

@[simp]
theorem list_setNextOf (target next : Option α) : (s.setNextOf target next).list = s.list := by
  cases target <;> rfl

@[simp]
theorem list_setPrevOf (target prev : Option α) : (s.setPrevOf target prev).list = s.list := by
  cases target <;> rfl

theorem next_llAdd (s : LlHeap α) (item a : α)
    : (s.llAdd item).next a = if a = item then s.list else s.next a := by
  simp [llAdd]

theorem prev_llAdd (s : LlHeap α) (item a : α)
    : (s.llAdd item).prev a
        = if s.list = some a then some item else if a = item then none else s.prev a := by
  simp [llAdd]

theorem list_llRemove (s : LlHeap α) (item : α)
    : (s.llRemove item).list = if s.list = some item then s.next item else s.list := by
  simp only [llRemove]
  split <;> simp_all

theorem next_llRemove (s : LlHeap α) (item a : α)
    : (s.llRemove item).next a
        = if a = item then none else if s.prev item = some a then s.next item else s.next a := by
  simp only [llRemove]
  split <;> simp

theorem prev_llRemove (s : LlHeap α) (item a : α)
    : (s.llRemove item).prev a
        = if a = item then none else if s.next item = some a then s.prev item else s.prev a := by
  simp only [llRemove]
  split <;> simp

end LlHeap

end NgStack
